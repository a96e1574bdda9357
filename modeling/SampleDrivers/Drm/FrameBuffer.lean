import Mathlib.Data.Bool.Basic
import Mathlib.Data.List.Range
import SampleDrivers.Kernel.Basic
import SampleDrivers.Lib.Prog

/-!
# The frame buffers of the modeset programs

`modeset_create_fb`, the same in modeset-page-flip and modeset-double-buffer, has the kernel make a
dumb buffer, maps it, and fills it with a color word by word; `modeset_destroy_fb` unmaps it again.
The size of the buffer has 64 bits in the kernel's reply, and 32 bits in `bo->size`, from which the
program takes the number of words and the range it unmaps.

* `Process` — the addresses a process has mapped, their bytes, and the stores so far.
* `Reply` — a successful reply to `CREATE_DUMB`.
* `Process.fill` — the memory after the loop, which `fill_ok` says of the loop.
* `Covers` — every visible pixel has the color, nothing is written outside the buffer, and
  `modeset_destroy_fb` unmaps what was mapped and no more, whatever the process has done since.
* `covers_iff` — so it is, if the buffer could be mapped, exactly if its size is below `2 ^ 32`.
-/

set_option autoImplicit false

namespace Drm.FrameBuffer

open Kernel Prog

/-! ## The process -/

/-- The end of the addresses of a process. -/
def userEnd : ℕ := 2 ^ 47

/-- What the program has asked of the kernel, besides its memory. -/
inductive Request
  | createDumb (width height bpp : BitVec 32)
  | addFb (width height depth bpp pitch handle : BitVec 32)
  | mapDumb (handle : BitVec 32)
  | mmap (length offset : BitVec 64)
  | rmFb (fbId : BitVec 32)
  | destroyDumb (handle : BitVec 32)
  deriving DecidableEq, Repr

/-- A process. -/
@[ext]
structure Process where
  /-- The addresses that are mapped. -/
  mapped : ℕ → Bool
  mem : ℕ → BitVec 8
  /-- The addresses of the 32-bit stores, latest first. -/
  writes : List ℕ
  /-- Latest first. -/
  requests : List Request
  mapped_lt : ∀ a, mapped a = true → a < userEnd

/-- The process crashes. -/
inductive Fault
  | segv
  deriving DecidableEq, Repr

/-- Byte `i` of a word in memory, the least significant first. -/
def byteOf (word : BitVec 32) (i : ℕ) : BitVec 8 := word.extractLsb' (8 * i) 8

/-- The length of the pages that `len` bytes take. -/
def pageUp (len : ℕ) : ℕ := (len + (pageSize - 1)) / pageSize * pageSize

namespace Process

variable (p : Process)

/-- Nothing is mapped in a range of pages. -/
def Free (a len : ℕ) : Prop :=
  pageSize ∣ a ∧ a + len ≤ userEnd ∧ ∀ j < len, p.mapped (a + j) = false

instance (a len : ℕ) : Decidable (p.Free a len) :=
  inferInstanceAs (Decidable (_ ∧ _ ∧ _))

/-- A whole range is mapped. -/
def Mapped (a len : ℕ) : Prop := ∀ i < len, p.mapped (a + i) = true

instance (a len : ℕ) : Decidable (p.Mapped a len) :=
  inferInstanceAs (Decidable (∀ i < len, _))

/-- Map a range. -/
def map (a len : ℕ) (h : a + len ≤ userEnd) : Process where
  mapped x := p.mapped x || (a ≤ x && x < a + len)
  mem := p.mem
  writes := p.writes
  requests := p.requests
  mapped_lt x hx := by
    simp only [Bool.or_eq_true, Bool.and_eq_true, decide_eq_true_eq] at hx
    rcases hx with hx | ⟨-, hlt⟩
    · exact p.mapped_lt x hx
    · exact Nat.lt_of_lt_of_le hlt h

/-- Unmap a range. -/
def unmap (a len : ℕ) : Process where
  mapped x := p.mapped x && !(a ≤ x && x < a + len)
  mem := p.mem
  writes := p.writes
  requests := p.requests
  mapped_lt x hx := p.mapped_lt x (Bool.and_elim_left hx)

/-- Write a word. -/
def write (a : ℕ) (word : BitVec 32) : Process :=
  { p with
    mem := fun x ↦ if a ≤ x ∧ x < a + 4 then byteOf word (x - a) else p.mem x
    writes := a :: p.writes }

/-- Read a word. -/
def word (a : ℕ) : Option (BitVec 32) :=
  if p.Mapped a 4 then
    some (p.mem (a + 3) ++ p.mem (a + 2) ++ p.mem (a + 1) ++ p.mem a)
  else none

/-- Note a request. -/
def note (r : Request) : Process := { p with requests := r :: p.requests }

end Process

/-- `MAP_FAILED`. -/
def mapFailed : ℕ := 2 ^ 64 - 1

/-- `drmIoctl`, as far as the process notices. -/
def drmIoctl (r : Request) : Prog Process Fault Unit := modify fun p ↦ p.note r

/-- `mmap`, where the kernel finds the address `o`; it refuses an empty range. -/
def mmap (length offset : BitVec 64) (o : Option ℕ) : Prog Process Fault ℕ := do
  modify fun p ↦ p.note (.mmap length offset)
  let p ← get
  match o with
  | none => return mapFailed
  | some a =>
    if h : length ≠ 0 ∧ p.Free a (pageUp length.toNat) then
      set (p.map a (pageUp length.toNat) h.2.2.1)
      return a
    else return mapFailed

/-- `munmap`; it refuses an empty range and an address that is not that of a page. -/
def munmap (a : ℕ) (length : ℕ) : Prog Process Fault Unit := do
  if length ≠ 0 ∧ pageSize ∣ a then modify fun p ↦ p.unmap a (pageUp length)

/-- A store to `*a`. -/
def store (a : ℕ) (word : BitVec 32) : Prog Process Fault Unit := do
  let p ← get
  if p.Mapped a 4 then set (p.write a word) else throw .segv

/-! ## The program -/

/-- `struct buffer_object`. -/
structure BufferObject where
  width : BitVec 32
  height : BitVec 32
  pitch : BitVec 32
  handle : BitVec 32
  size : BitVec 32
  vaddr : ℕ
  fbId : BitVec 32

/-- A successful reply to `DRM_IOCTL_MODE_CREATE_DUMB`, for 32 bits per pixel. -/
structure Reply (width height : BitVec 32) where
  handle : BitVec 32
  pitch : BitVec 32
  size : BitVec 64
  width_le : 4 * width.toNat ≤ pitch.toNat
  pitch_dvd : 4 ∣ pitch.toNat
  size_le : pitch.toNat * height.toNat ≤ size.toNat
  size_dvd : pageSize ∣ size.toNat

/-- What the kernel answers in one call of `modeset_create_fb`. -/
structure Outcome (width height : BitVec 32) where
  create : Reply width height
  /-- `bo->fb_id` after `drmModeAddFB`. -/
  fbId : BitVec 32
  /-- `map.offset`. -/
  offset : BitVec 64
  /-- The address that `mmap` finds. -/
  mmap : Option ℕ

/-- A round of the loop. -/
def fillRound (vaddr : ℕ) (color : BitVec 32) (i : ℕ) (_ : Unit) :
    Prog Process Fault (Option Unit) := do
  store (vaddr + 4 * i) color
  return some ()

/-- `modeset_create_fb`: what is in `*bo` afterwards. -/
def modesetCreateFb (bo : BufferObject) (color : BitVec 32) (o : Outcome bo.width bo.height) :
    Prog Process Fault BufferObject := do
  drmIoctl (.createDumb bo.width bo.height 32)
  let pitch := o.create.pitch
  let size := o.create.size.setWidth 32
  let handle := o.create.handle
  drmIoctl (.addFb bo.width bo.height 24 32 pitch handle)
  drmIoctl (.mapDumb o.create.handle)
  let vaddr ← mmap o.create.size o.offset o.mmap
  let _ ← forFrom (fillRound vaddr color) (size / 4).toNat 0 ()
  return { bo with pitch, size, handle, vaddr, fbId := o.fbId }

/-- `modeset_destroy_fb`. -/
def modesetDestroyFb (bo : BufferObject) : Prog Process Fault Unit := do
  drmIoctl (.rmFb bo.fbId)
  munmap bo.vaddr bo.size.toNat
  drmIoctl (.destroyDumb bo.handle)

/-! ## What it is for -/

/-- The buffer is filled with the color, and nothing else is written. -/
structure Filled {width height : BitVec 32} (create : Reply width height) (color : BitVec 32)
    (vaddr : ℕ) (p p' : Process) : Prop where
  pixels : ∀ y < height.toNat, ∀ x < width.toNat,
    p'.word (vaddr + (y * create.pitch.toNat + 4 * x)) = some color
  writes : ∃ new, p'.writes = new ++ p.writes ∧
    ∀ a ∈ new, vaddr ≤ a ∧ a + 4 ≤ vaddr + create.size.toNat

/-- Whatever else the process has mapped by then, `modeset_destroy_fb` unmaps what was mapped
between `p` and `p'`, and only that. -/
def Unmaps (bo : BufferObject) (p p' : Process) : Prop :=
  ∀ q : Process, wp (modesetDestroyFb bo)
    (fun _ q' ↦ ∀ a, q'.mapped a = (q.mapped a && !(p'.mapped a && !p.mapped a)))
    (fun _ _ ↦ False) q

/-- Filling and unmapping cover the buffer, and nothing else. -/
def Covers (p : Process) (bo : BufferObject) (color : BitVec 32) (o : Outcome bo.width bo.height) :
    Prop :=
  wp (modesetCreateFb bo color o)
    (fun bo' p' ↦ Filled o.create color bo'.vaddr p p' ∧ Unmaps bo' p p') (fun _ _ ↦ False) p

/-- `mmap` finds a place for the buffer. -/
def Outcome.Maps {width height : BitVec 32} (o : Outcome width height) (p : Process) (a : ℕ) :
    Prop :=
  o.mmap = some a ∧ o.create.size ≠ 0 ∧ p.Free a (pageUp o.create.size.toNat)

/-! ## Words and pages -/

theorem pageUp_of_dvd {len : ℕ} (h : pageSize ∣ len) : pageUp len = len := by
  obtain ⟨n, rfl⟩ := h
  simp only [pageUp, pageSize]
  omega

/-- The bytes of a word make up the word. -/
theorem bytes_append (word : BitVec 32) :
    byteOf word 3 ++ byteOf word 2 ++ byteOf word 1 ++ byteOf word 0 = word := by
  simp only [byteOf]
  rw [BitVec.extractLsb'_append_extractLsb'_eq_extractLsb' (by decide),
    BitVec.extractLsb'_append_extractLsb'_eq_extractLsb' (by decide),
    BitVec.extractLsb'_append_extractLsb'_eq_extractLsb' (by decide)]
  exact BitVec.extractLsb'_eq_self

namespace Process

variable {p : Process} {a n : ℕ} {color : BitVec 32}

/-- The process after it has written `n` words. -/
def fill (p : Process) (a : ℕ) (color : BitVec 32) (n : ℕ) : Process :=
  { p with
    mem := fun x ↦ if a ≤ x ∧ x < a + 4 * n then byteOf color ((x - a) % 4) else p.mem x
    writes := ((List.range n).map fun i ↦ a + 4 * i).reverse ++ p.writes }

theorem fill_zero : p.fill a color 0 = p := by
  ext1
  · rfl
  · funext x
    exact if_neg (by omega)
  · rfl
  · rfl

/-- **One more word.** -/
theorem write_fill : (p.fill a color n).write (a + 4 * n) color = p.fill a color (n + 1) := by
  ext1
  · rfl
  · funext x
    simp only [write, fill]
    by_cases hnew : a + 4 * n ≤ x ∧ x < a + 4 * n + 4
    · have hmod : (x - a) % 4 = x - (a + 4 * n) := by omega
      rw [if_pos hnew, if_pos (by omega), hmod]
    · rw [if_neg hnew]
      by_cases hold : a ≤ x ∧ x < a + 4 * n
      · rw [if_pos hold, if_pos (by omega)]
      · rw [if_neg hold, if_neg (by omega)]
  · simp only [write, fill, List.range_succ, List.map_append, List.reverse_append]
    rfl
  · rfl

/-- Each of the words can be read. -/
theorem word_fill {i : ℕ} (hi : i < n) (h : p.Mapped (a + 4 * i) 4) :
    (p.fill a color n).word (a + 4 * i) = some color := by
  have hmem : ∀ j < 4, (p.fill a color n).mem (a + 4 * i + j) = byteOf color j := by
    intro j hj
    have hmod : (a + 4 * i + j - a) % 4 = j := by omega
    simp only [fill]
    rw [if_pos (by omega), hmod]
  have hfirst := hmem 0 (by decide)
  rw [Nat.add_zero] at hfirst
  have hmapped : (p.fill a color n).Mapped (a + 4 * i) 4 := h
  rw [word, if_pos hmapped, hmem 3 (by decide), hmem 2 (by decide), hmem 1 (by decide), hfirst,
    bytes_append]

end Process

section

variable {p : Process} {a n : ℕ} {color : BitVec 32} {E : Fault → Process → Prop}

/-- **The loop** fills what is mapped. -/
theorem fill_ok (h : p.Mapped a (4 * n)) :
    forFrom (fillRound a color) n 0 () p = .ok (n, ()) (p.fill a color n) := by
  refine ok_of_wp (wp_forFrom (fun i _ p' ↦ p' = p.fill a color i) (fun i _ p' _ hi hp' ↦ ?_)
    (fun _ p' hp' ↦ ?_) Process.fill_zero.symm)
  · subst hp'
    have hword : (p.fill a color i).Mapped (a + 4 * i) 4 := by
      intro j hj
      rw [Nat.add_assoc]
      exact h _ (by omega)
    rw [fillRound, wp_bind, store, wp_bind, wp_get, if_pos hword, wp_set, wp_pure]
    exact Process.write_fill
  · rw [Nat.zero_add] at hp' ⊢
    exact ⟨rfl, hp'⟩

/-- There is no memory where `mmap` has failed. -/
theorem not_mapped_mapFailed : ¬ p.Mapped mapFailed 4 := by
  intro h
  exact absurd (p.mapped_lt _ (h 0 (by decide))) (by decide)

/-- The loop crashes there. -/
theorem wp_fill_mapFailed {Q : ℕ × Unit → Process → Prop} :
    wp (forFrom (fillRound mapFailed color) (n + 1) 0 ()) Q E p ↔ E .segv p := by
  rw [forFrom, wp_bind, fillRound, wp_bind, store, wp_bind, wp_get,
    if_neg (show ¬ p.Mapped (mapFailed + 4 * 0) 4 from not_mapped_mapFailed), wp_throw]

end

/-! ## Creating and destroying -/

section

variable {p : Process} {bo : BufferObject} {color : BitVec 32} {o : Outcome bo.width bo.height}
  {a : ℕ}

/-- The process when it asks for the mapping. -/
def asked (p : Process) (bo : BufferObject) (o : Outcome bo.width bo.height) : Process :=
  (((p.note (.createDumb bo.width bo.height 32)).note
    (.addFb bo.width bo.height 24 32 o.create.pitch o.create.handle)).note
      (.mapDumb o.create.handle)).note (.mmap o.create.size o.offset)

/-- `*bo` in the end. -/
def created (bo : BufferObject) (o : Outcome bo.width bo.height) (vaddr : ℕ) : BufferObject :=
  { bo with
    pitch := o.create.pitch
    size := o.create.size.setWidth 32
    handle := o.create.handle
    vaddr := vaddr
    fbId := o.fbId }

/-- The number of words the program counts. -/
def words (size : BitVec 64) : ℕ := (size.setWidth 32 / 4).toNat

theorem toNat_size (size : BitVec 64) : (size.setWidth 32).toNat = size.toNat % 2 ^ 32 :=
  BitVec.toNat_setWidth ..

/-- The words are those of the bytes that the program counts. -/
theorem four_mul_words {size : BitVec 64} (h : pageSize ∣ size.toNat) :
    4 * words size = size.toNat % 2 ^ 32 := by
  have hdiv : words size = (size.setWidth 32).toNat / 4 := BitVec.toNat_udiv ..
  obtain ⟨n, hn⟩ := h
  rw [hdiv, toNat_size, hn]
  simp only [pageSize]
  omega

theorem dvd_size_mod {size : BitVec 64} (h : pageSize ∣ size.toNat) :
    pageSize ∣ size.toNat % 2 ^ 32 :=
  (Nat.dvd_mod_iff (by decide)).mpr h

theorem mmap_of_free {length : BitVec 64} (offset : BitVec 64) (hne : length ≠ 0)
    (hpages : pageSize ∣ length.toNat) (hfree : p.Free a (pageUp length.toNat)) :
    ∃ hend, mmap length offset (some a) p =
      .ok a ((p.note (.mmap length offset)).map a length.toNat hend) := by
  have hup := pageUp_of_dvd hpages
  refine ⟨hup ▸ hfree.2.1, ok_of_wp ?_⟩
  have hok : length ≠ 0 ∧ (p.note (.mmap length offset)).Free a (pageUp length.toNat) :=
    ⟨hne, hfree⟩
  simp only [mmap, wp_bind, wp_modify, wp_get]
  rw [dif_pos hok, wp_bind, wp_set, wp_pure]
  simp only [hup, and_self]

theorem mmap_of_not_free {length : BitVec 64} (offset : BitVec 64) {place : Option ℕ}
    (h : ¬ ∃ a, place = some a ∧ length ≠ 0 ∧ p.Free a (pageUp length.toNat)) :
    mmap length offset place p = .ok mapFailed (p.note (.mmap length offset)) := by
  refine ok_of_wp ?_
  simp only [mmap, wp_bind, wp_modify, wp_get]
  split
  · exact ⟨rfl, rfl⟩
  · rename_i a
    split
    · rename_i hfree
      exact absurd ⟨a, rfl, hfree.1, hfree.2⟩ h
    · exact ⟨rfl, rfl⟩

variable (color) in
/-- `modeset_create_fb` where the buffer is mapped. -/
theorem createFb_of_maps (h : o.Maps p a) :
    ∃ hend, modesetCreateFb bo color o p = .ok (created bo o a)
      (((asked p bo o).map a o.create.size.toNat hend).fill a color (words o.create.size)) := by
  obtain ⟨hmmap, hne, hfree⟩ := h
  obtain ⟨hend, hok⟩ := mmap_of_free o.offset hne o.create.size_dvd
    (p := ((p.note (.createDumb bo.width bo.height 32)).note
      (.addFb bo.width bo.height 24 32 o.create.pitch o.create.handle)).note
        (.mapDumb o.create.handle)) hfree
  have hmapped : ((asked p bo o).map a o.create.size.toNat hend).Mapped a
      (4 * words o.create.size) := by
    intro i hi
    rw [four_mul_words o.create.size_dvd] at hi
    have hlt : i < o.create.size.toNat := Nat.lt_of_lt_of_le hi (Nat.mod_le _ _)
    simp [Process.map, hlt]
  refine ⟨hend, ok_of_wp ?_⟩
  simp only [modesetCreateFb, drmIoctl, wp_bind, wp_modify, hmmap]
  rw [wp_of_ok hok, wp_bind]
  exact (wp_of_ok (fill_ok hmapped)).mpr ⟨rfl, rfl⟩

/-- `modeset_create_fb` where it is not. -/
theorem wp_createFb_of_not_maps (h : ¬ ∃ a, o.Maps p a) {Q : BufferObject → Process → Prop}
    {E : Fault → Process → Prop} :
    wp (modesetCreateFb bo color o) Q E p ↔
      wp (forFrom (fillRound mapFailed color) (words o.create.size) 0 ())
        (fun _ ↦ Q (created bo o mapFailed)) E (asked p bo o) := by
  have hfailed := mmap_of_not_free o.offset
    (p := ((p.note (.createDumb bo.width bo.height 32)).note
      (.addFb bo.width bo.height 24 32 o.create.pitch o.create.handle)).note
        (.mapDumb o.create.handle)) h
  simp only [modesetCreateFb, drmIoctl, wp_bind, wp_modify]
  rw [wp_of_ok hfailed, wp_bind]
  rfl

/-- What `modeset_destroy_fb` leaves mapped. -/
theorem unmaps_iff {p' : Process} (hsize : pageSize ∣ bo.size.toNat) :
    Unmaps bo p p' ↔ ∀ (q : Process) x,
      (if bo.size.toNat ≠ 0 ∧ pageSize ∣ bo.vaddr then
        q.mapped x && !(bo.vaddr ≤ x && x < bo.vaddr + bo.size.toNat)
      else q.mapped x) = (q.mapped x && !(p'.mapped x && !p.mapped x)) := by
  refine forall_congr' fun q ↦ ?_
  simp only [modesetDestroyFb, drmIoctl, munmap, wp_bind, wp_modify]
  split
  · rw [pageUp_of_dvd hsize]
    rfl
  · rfl

/-! ## What they cover -/

/-- A pixel is a word of the buffer. -/
theorem pixel_word {width height : BitVec 32} (r : Reply width height) {x y : ℕ}
    (hx : x < width.toNat) (hy : y < height.toNat) :
    ∃ i, y * r.pitch.toNat + 4 * x = 4 * i ∧ 4 * i + 4 ≤ r.size.toNat := by
  obtain ⟨n, hn⟩ := r.pitch_dvd
  have hrow : (y + 1) * r.pitch.toNat ≤ r.size.toNat := by
    refine Nat.le_trans ?_ r.size_le
    rw [Nat.mul_comm]
    exact Nat.mul_le_mul_left _ hy
  have hwidth := r.width_le
  refine ⟨y * n + x, ?_, ?_⟩
  · rw [hn, Nat.mul_left_comm, Nat.mul_add]
  · rw [Nat.succ_mul] at hrow
    rw [Nat.mul_add, ← Nat.mul_left_comm, ← hn]
    omega

/-- A buffer of less than `2 ^ 32` bytes is filled. -/
theorem filled_of_lt (hlt : o.create.size.toNat < 2 ^ 32)
    (hend : a + o.create.size.toNat ≤ userEnd) :
    Filled o.create color a p
      (((asked p bo o).map a o.create.size.toNat hend).fill a color (words o.create.size)) := by
  have hwords := four_mul_words o.create.size_dvd
  rw [Nat.mod_eq_of_lt hlt] at hwords
  refine ⟨fun y hy x hx ↦ ?_, _, rfl, fun b hb ↦ ?_⟩
  · obtain ⟨i, hi, hle⟩ := pixel_word o.create hx hy
    rw [hi]
    refine Process.word_fill (by omega) fun j hj ↦ ?_
    have hin : 4 * i + j < o.create.size.toNat := by omega
    simp [Process.map, Nat.add_assoc, hin]
  · rw [List.mem_reverse] at hb
    obtain ⟨i, hi, rfl⟩ := List.mem_map.mp hb
    have hi' := List.mem_range.mp hi
    exact ⟨Nat.le_add_right _ _, by omega⟩

/-- What the mapping has added is the buffer. -/
theorem mapped_and_not {hend : a + o.create.size.toNat ≤ userEnd} (h : o.Maps p a) (x n : ℕ) :
    ((((asked p bo o).map a o.create.size.toNat hend).fill a color n).mapped x && !p.mapped x) =
      (a ≤ x && x < a + o.create.size.toNat) := by
  have hmapped : (((asked p bo o).map a o.create.size.toNat hend).fill a color n).mapped x =
      (p.mapped x || (a ≤ x && x < a + o.create.size.toNat)) := rfl
  rw [hmapped]
  by_cases hin : a ≤ x ∧ x < a + o.create.size.toNat
  · have hfree := h.2.2.2.2 (x - a) (by rw [pageUp_of_dvd o.create.size_dvd]; omega)
    rw [Nat.add_sub_cancel' hin.1] at hfree
    simp [hfree]
  · have hout : (decide (a ≤ x) && decide (x < a + o.create.size.toNat)) = false := by
      simpa using hin
    rw [hout]
    simp

/-- Where the buffer is mapped. -/
theorem covers_of_maps_iff (h : o.Maps p a) :
    Covers p bo color o ↔ o.create.size.toNat < 2 ^ 32 := by
  obtain ⟨hend, hok⟩ := createFb_of_maps color h
  have hsize : (created bo o a).size.toNat = o.create.size.toNat % 2 ^ 32 := toNat_size _
  have hdvd := dvd_size_mod o.create.size_dvd
  rw [Covers, wp_of_ok hok, unmaps_iff (hsize ▸ hdvd), hsize]
  simp only [mapped_and_not h]
  constructor
  · rintro ⟨-, hunmaps⟩
    by_contra hge
    -- The byte behind those that are counted is mapped, and stays so.
    have hin : o.create.size.toNat % 2 ^ 32 < o.create.size.toNat :=
      Nat.lt_of_lt_of_le (Nat.mod_lt _ (by decide)) (Nat.not_lt.mp hge)
    generalize o.create.size.toNat % 2 ^ 32 = counted at hunmaps hin
    have hbyte := hunmaps ((asked p bo o).map a o.create.size.toNat hend)
      (a + counted)
    simp [Process.map, created, hin] at hbyte
  · intro hlt
    refine ⟨filled_of_lt hlt hend, fun q x ↦ ?_⟩
    have hne : o.create.size.toNat ≠ 0 := fun hzero ↦ h.2.1 (BitVec.eq_of_toNat_eq hzero)
    have hpage : pageSize ∣ a := h.2.2.1
    rw [Nat.mod_eq_of_lt hlt, if_pos ⟨hne, hpage⟩]
    rfl

/-- At `MAP_FAILED` no pixel can be read. -/
theorem filled_mapFailed_iff :
    Filled o.create color mapFailed p (asked p bo o) ↔ bo.width = 0 ∨ bo.height = 0 := by
  constructor
  · intro hfilled
    by_contra hvisible
    obtain ⟨hw, hh⟩ := not_or.mp hvisible
    have hwidth : 0 < bo.width.toNat :=
      Nat.pos_of_ne_zero fun hz ↦ hw (BitVec.eq_of_toNat_eq hz)
    have hheight : 0 < bo.height.toNat :=
      Nat.pos_of_ne_zero fun hz ↦ hh (BitVec.eq_of_toNat_eq hz)
    have hpixel := hfilled.pixels 0 hheight 0 hwidth
    rw [Nat.zero_mul] at hpixel
    change (asked p bo o).word mapFailed = some color at hpixel
    rw [Process.word, if_neg not_mapped_mapFailed] at hpixel
    cases hpixel
  · intro hempty
    refine ⟨fun y hy x hx ↦ ?_, [], rfl, fun b hb ↦ absurd hb List.not_mem_nil⟩
    rcases hempty with hzero | hzero
    · rw [hzero] at hx
      exact absurd hx (Nat.not_lt_zero x)
    · rw [hzero] at hy
      exact absurd hy (Nat.not_lt_zero y)

/-- With size 0, `modeset_destroy_fb` unmaps nothing, which is what was mapped. -/
theorem unmaps_mapFailed (hsize : (created bo o mapFailed).size.toNat = 0) :
    Unmaps (created bo o mapFailed) p (asked p bo o) := by
  rw [unmaps_iff (hsize ▸ Nat.dvd_zero _)]
  intro q x
  rw [if_neg fun hne ↦ hne.1 hsize]
  have hsame : (asked p bo o).mapped x = p.mapped x := rfl
  rw [hsame, Bool.and_not_self, Bool.not_false, Bool.and_true]

/-- Where it is not. -/
theorem covers_of_not_maps_iff (h : ¬ ∃ a, o.Maps p a) :
    Covers p bo color o ↔
      2 ^ 32 ∣ o.create.size.toNat ∧ (bo.width = 0 ∨ bo.height = 0) := by
  have hwords := four_mul_words o.create.size_dvd
  have hdvd : 2 ^ 32 ∣ o.create.size.toNat ↔ words o.create.size = 0 := by
    rw [Nat.dvd_iff_mod_eq_zero, ← hwords]
    omega
  rw [Covers, wp_createFb_of_not_maps h, hdvd]
  cases hn : words o.create.size with
  | succ n =>
    rw [wp_fill_mapFailed]
    exact ⟨False.elim, fun hzero ↦ absurd hzero.1 (Nat.succ_ne_zero n)⟩
  | zero =>
    have hsize : (created bo o mapFailed).size.toNat = 0 := by
      have hmod : (created bo o mapFailed).size.toNat = o.create.size.toNat % 2 ^ 32 :=
        toNat_size _
      rw [hmod, ← hwords, hn]
    rw [forFrom, wp_pure]
    exact ⟨fun hcovers ↦ ⟨rfl, filled_mapFailed_iff.mp hcovers.1⟩,
      fun hempty ↦ ⟨filled_mapFailed_iff.mpr hempty.2, unmaps_mapFailed hsize⟩⟩

end

/-- **Filling and unmapping** cover exactly the buffer, if and only if the buffer is below
`2 ^ 32` bytes; where it could not be mapped, if and only if there is nothing to fill. -/
theorem covers_iff (p : Process) (bo : BufferObject) (color : BitVec 32)
    (o : Outcome bo.width bo.height) :
    Covers p bo color o ↔
      ((∃ a, o.Maps p a) → o.create.size.toNat < 2 ^ 32) ∧
        ((¬ ∃ a, o.Maps p a) →
          2 ^ 32 ∣ o.create.size.toNat ∧ (bo.width = 0 ∨ bo.height = 0)) := by
  by_cases hmaps : ∃ a, o.Maps p a
  · obtain ⟨a, ha⟩ := hmaps
    rw [covers_of_maps_iff ha]
    exact ⟨fun hlt ↦ ⟨fun _ ↦ hlt, fun hno ↦ absurd ⟨a, ha⟩ hno⟩, fun h ↦ h.1 ⟨a, ha⟩⟩
  · rw [covers_of_not_maps_iff hmaps]
    exact ⟨fun h ↦ ⟨fun hyes ↦ absurd hyes hmaps, fun _ ↦ h⟩, fun h ↦ h.2 hmaps⟩

/-- A process that has mapped nothing. -/
def emptyProcess : Process := ⟨fun _ ↦ false, fun _ ↦ 0, [], [], nofun⟩

/-- A buffer of 32767 by 32768 pixels, whose bytes can still be counted by 32 bits. -/
def largeBuffer : BufferObject := ⟨32767, 32768, 0, 0, 0, 0, 0⟩

/-- The driver pads its lines by a pixel: it has `2 ^ 32` bytes, and is mapped at `2 ^ 40`. -/
def largeOutcome : Outcome largeBuffer.width largeBuffer.height where
  create := ⟨1, 131072, 4294967296, by decide, by decide, by decide, by decide⟩
  fbId := 2
  offset := 0
  mmap := some (2 ^ 40)

/-- The program counts no byte of the buffer: it fills nothing, and unmaps nothing. -/
theorem largeBuffer_not_covers :
    (created largeBuffer largeOutcome (2 ^ 40)).size = 0 ∧ words largeOutcome.create.size = 0 ∧
      ¬ Covers emptyProcess largeBuffer 0xff0000 largeOutcome := by
  have hsize : largeOutcome.create.size.toNat = 2 ^ 32 := by decide
  have hmaps : largeOutcome.Maps emptyProcess (2 ^ 40) := by
    refine ⟨rfl, by decide, ?_⟩
    rw [pageUp_of_dvd largeOutcome.create.size_dvd, hsize]
    refine ⟨by decide, by decide, ?_⟩
    intro j _
    rfl
  have hiff : Covers emptyProcess largeBuffer 0xff0000 largeOutcome ↔
      largeOutcome.create.size.toNat < 2 ^ 32 := covers_of_maps_iff hmaps
  rw [hiff, hsize]
  exact ⟨by decide, by decide, Nat.lt_irrefl _⟩

end Drm.FrameBuffer
