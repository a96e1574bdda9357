import SampleDrivers.Gem.OwnMemory
import SampleDrivers.Lib.SharedStore

/-!
# Dumb buffers as shared memory

What `drm_gem_cma_dumb_create` allocates and `drm_gem_cma_mmap` maps is memory that clients share:
all areas that map an object show its bytes from the first one on, and what one client writes the
others read.

* `Host`, `machine` — the device, the page tables of the clients, and physical memory.
* `Careful` — memory the DMA API hands out is not in use, and areas map objects that have memory.
* `reads_eq_objects` — under that guard the clients read what they would read in a store of the
  bytes of the objects.
* `reads_strcpy` — so what the test program copies into a dumb buffer is what it finds there when it
  has mapped the buffer again.
-/

set_option autoImplicit false

namespace Gem.SharedObjects

open Kernel OwnMemory

/-! ## The clients -/

/-- The device, the page tables of the clients, and physical memory. -/
structure Host where
  world : World
  tables : Client → PageTable
  ram : ℕ → UInt8

/-- What a client does. -/
inductive Op
  /-- `DRM_IOCTL_MODE_CREATE_DUMB`; the memory contains something. -/
  | dumbCreate (c : Client) (args : DumbArgs) (o : CreateOutcome) (content : ℕ → UInt8)
  | destroyHandle (c : Client) (h : Handle)
  /-- `mmap` of the device, into a free range of addresses. -/
  | mmap (c : Client) (m : MapId) (vma : Vma) (d : Offsets) (mem : Bool)
  | munmap (c : Client) (m : MapId) (vma : Vma)
  | write (c : Client) (addr : ℕ) (val : UInt8)
  | read (c : Client) (addr : ℕ)

/-- The address is in the area. -/
def Inside (vma : Vma) (addr : ℕ) : Prop := vma.vmStart ≤ addr ∧ addr < vma.vmEnd

instance (vma : Vma) : DecidablePred (Inside vma) := fun _ ↦ inferInstanceAs (Decidable (_ ∧ _))

/-- The entries of an area go. -/
def unmapArea (pt : PageTable) (vma : Vma) : PageTable :=
  { pt with pte := fun addr ↦ if Inside vma addr then none else pt.pte addr }

/-- Memory contains something new from an address on. -/
def fill (ram : ℕ → UInt8) (a n : ℕ) (content : ℕ → UInt8) (p : ℕ) : UInt8 :=
  if a ≤ p ∧ p < a + n then content (p - a) else ram p

namespace Host

/-- The driver is loaded. -/
def begin : Host := ⟨mygemInit, fun _ ↦ ⟨fun _ ↦ none, []⟩, fun _ ↦ 0⟩

/-- The byte at an address of a client. -/
def byte (s : Host) (c : Client) (addr : ℕ) : Option UInt8 :=
  (OwnMemory.translate (s.tables c) addr).map s.ram

/-- What an operation does. -/
def next (s : Host) : Op → Host
  | .dumbCreate c args o content =>
    { s with
      world := (drmGemCmaDumbCreate s.world c args o).2
      ram := o.dma.elim s.ram fun a ↦ fill s.ram a args.size content }
  | .destroyHandle c h => { s with world := drmGemHandleDelete mygemDriver s.world c h }
  | .mmap c m vma d mem =>
    let r := cmaMmap d s.world m vma mem (s.tables c)
    { s with world := r.world, tables := Function.update s.tables c r.pt }
  | .munmap c m vma =>
    { s with
      world := Gem.munmap mygemDriver s.world m
      tables := Function.update s.tables c (unmapArea (s.tables c) vma) }
  | .write c addr val =>
    match OwnMemory.translate (s.tables c) addr with
    | some p => { s with ram := Function.update s.ram p val }
    | none => s
  | .read _ _ => s

/-- What an operation reads. -/
def observe (s : Host) : Op → List (Option UInt8)
  | .read c addr => [s.byte c addr]
  | _ => []

end Host

/-- The clients, in any order. -/
def machine : Machine Host Op := ⟨fun s op ↦ some (s.next op)⟩

/-! ## The objects -/

/-- A byte of an object. -/
abbrev Cell := ObjId × ℕ

/-- An address of a client. -/
abbrev View := Client × ℕ

/-- An area shows an object from its first byte on. -/
def areaViews (c : Client) (vma : Vma) (id : ObjId) (v : View) : Option Cell :=
  if v.1 = c ∧ Inside vma v.2 then some (id, v.2 - vma.vmStart) else none

/-- What a new object contains. -/
def newCells (id : ObjId) (n : ℕ) (content : ℕ → UInt8) (c : Cell) : Option UInt8 :=
  if c.1 = id ∧ c.2 < n then some (content c.2) else none

/-- What an operation means for the store of the bytes of the objects. -/
def meaning : Op → List (Store.Op Cell View UInt8)
  | .dumbCreate _ args o content =>
    match o.kzalloc, o.dma with
    | some id, some _ =>
      if args.size % pageSize = 0 then [.create (newCells id args.size content)] else []
    | _, _ => []
  | .destroyHandle _ _ => []
  | .mmap c _ vma d mem =>
    match d.start vma.vmPgoff with
    | some id => if mem then [.map (areaViews c vma id)] else []
    | none => []
  | .munmap c _ vma => [.unmap fun v ↦ v.1 = c ∧ Inside vma v.2]
  | .write c addr val => [.write (c, addr) val]
  | .read c addr => [.read (c, addr)]

/-- The memory of an object, if it has any. -/
def memoryOf (w : World) (id : ObjId) : Option (ℕ × ℕ) :=
  (w.objects id).bind fun obj ↦ if obj.vaddr = .null then none else some (obj.paddr, obj.size)

/-- What the kernel hands out is free, and areas are shared and map an object that has memory. -/
def Careful (s : Host) : Op → Prop
  | .dumbCreate _ args o _ =>
    (∀ id, o.kzalloc = some id → s.world.objects id = none) ∧
      ∀ a, o.dma = some a → pageSize ∣ a ∧ a + args.size ≤ 2 ^ 64 ∧
        ∀ id a' n, memoryOf s.world id = some (a', n) → a + args.size ≤ a' ∨ a' + n ≤ a
  | .mmap c _ vma d _ =>
    vma.cow = false ∧ (∀ addr, Inside vma addr → (s.tables c).pte addr = none) ∧
      ∃ id obj, Admits d s.world vma id obj ∧ obj.vaddr ≠ .null
  | _ => True

/-- Where a byte of an object is. -/
def place (w : World) (c : Cell) : Option ℕ :=
  (memoryOf w c.1).bind fun mem ↦ if c.2 < mem.2 then some (mem.1 + c.2) else none

/-- Where an address of a client leads. -/
def loc (s : Host) (v : View) : Option ℕ := OwnMemory.translate (s.tables v.1) v.2

/-! ## What the calls do to the memory of the objects -/

section

variable {w : World} {id : ObjId} {a n : ℕ} {c : Cell}

theorem memoryOf_eq_some_iff : memoryOf w id = some (a, n) ↔
    ∃ obj, w.objects id = some obj ∧ obj.vaddr ≠ .null ∧ obj.paddr = a ∧ obj.size = n := by
  rw [memoryOf, Option.bind_eq_some_iff]
  refine exists_congr fun obj ↦ and_congr_right fun _ ↦ ?_
  rw [Option.ite_none_left_eq_some, Option.some_inj, Prod.mk.injEq]

theorem place_eq_some_iff {p : ℕ} : place w c = some p ↔
    ∃ a n, memoryOf w c.1 = some (a, n) ∧ c.2 < n ∧ a + c.2 = p := by
  rw [place, Option.bind_eq_some_iff]
  constructor
  · rintro ⟨⟨a, n⟩, hmem, hp⟩
    obtain ⟨hlt, hp⟩ := Option.ite_none_right_eq_some.mp hp
    exact ⟨a, n, hmem, hlt, Option.some_inj.mp hp⟩
  · rintro ⟨a, n, hmem, hlt, rfl⟩
    exact ⟨(a, n), hmem, if_pos hlt⟩

theorem place_congr {w' : World} (h : memoryOf w' = memoryOf w) : place w' = place w := by
  funext c
  rw [place, place, h]

/-- Counting references does not move memory. -/
theorem memoryOf_modify {f : CmaObject → CmaObject}
    (hf : ∀ obj, (f obj).vaddr = obj.vaddr ∧ (f obj).paddr = obj.paddr ∧ (f obj).size = obj.size) :
    memoryOf (w.modify id f) = memoryOf w := by
  funext id'
  rw [memoryOf, memoryOf, World.modify_objects, Function.update_apply]
  split
  · rename_i hid
    subst hid
    rcases w.objects id' with _ | obj
    · rfl
    · obtain ⟨hvaddr, hpaddr, hsize⟩ := hf obj
      rw [Option.map_some, Option.bind_some, Option.bind_some, hvaddr, hpaddr, hsize]
  · rfl

theorem memoryOf_handleDelete (c : Client) (h : Handle) :
    memoryOf (drmGemHandleDelete mygemDriver w c h) = memoryOf w := by
  rw [drmGemHandleDelete]
  split
  · rfl
  · rename_i entry _
    refine (memoryOf_modify fun obj ↦ ?_).trans rfl
    split <;> exact ⟨rfl, rfl, rfl⟩

theorem memoryOf_cmaMmap (d : Offsets) (m : MapId) (vma : Vma) (mem : Bool) (pt : PageTable) :
    memoryOf (cmaMmap d w m vma mem pt).world = memoryOf w := by
  rw [cmaMmap]
  split
  · rfl
  · simp only
    split
    · exact (memoryOf_modify fun obj ↦ ⟨rfl, rfl, rfl⟩)
    · exact (memoryOf_modify fun obj ↦ ⟨rfl, rfl, rfl⟩)

theorem memoryOf_munmap (m : MapId) : memoryOf (Gem.munmap mygemDriver w m) = memoryOf w := by
  rw [Gem.munmap]
  split
  · rfl
  · rfl

/-- A call that has the memory gives it to the new object, any other leaves all as it was. -/
theorem memoryOf_dumbCreate {c : Client} {args : DumbArgs} {o : CreateOutcome}
    (hnew : ∀ id, o.kzalloc = some id → w.objects id = none) :
    memoryOf (drmGemCmaDumbCreate w c args o).2 =
      match o.kzalloc, o.dma with
      | some id, some a =>
        if args.size % pageSize = 0 then Function.update (memoryOf w) id (some (a, args.size))
        else memoryOf w
      | _, _ => memoryOf w := by
  by_cases hsize : args.size % pageSize = 0
  · rcases hk : o.kzalloc with _ | id
    · rw [drmGemCmaDumbCreate, if_neg (not_not.mpr hsize), hk]
    · have hnone := hnew id hk
      obtain ⟨n, hn⟩ := dumbCreate_objects (c := c) hk hnone (Nat.dvd_of_mod_eq_zero hsize)
      have hold : memoryOf w id = none := by rw [memoryOf, hnone]; rfl
      have hothers : ∀ id', id' ≠ id →
          memoryOf (drmGemCmaDumbCreate w c args o).2 id' = memoryOf w id' := by
        intro id' hne
        rw [memoryOf, hn, Function.update_of_ne hne]
        rfl
      funext id'
      rcases eq_or_ne id' id with rfl | hid
      · rw [memoryOf, hn, Function.update_self]
        rcases o.dma with _ | a
        · exact hold.symm
        · simp only [hsize, if_true, Function.update_self]
          rfl
      · rw [hothers id' hid]
        rcases o.dma with _ | a
        · rfl
        · simp only [hsize, if_true, Function.update_of_ne hid]
  · rw [drmGemCmaDumbCreate, if_pos hsize]
    split
    · rw [if_neg hsize]
    · rfl

end

/-- An area is whole pages. -/
theorem inside_base {vma : Vma} {addr : ℕ} :
    Inside vma (addr - addr % pageSize) ↔ Inside vma addr := by
  obtain ⟨m, hm⟩ := vma.start_aligned
  obtain ⟨n, hn⟩ := vma.end_aligned
  simp only [Inside, hm, hn, pageSize]
  omega

theorem translate_unmapArea (pt : PageTable) (vma : Vma) (addr : ℕ) :
    OwnMemory.translate (unmapArea pt vma) addr =
      if Inside vma addr then none else OwnMemory.translate pt addr := by
  simp only [OwnMemory.translate, unmapArea, inside_base]
  split
  · rfl
  · rfl

/-! ## One step -/

/-- The clients see the store. -/
structure Shows (s : Host) (t : Store Cell View UInt8) : Prop where
  allPlaced : AllPlaced s.world
  /-- No two objects have memory in common. -/
  apart : ∀ id id' a n a' n', memoryOf s.world id = some (a, n) →
    memoryOf s.world id' = some (a', n') → id ≠ id' → a + n ≤ a' ∨ a' + n' ≤ a
  placed : Store.Placed (place s.world) s.ram (loc s) t

theorem place_inj {w : World} {c c' : Cell} {p : ℕ}
    (hapart : ∀ id id' a n a' n', memoryOf w id = some (a, n) → memoryOf w id' = some (a', n') →
      id ≠ id' → a + n ≤ a' ∨ a' + n' ≤ a)
    (hc : place w c = some p) (hc' : place w c' = some p) : c = c' := by
  obtain ⟨a, n, hmem, hlt, hp⟩ := place_eq_some_iff.mp hc
  obtain ⟨a', n', hmem', hlt', hp'⟩ := place_eq_some_iff.mp hc'
  by_cases hid : c.1 = c'.1
  · rw [hid] at hmem
    obtain ⟨rfl, rfl⟩ := Prod.mk.inj (Option.some_inj.mp (hmem.symm.trans hmem'))
    exact Prod.ext hid (Nat.add_left_cancel (hp.trans hp'.symm))
  · have := hapart _ _ _ _ _ _ hmem hmem' hid
    omega

namespace Shows

variable {s : Host} {t : Store Cell View UInt8}

theorem begin : Shows .begin .empty where
  allPlaced id obj h := by cases h
  apart id id' a n a' n' h := by cases h
  placed := by
    refine ⟨fun c c' p h ↦ ?_, fun c ↦ rfl, fun v ↦ rfl, fun v c h ↦ ?_⟩
    · cases h
    · cases h

/-- Only the counts of objects change, and the page tables. -/
theorem setWorld (h : Shows s t) {w : World} {tables : Client → PageTable}
    (hplaced : AllPlaced w) (hmem : memoryOf w = memoryOf s.world)
    {t' : Store Cell View UInt8}
    (ht' : Store.Placed (place s.world) s.ram (loc { s with tables := tables }) t') :
    Shows { s with world := w, tables := tables } t' where
  allPlaced := hplaced
  apart := by
    rw [hmem]
    exact h.apart
  placed := by
    rw [place_congr hmem]
    exact ht'

/-- An object gets memory that no other has. -/
theorem create (h : Shows s t) {s' : Host} {id : ObjId} {a n : ℕ} {content : ℕ → UInt8}
    (hmemory : memoryOf s'.world = Function.update (memoryOf s.world) id (some (a, n)))
    (hplaced : AllPlaced s'.world) (htables : s'.tables = s.tables)
    (hkept : ∀ c p, place s.world c = some p → s'.ram p = s.ram p)
    (hnone : memoryOf s.world id = none)
    (hfree : ∀ id' a' n', memoryOf s.world id' = some (a', n') → a + n ≤ a' ∨ a' + n' ≤ a)
    (hcontent : ∀ off < n, s'.ram (a + off) = content off) :
    ∃ t', Store.machine.Run Store.Allowed t [.create (newCells id n content)] t' ∧ Shows s' t' := by
  have hother : ∀ c : Cell, c.1 ≠ id → place s'.world c = place s.world c := by
    intro c hc
    rw [place, place, hmemory, Function.update_of_ne hc]
  have hown : ∀ off, place s'.world (id, off) = if off < n then some (a + off) else none := by
    intro off
    rw [place, hmemory, Function.update_self]
    rfl
  have hnothing : ∀ off, place s.world (id, off) = none := by
    intro off
    rw [place, hnone]
    rfl
  have hapart : ∀ id₁ id₂ a₁ n₁ a₂ n₂, memoryOf s'.world id₁ = some (a₁, n₁) →
      memoryOf s'.world id₂ = some (a₂, n₂) → id₁ ≠ id₂ → a₁ + n₁ ≤ a₂ ∨ a₂ + n₂ ≤ a₁ := by
    intro id₁ id₂ a₁ n₁ a₂ n₂ h₁ h₂ hne
    rw [hmemory, Function.update_apply] at h₁ h₂
    split at h₁ <;> split at h₂
    · rename_i hid₁ hid₂
      exact absurd (hid₁.trans hid₂.symm) hne
    · obtain ⟨rfl, rfl⟩ := Prod.mk.inj (Option.some_inj.mp h₁)
      exact hfree id₂ a₂ n₂ h₂
    · obtain ⟨rfl, rfl⟩ := Prod.mk.inj (Option.some_inj.mp h₂)
      exact (hfree id₁ a₁ n₁ h₁).symm
    · exact h.apart id₁ id₂ a₁ n₁ a₂ n₂ h₁ h₂ hne
  have hloc : loc s' = loc s := by
    funext v
    rw [loc, loc, htables]
  have hnew : ∀ c, (newCells id n content c).isSome →
      place s.world c = none ∧ (place s'.world c).map s'.ram = newCells id n content c := by
    rintro ⟨id', off⟩ hc
    rw [newCells] at hc ⊢
    split at hc
    · rename_i hmine
      obtain ⟨rfl, hlt⟩ := hmine
      rw [if_pos ⟨rfl, hlt⟩, hown, if_pos hlt, Option.map_some, hcontent off hlt]
      exact ⟨hnothing off, rfl⟩
    · cases hc
  have hold : ∀ c, newCells id n content c = none → place s'.world c = place s.world c := by
    rintro ⟨id', off⟩ hc
    rcases eq_or_ne id' id with rfl | hne
    · rw [hown, hnothing]
      rw [newCells] at hc
      split at hc
      · cases hc
      · rename_i hout
        exact if_neg fun hlt ↦ hout ⟨rfl, hlt⟩
    · exact hother (id', off) hne
  have hcreate : t.Allowed (.create (newCells id n content)) ∧
      Store.Placed (place s'.world) s'.ram (loc s) (t.next (.create (newCells id n content))) :=
    h.placed.create hnew hold hkept fun c c' p hc hc' ↦ place_inj hapart hc hc'
  exact ⟨_, .single hcreate.1 rfl, hplaced, hapart, hloc ▸ hcreate.2⟩

/-- The bytes of a new object are there. -/
theorem dumbCreate (h : Shows s t) {c : Client} {args : DumbArgs} {o : CreateOutcome}
    {content : ℕ → UInt8} (hok : Careful s (.dumbCreate c args o content)) :
    ∃ t', Store.machine.Run Store.Allowed t (meaning (.dumbCreate c args o content)) t' ∧
      Shows (s.next (.dumbCreate c args o content)) t' := by
  obtain ⟨hnew, hfree⟩ := hok
  have hplaced : AllPlaced (drmGemCmaDumbCreate s.world c args o).2 :=
    h.allPlaced.dumbCreate fun a ha ↦ ⟨(hfree a ha).1, (hfree a ha).2.1⟩
  have hmemory := @memoryOf_dumbCreate s.world c args o hnew
  -- memory that was handed out is none of a living object's
  have hkept : ∀ c' p, place s.world c' = some p →
      (s.next (.dumbCreate c args o content)).ram p = s.ram p := by
    intro c' p hp
    obtain ⟨a', n, hmem, hlt, rfl⟩ := place_eq_some_iff.mp hp
    rcases hdma : o.dma with _ | a
    · simp only [Host.next, hdma]
      rfl
    · have hfar := (hfree a hdma).2.2 c'.1 a' n hmem
      simp only [Host.next, hdma, Option.elim_some, fill]
      rw [if_neg (by omega)]
  have hsame : memoryOf (s.next (.dumbCreate c args o content)).world = memoryOf s.world →
      Shows (s.next (.dumbCreate c args o content)) t := by
    intro hmem
    refine ⟨hplaced, ?_, ?_⟩
    · rw [hmem]
      exact h.apart
    · rw [place_congr hmem]
      exact h.placed.congr hkept
  rw [meaning]
  split
  · rename_i id a hk hdma
    split
    · rename_i hsize
      simp only [hk, hdma, if_pos hsize] at hmemory
      refine h.create hmemory hplaced rfl hkept (by rw [memoryOf, hnew id hk]; rfl)
        (hfree a hdma).2.2 fun off hoff ↦ ?_
      simp only [Host.next, hdma, Option.elim_some, fill]
      rw [if_pos ⟨Nat.le_add_right .., Nat.add_lt_add_left hoff a⟩, Nat.add_sub_cancel_left]
    · rename_i hsize
      simp only [hk, hdma, if_neg hsize] at hmemory
      exact ⟨t, .nil t, hsame hmemory⟩
  · rename_i hnot
    refine ⟨t, .nil t, hsame (hmemory.trans ?_)⟩
    split
    · rename_i id a hk hdma
      exact absurd hdma (hnot id a hk)
    · rfl

/-- An area shows the object from its first byte on. -/
theorem mmap (h : Shows s t) {c : Client} {m : MapId} {vma : Vma} {d : Offsets} {mem : Bool}
    (hok : Careful s (.mmap c m vma d mem)) :
    ∃ t', Store.machine.Run Store.Allowed t (meaning (.mmap c m vma d mem)) t' ∧
      Shows (s.next (.mmap c m vma d mem)) t' := by
  obtain ⟨-, -, id, obj, hadmits, hvaddr⟩ := hok
  have htarget := drmGemMmap_some_iff.mpr hadmits
  obtain ⟨-, hpt⟩ := cmaMmap_of_some m mem (s.tables c) htarget
  have hplaced : AllPlaced (cmaMmap d s.world m vma mem (s.tables c)).world := by
    rw [cmaMmap_world]
    exact AllPlaced.step (a := .mmap m _) h.allPlaced trivial rfl
  have hmemory := memoryOf_cmaMmap (w := s.world) d m vma mem (s.tables c)
  simp only [meaning, hadmits.start, Host.next]
  rcases mem with _ | _
  · refine ⟨t, .nil t, h.setWorld hplaced hmemory ?_⟩
    rw [hpt, if_neg Bool.false_ne_true, Function.update_eq_self]
    exact h.placed
  · rw [hpt, if_pos rfl, if_pos rfl]
    have hobject := h.allPlaced id obj hadmits.live
    have hshown := (shows_iff (s.tables c) hobject hadmits.length).mpr hvaddr
    have hplace : ∀ j < vma.vmEnd - vma.vmStart, place s.world (id, j) = some (obj.paddr + j) :=
      fun j hj ↦ place_eq_some_iff.mpr ⟨obj.paddr, obj.size,
        memoryOf_eq_some_iff.mpr ⟨obj, hadmits.live, hvaddr, rfl, rfl⟩,
        Nat.lt_of_lt_of_le hj hadmits.length, rfl⟩
    have houtside : ∀ addr, ¬ Inside vma addr → OwnMemory.translate
        ((s.tables c).installRange vma.vmStart (obj.paddr / pageSize) vma.pages) addr =
          OwnMemory.translate (s.tables c) addr :=
      fun addr hout ↦ translate_installRange_outside hout
    generalize (s.tables c).installRange vma.vmStart (obj.paddr / pageSize) vma.pages = pt
      at hshown houtside ⊢
    have hmap : t.Allowed (.map (areaViews c vma id)) ∧
        Store.Placed (place s.world) s.ram (loc { s with tables := Function.update s.tables c pt })
          (t.next (.map (areaViews c vma id))) := by
      refine h.placed.map (fun v c' hv ↦ ?_) fun v ↦ ?_
      · obtain ⟨⟨-, hin⟩, hc'⟩ := Option.ite_none_right_eq_some.mp hv
        rw [← Option.some_inj.mp hc', hplace _ (Nat.sub_lt_sub_right hin.1 hin.2)]
        rfl
      · obtain ⟨c', addr⟩ := v
        rcases eq_or_ne c' c with rfl | hc
        · simp only [areaViews, loc, Function.update_self, true_and]
          by_cases hin : Inside vma addr
          · rw [if_pos hin, Option.map_some, Option.getD_some,
              hplace _ (Nat.sub_lt_sub_right hin.1 hin.2)]
            have hbyte := (hshown.inside _ (Nat.sub_lt_sub_right hin.1 hin.2)).1
            rwa [Nat.add_sub_cancel' hin.1] at hbyte
          · rw [if_neg hin]
            exact houtside addr hin
        · simp only [areaViews, loc, Function.update_of_ne hc, hc, false_and, if_false]
          rfl
    exact ⟨_, .single hmap.1 rfl, h.setWorld hplaced hmemory hmap.2⟩

/-- An area goes, and shows nothing any more. -/
theorem munmap (h : Shows s t) (c : Client) (m : MapId) (vma : Vma) :
    Shows (s.next (.munmap c m vma)) (t.next (.unmap fun v ↦ v.1 = c ∧ Inside vma v.2)) := by
  refine h.setWorld (AllPlaced.step (a := .munmap m) h.allPlaced trivial rfl)
    (memoryOf_munmap m) (h.placed.unmap fun v ↦ ?_)
  obtain ⟨c', addr⟩ := v
  rcases eq_or_ne c' c with rfl | hc
  · simp only [loc, Function.update_self, translate_unmapArea, true_and, decide_eq_true_eq]
  · simp only [loc, Function.update_of_ne hc, hc, false_and, decide_false, Bool.false_eq_true,
      if_false]

/-- A client writes where its page table leads. -/
theorem write (h : Shows s t) (c : Client) (addr : ℕ) (val : UInt8) :
    Shows (s.next (.write c addr val)) (t.next (.write (c, addr) val)) := by
  simp only [Host.next]
  split
  · rename_i p hp
    exact ⟨h.allPlaced, h.apart, h.placed.write (v := (c, addr)) hp val⟩
  · rename_i hnone
    rw [Store.next, Store.store_of_no_view (h.placed.view_of_loc_none (v := (c, addr)) hnone)]
    exact h

end Shows

/-! ## Runs -/

/-- Only reads are observed. -/
theorem observe_meaning {op : Op} (hread : ∀ c addr, op ≠ .read c addr)
    {op' : Store.Op Cell View UInt8} (h : op' ∈ meaning op) (t : Store Cell View UInt8) :
    t.observe op' = [] := by
  unfold meaning at h
  split at h
  · split at h
    · split at h
      · rw [List.mem_singleton.mp h]
        rfl
      · cases h
    · cases h
  · cases h
  · split at h
    · split at h
      · rw [List.mem_singleton.mp h]
        rfl
      · cases h
    · cases h
  · rw [List.mem_singleton.mp h]
    rfl
  · rw [List.mem_singleton.mp h]
    rfl
  · exact absurd rfl (hread _ _)

/-- **The device implements the store.** -/
theorem implements_store : machine.Implements Careful Host.observe Store.machine Store.Allowed
    Store.observe (fun _ ↦ meaning) Shows := by
  intro s t op s' h hok hstep
  obtain rfl := Option.some_inj.mp hstep
  rcases op with ⟨c, args, o, content⟩ | ⟨c, hd⟩ | ⟨c, m, vma, d, mem⟩ | ⟨c, m, vma⟩ |
    ⟨c, addr, val⟩ | ⟨c, addr⟩
  · obtain ⟨t', hrun, hshows⟩ := h.dumbCreate hok
    exact ⟨t', hrun, hshows, Machine.outputs_eq_nil (fun op hop ↦ observe_meaning (by simp) hop) t⟩
  · exact ⟨t, .nil t, h.setWorld (AllPlaced.step (a := .destroyHandle c hd) h.allPlaced trivial rfl)
      (memoryOf_handleDelete c hd) h.placed, rfl⟩
  · obtain ⟨t', hrun, hshows⟩ := h.mmap hok
    exact ⟨t', hrun, hshows, Machine.outputs_eq_nil (fun op hop ↦ observe_meaning (by simp) hop) t⟩
  · exact ⟨_, .single trivial rfl, h.munmap c m vma, rfl⟩
  · exact ⟨_, .single trivial rfl, h.write c addr val, rfl⟩
  · refine ⟨t, .single trivial rfl, h, ?_⟩
    exact congrArg (· :: []) (h.placed.load (c, addr))

/-! ## The test program -/

/-- Byte `k` of a string as `strcpy` copies it, with the zero at its end. -/
def charAt (str : List UInt8) (k : ℕ) : UInt8 := (str ++ [0])[k]?.getD 0

/-- The test program: map the buffer, copy a string into it, and unmap it; map it again, and read
the string. -/
def strcpyAndRead (c : Client) (m : MapId) (vma : Vma) (d : Offsets) (c' : Client) (m' : MapId)
    (vma' : Vma) (d' : Offsets) (str : List UInt8) : List Op :=
  (.mmap c m vma d true ::
      (List.range (str.length + 1)).map fun k ↦ .write c (vma.vmStart + k) (charAt str k)) ++
    (.munmap c m vma :: .mmap c' m' vma' d' true ::
      (List.range (str.length + 1)).map fun k ↦ .read c' (vma'.vmStart + k))

/-- A buffer of four pages. -/
def fourPageBuffer : List Op :=
  [.dumbCreate 0 ⟨64, 64, 32⟩ ⟨some 7, true, some 1, some 131072⟩ fun _ ↦ 0]

/-- The test program with a short string. -/
def hi : List Op := strcpyAndRead 0 0 fourPages offset100 0 1 fourPages offset100 [72, 105]

theorem fourPageBuffer_careful : ∃ s s', machine.Run Careful .begin fourPageBuffer s ∧
    machine.Run Careful s hi s' := by
  have hcreate : Careful .begin
      (.dumbCreate 0 ⟨64, 64, 32⟩ ⟨some 7, true, some 1, some 131072⟩ fun _ ↦ 0) := by
    refine ⟨fun id _ ↦ rfl, ?_⟩
    rintro a ⟨⟩
    refine ⟨by decide, by decide, fun id a' n h ↦ ?_⟩
    cases h
  have hprog : hi = [.mmap 0 0 fourPages offset100 true, .write 0 65536 72, .write 0 65537 105,
      .write 0 65538 0, .munmap 0 0 fourPages, .mmap 0 1 fourPages offset100 true, .read 0 65536,
      .read 0 65537, .read 0 65538] := rfl
  have hhi : ∃ s', machine.Run Careful (fourPageBuffer.foldl Host.next .begin) hi s' := by
    rw [hprog]
    exact ⟨_, .cons ⟨rfl, fun _ _ ↦ rfl, 7, _, ⟨rfl, rfl, rfl, by decide⟩, by simp⟩ rfl
      (.cons trivial rfl (.cons trivial rfl (.cons trivial rfl (.cons trivial rfl
        (.cons ⟨rfl, fun _ hin ↦ if_pos hin, 7, _, ⟨rfl, rfl, rfl, by decide⟩, by simp⟩ rfl
          (.cons trivial rfl (.cons trivial rfl (.cons trivial rfl (.nil _)))))))))⟩
  obtain ⟨s', hhi⟩ := hhi
  exact ⟨_, s', .single hcreate rfl, hhi⟩

/-- **Dumb buffers are shared memory.**  As long as the kernel hands out free memory, and areas map
objects that have memory, the clients read what they would read in a store of the bytes of the
objects, where every area shows its object from the first byte on. -/
theorem reads_eq_objects {ops : List Op} {s : Host} (hrun : machine.Run Careful .begin ops s) :
    ∃ t, Store.machine.Run Store.Allowed .empty (ops.flatMap meaning) t ∧
      machine.outputs Host.observe .begin ops =
        Store.machine.outputs Store.observe .empty (ops.flatMap meaning) ∧
      ∀ c addr, s.byte c addr = t.load (c, addr) := by
  obtain ⟨t, hstore, h, hout⟩ := implements_store.run hrun .begin
  rw [hrun.outputs_const] at hstore hout
  exact ⟨t, hstore, hout.symm, fun c addr ↦ (h.placed.load (c, addr)).symm⟩

/-- The clients read the string. -/
theorem reads_eq_objects_hi : ∃ t, Store.machine.Run Store.Allowed .empty
      ((fourPageBuffer ++ hi).flatMap meaning) t ∧
    Store.machine.outputs Store.observe .empty ((fourPageBuffer ++ hi).flatMap meaning) =
      [some 72, some 105, some 0] := by
  obtain ⟨s, s', hrun, hrun'⟩ := fourPageBuffer_careful
  obtain ⟨t, hstore, hout, -⟩ := reads_eq_objects (hrun.append hrun')
  exact ⟨t, hstore, hout.symm.trans (by decide)⟩

section

variable {c c' : Client} {m m' : MapId} {vma vma' : Vma} {d d' : Offsets} {id : ObjId}
  {str : List UInt8}

theorem range_charAt (str : List UInt8) :
    ((List.range (str.length + 1)).map fun k ↦ some (charAt str k)) = (str ++ [0]).map some := by
  refine List.ext_getElem (by simp) fun k hk hk' ↦ ?_
  rw [List.getElem_map, List.getElem_map, List.getElem_range, charAt,
    List.getElem?_eq_getElem (by simpa using hk), Option.getD_some]

theorem strcpyAndRead_meaning (hd : d.start vma.vmPgoff = some id)
    (hd' : d'.start vma'.vmPgoff = some id) :
    (strcpyAndRead c m vma d c' m' vma' d' str).flatMap meaning =
      (.map (areaViews c vma id) ::
          (List.range (str.length + 1)).map fun k ↦ .write (c, vma.vmStart + k) (charAt str k)) ++
        ([.unmap fun v ↦ v.1 = c ∧ Inside vma v.2, .map (areaViews c' vma' id)] ++
          ((List.range (str.length + 1)).map fun k ↦ (c', vma'.vmStart + k)).map .read) := by
  rw [strcpyAndRead, List.flatMap_append, List.flatMap_cons, List.flatMap_cons, List.flatMap_cons,
    List.flatMap_map, List.flatMap_map, List.map_map]
  simp only [meaning, hd, hd', if_true, Function.comp_def, List.map_eq_flatMap, List.cons_append,
    List.nil_append]

theorem areaViews_add {k : ℕ} (hk : k < vma.vmEnd - vma.vmStart) :
    areaViews c vma id (c, vma.vmStart + k) = some (id, k) := by
  rw [areaViews, if_pos ⟨rfl, Nat.le_add_right .., by omega⟩, Nat.add_sub_cancel_left]

/-- **What is copied into a dumb buffer is found there** when the buffer is mapped again, by
whichever client and wherever, and whatever careful clients did before. -/
theorem reads_strcpy {ops : List Op} {s s' : Host} (hrun : machine.Run Careful .begin ops s)
    (hrun' : machine.Run Careful s (strcpyAndRead c m vma d c' m' vma' d' str) s')
    (hd : d.start vma.vmPgoff = some id) (hd' : d'.start vma'.vmPgoff = some id)
    (hlen : str.length < vma.vmEnd - vma.vmStart)
    (hlen' : str.length < vma'.vmEnd - vma'.vmStart) :
    machine.outputs Host.observe s (strcpyAndRead c m vma d c' m' vma' d' str) =
      (str ++ [0]).map some := by
  obtain ⟨t, -, ht, -⟩ := implements_store.run hrun .begin
  obtain ⟨-, -, -, hout⟩ := implements_store.run hrun' ht
  have hview : ∀ k < str.length + 1, (t.next (.map (areaViews c vma id))).view
      (c, vma.vmStart + k) = some (id, k) := by
    intro k hk
    show (areaViews c vma id (c, vma.vmStart + k)).or _ = _
    rw [areaViews_add (by omega), Option.some_or]
  have hback : ∀ k < str.length + 1, areaViews c' vma' id (c', vma'.vmStart + k) = some (id, k) :=
    fun k hk ↦ areaViews_add (by omega)
  have hmap : Store.machine.step t (.map (areaViews c vma id)) =
      some (t.next (.map (areaViews c vma id))) := rfl
  rw [hrun'.outputs_const, strcpyAndRead_meaning hd hd', List.cons_append,
    Machine.outputs_cons hmap, Store.outputs_writes_reads (charAt str) _ hview
      (fun j k _ _ hjk ↦ (Prod.mk.inj hjk).2) hback, range_charAt] at hout
  exact hout.symm

theorem reads_strcpy_hi : ∃ s, machine.Run Careful .begin fourPageBuffer s ∧
    machine.outputs Host.observe s hi = [some 72, some 105, some 0] := by
  obtain ⟨s, s', hrun, hrun'⟩ := fourPageBuffer_careful
  exact ⟨s, hrun, reads_strcpy hrun hrun' rfl rfl (by decide) (by decide)⟩

end

end Gem.SharedObjects
