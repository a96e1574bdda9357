import SampleDrivers.Gem.AllOrNothing
import SampleDrivers.Kernel.Vma

/-!
# What a client gets to see of a dumb buffer

A client maps an object by the fake offset of its handle.  `drm_gem_mmap` finds the object, or
refuses; `drm_gem_cma_mmap` does not ask which, takes the object out of the area, and maps as many
frames as the area has pages, from the first frame of the object on.

* `drmGemMmap` — the function of the core, which looks an offset up and compares the sizes.
* `cmaMmap` — the function of the driver, down to the page table; `cmaMmap_world` says that it does
  to the objects what `drmGemCmaMmap` does.
* `PageTable.translate` — the physical address behind an address of the process.
* `MapsOwn` — a request that the core refuses is refused, and one that it admits shows the client
  memory of its object, from the beginning, and none behind the end.
* `mapsOwn_iff` — it is so if the core admits the request and the object has memory, and in no other
  case.
-/

set_option autoImplicit false

namespace Gem.OwnMemory

open Kernel

/-! ## The callback -/

/-- What the core knows about the fake offsets of the device, and about the client. -/
structure Offsets where
  /-- The object whose offsets start at a page. -/
  start : ℕ → Option ObjId
  /-- The client may map the object. -/
  allowed : ObjId → Bool

/-- The client may not map the object (`-EACCES`). -/
def EACCES : ℤ := 13

/-- `drm_gem_mmap`: the result, and what is in `vm_private_data` afterwards. -/
def drmGemMmap (d : Offsets) (w : World) (vma : Vma) : ℤ × Option (ObjId × CmaObject) :=
  match d.start vma.vmPgoff with
  | none => (-EINVAL, none)
  | some id =>
    match w.objects id with
    | none => (-EINVAL, none)
    | some obj =>
      if d.allowed id = false then (-EACCES, none)
      else if obj.size < vma.vmEnd - vma.vmStart then (-EINVAL, none)
      else (0, some (id, obj))

/-- How a call of `drm_gem_cma_mmap` ends, with what it leaves. -/
structure Mapped where
  ends : Ends
  world : World
  pt : PageTable

/-- `drm_gem_cma_mmap`, for an area that becomes the mapping `m`.  `mem` says whether there is
memory for the page table. -/
def cmaMmap (d : Offsets) (w : World) (m : MapId) (vma : Vma) (mem : Bool) (pt : PageTable) :
    Mapped :=
  match (drmGemMmap d w vma).2 with
  | none => ⟨.oops, w, pt⟩
  | some (id, obj) =>
    let w₁ := w.modify id fun obj ↦
      { obj with refCount := obj.refCount + 1, mmapRefs := obj.mmapRefs + 1 }
    let r := remapPfnRange vma vma.vmStart (obj.paddr / pageSize) (vma.vmEnd - vma.vmStart) mem pt
    ⟨.ret r.1, if r.1 = 0 then { w₁ with maps := (m, id) :: w₁.maps } else w₁, r.2⟩

/-! ## What a client should see -/

/-- The physical address behind an address of the process. -/
def translate (pt : PageTable) (addr : ℕ) : Option ℕ :=
  (pt.pte (addr - addr % pageSize)).map fun page ↦ pageSize * page + addr % pageSize

/-- The physical address is in memory that was allocated for the object. -/
def Owns (obj : CmaObject) (addr : ℕ) : Prop :=
  obj.vaddr ≠ .null ∧ obj.paddr ≤ addr ∧ addr < obj.paddr + obj.size

/-- The area shows the object from its first byte on, and nothing but the object; addresses outside
the area show what they did before. -/
structure Shows (obj : CmaObject) (vma : Vma) (pt pt' : PageTable) : Prop where
  length : vma.vmEnd - vma.vmStart ≤ obj.size
  inside : ∀ j < vma.vmEnd - vma.vmStart,
    translate pt' (vma.vmStart + j) = some (obj.paddr + j) ∧ Owns obj (obj.paddr + j)
  outside : ∀ addr, addr < 2 ^ 64 → ¬ (vma.vmStart ≤ addr ∧ addr < vma.vmEnd) →
    translate pt' addr = translate pt addr

/-- What a call of `drm_gem_cma_mmap` should do. -/
structure MapsOwn (d : Offsets) (w : World) (vma : Vma) (pt : PageTable) (r : Mapped) : Prop where
  /-- What the core refuses is refused with the core's error, and nothing is touched. -/
  refused : (drmGemMmap d w vma).2 = none → r = ⟨.ret (drmGemMmap d w vma).1, w, pt⟩
  /-- What it admits is mapped, unless there is no memory for the page table. -/
  admitted : ∀ id obj, (drmGemMmap d w vma).2 = some (id, obj) →
    r.ends = .ret 0 ∧ Shows obj vma pt r.pt ∨ ∃ e, e < 0 ∧ r.ends = .ret e ∧ r.pt = pt

/-- The memory of an object starts at a page, and does not wrap. -/
structure Placed (obj : CmaObject) : Prop where
  aligned : pageSize ∣ obj.paddr
  fits : obj.paddr + obj.size ≤ 2 ^ 64

/-! ## Page tables -/

section

variable {pt : PageTable} {vma : Vma} {pfn : ℕ}

theorem translate_page {page addr : ℕ} (hdvd : pageSize ∣ addr) {j : ℕ} (hj : j < pageSize)
    (hpte : pt.pte addr = some page) : translate pt (addr + j) = some (pageSize * page + j) := by
  have hmod : (addr + j) % pageSize = j := by
    rw [Nat.add_mod, Nat.mod_eq_zero_of_dvd hdvd, Nat.zero_add, Nat.mod_mod, Nat.mod_eq_of_lt hj]
  rw [translate, hmod, Nat.add_sub_cancel, hpte, Option.map_some]

/-- An area that is mapped as a whole shows consecutive physical addresses. -/
theorem translate_installRange (hpfn : pfn + vma.pages ≤ 2 ^ 64) {j : ℕ}
    (hj : j < vma.vmEnd - vma.vmStart) :
    translate (pt.installRange vma.vmStart pfn vma.pages) (vma.vmStart + j) =
      some (pageSize * pfn + j) := by
  have hk : j / pageSize < vma.pages := by
    rw [Vma.pages]
    refine Nat.div_lt_of_lt_mul ?_
    rw [Nat.mul_div_cancel' (Nat.dvd_sub vma.end_aligned vma.start_aligned)]
    exact hj
  have hend : vma.vmStart + pageSize * vma.pages ≤ 2 ^ 64 := by
    change vma.addr vma.pages ≤ 2 ^ 64
    rw [← vma.vmEnd_eq]
    exact Nat.le_of_lt vma.end_lt
  have hpte : (pt.installRange vma.vmStart pfn vma.pages).pte
      (vma.vmStart + pageSize * (j / pageSize)) = some ((pfn + j / pageSize) % 2 ^ 64) :=
    pt.installRange_pte hk hend
  rw [Nat.mod_eq_of_lt (by omega)] at hpte
  have htranslate := translate_page
    (Nat.dvd_add vma.start_aligned (Nat.dvd_mul_right pageSize (j / pageSize)))
    (Nat.mod_lt j pageSize_pos) hpte
  rw [Nat.add_assoc, Nat.div_add_mod, Nat.mul_add, Nat.add_assoc, Nat.div_add_mod] at htranslate
  exact htranslate

/-- The entries of pages that are not in the range stay. -/
theorem installRange_pte_of_notMem {addr n a : ℕ}
    (h : ∀ k < n, a ≠ (addr + pageSize * k) % 2 ^ 64) :
    (pt.installRange addr pfn n).pte a = pt.pte a := by
  induction n with
  | zero => rfl
  | succ n ih =>
    rw [PageTable.installRange, PageTable.install_pte_of_ne _ _ (h n (Nat.lt_succ_self n))]
    exact ih fun k hk ↦ h k (Nat.lt_succ_of_lt hk)

theorem translate_installRange_outside {addr : ℕ}
    (hout : ¬ (vma.vmStart ≤ addr ∧ addr < vma.vmEnd)) :
    translate (pt.installRange vma.vmStart pfn vma.pages) addr = translate pt addr := by
  rw [translate, translate, installRange_pte_of_notMem]
  intro k hk heq
  change _ = vma.addr k % 2 ^ 64 at heq
  rw [Nat.mod_eq_of_lt (vma.addr_lt hk)] at heq
  have hlt := vma.addr_lt_vmEnd.mpr hk
  obtain ⟨n, hn⟩ := vma.end_aligned
  obtain ⟨m, hm⟩ := vma.start_aligned
  rw [Vma.addr] at heq hlt
  simp only [pageSize] at *
  omega

end

/-! ## The driver -/

section

variable {d : Offsets} {w : World} {m : MapId} {vma : Vma} {mem : Bool} {pt : PageTable}
  {id : ObjId} {obj : CmaObject}

/-- The core admits the whole or the beginning of a live object that the client may map, by the
offset at which the object starts. -/
structure Admits (d : Offsets) (w : World) (vma : Vma) (id : ObjId) (obj : CmaObject) : Prop where
  start : d.start vma.vmPgoff = some id
  live : w.objects id = some obj
  allowed : d.allowed id = true
  length : vma.vmEnd - vma.vmStart ≤ obj.size

theorem drmGemMmap_some_iff : (drmGemMmap d w vma).2 = some (id, obj) ↔ Admits d w vma id obj := by
  constructor
  · intro h
    unfold drmGemMmap at h
    split at h
    · cases h
    · rename_i id' hstart
      split at h
      · cases h
      · rename_i obj' hlive
        split at h
        · cases h
        · rename_i hallowed
          split at h
          · cases h
          · rename_i hsize
            cases h
            exact ⟨hstart, hlive, by simpa using hallowed, Nat.not_lt.mp hsize⟩
  · rintro ⟨hstart, hlive, hallowed, hlength⟩
    rw [drmGemMmap, hstart]
    simp only [hlive, hallowed, Bool.true_eq_false, if_false, if_neg (Nat.not_lt.mpr hlength)]

/-- The callback always passes the whole area on. -/
theorem remapPfnRange_whole (pfn : ℕ) :
    remapPfnRange vma vma.vmStart pfn (vma.vmEnd - vma.vmStart) mem pt =
      if mem = true then (0, pt.installRange vma.vmStart pfn vma.pages) else (-ENOMEM, pt) := by
  rw [remapPfnRange, if_neg]
  · rfl
  · rintro ⟨-, hpart⟩
    exact hpart ⟨rfl, Nat.add_sub_cancel' (Nat.le_of_lt vma.start_lt_end)⟩

/-- **The objects** see a call as the model without page tables has it. -/
theorem cmaMmap_world :
    (cmaMmap d w m vma mem pt).world =
      (drmGemCmaMmap w m ⟨(drmGemMmap d w vma).2.map Prod.fst, mem⟩).2 := by
  rw [cmaMmap]
  cases htarget : (drmGemMmap d w vma).2 with
  | none => rfl
  | some entry =>
    obtain ⟨id, obj⟩ := entry
    have hobj := (drmGemMmap_some_iff.mp htarget).live
    simp only [drmGemCmaMmap, Option.map_some, hobj, remapPfnRange_whole]
    cases mem with
    | true => rfl
    | false => rfl

variable (pt) in
/-- An area that is mapped shows the object, if the object has memory. -/
theorem shows_iff (hplaced : Placed obj) (hlen : vma.vmEnd - vma.vmStart ≤ obj.size) :
    Shows obj vma pt (pt.installRange vma.vmStart (obj.paddr / pageSize) vma.pages) ↔
      obj.vaddr ≠ .null := by
  have hpaddr : pageSize * (obj.paddr / pageSize) = obj.paddr := Nat.mul_div_cancel' hplaced.aligned
  have hpfn : obj.paddr / pageSize + vma.pages ≤ 2 ^ 64 := by
    have hfits := hplaced.fits
    rw [Vma.pages]
    simp only [pageSize]
    omega
  constructor
  · intro hshows
    exact (hshows.inside 0 (Nat.sub_pos_of_lt vma.start_lt_end)).2.1
  · intro hmem
    refine ⟨hlen, fun j hj ↦ ⟨?_, hmem, ?_, ?_⟩, fun addr _ hout ↦ ?_⟩
    · rw [translate_installRange hpfn hj, hpaddr]
    · exact Nat.le_add_right _ j
    · exact Nat.add_lt_add_left (Nat.lt_of_lt_of_le hj hlen) _
    · exact translate_installRange_outside hout

variable (m mem pt) in
/-- What a call does with an object that the core has found for it. -/
theorem cmaMmap_of_some (htarget : (drmGemMmap d w vma).2 = some (id, obj)) :
    (cmaMmap d w m vma mem pt).ends = .ret (if mem = true then 0 else -ENOMEM) ∧
      (cmaMmap d w m vma mem pt).pt = if mem = true then
        pt.installRange vma.vmStart (obj.paddr / pageSize) vma.pages else pt := by
  rw [cmaMmap, htarget]
  simp only [remapPfnRange_whole]
  split
  · exact ⟨rfl, rfl⟩
  · exact ⟨rfl, rfl⟩

/-- The demand on a request that the core admits. -/
theorem mapsOwn_of_some (hplaced : Placed obj) (htarget : (drmGemMmap d w vma).2 = some (id, obj)) :
    MapsOwn d w vma pt (cmaMmap d w m vma mem pt) ↔ (mem = true → obj.vaddr ≠ .null) := by
  have hshows := shows_iff pt hplaced (drmGemMmap_some_iff.mp htarget).length
  obtain ⟨hends, hpt⟩ := cmaMmap_of_some m mem pt htarget
  constructor
  · rintro h rfl
    rcases h.admitted id obj htarget with ⟨-, hshown⟩ | ⟨e, he, heq, -⟩
    · rw [hpt, if_pos rfl] at hshown
      exact hshows.mp hshown
    · rw [hends, if_pos rfl] at heq
      cases heq
      exact absurd he (by decide)
  · intro hmem
    refine ⟨fun hnone ↦ ?_, fun id' obj' hsome ↦ ?_⟩
    · rw [htarget] at hnone
      cases hnone
    · obtain ⟨rfl, rfl⟩ := Prod.mk.inj (Option.some_inj.mp (htarget.symm.trans hsome))
      rw [hends, hpt]
      cases mem with
      | true => exact .inl ⟨rfl, hshows.mpr (hmem rfl)⟩
      | false => exact .inr ⟨-ENOMEM, by decide, rfl, rfl⟩

end

/-! ## The memory of the objects -/

/-- The DMA API returns whole pages below the end of the address space. -/
def ReturnsPages (_ : World) : Action → Prop
  | .dumbCreate _ args o => ∀ a, o.dma = some a → pageSize ∣ a ∧ a + args.size ≤ 2 ^ 64
  | _ => True

/-- The memory of every object is placed. -/
def AllPlaced (w : World) : Prop := ∀ id obj, w.objects id = some obj → Placed obj

theorem AllPlaced.modify {w : World} (h : AllPlaced w) (id : ObjId) {f : CmaObject → CmaObject}
    (hf : ∀ obj, Placed obj → Placed (f obj)) : AllPlaced (w.modify id f) := by
  intro id' obj hobj
  obtain ⟨obj₀, h₀, rfl⟩ := World.modify_objects_eq_some hobj
  split
  · exact hf obj₀ (h id' obj₀ h₀)
  · exact h id' obj₀ h₀

/-- The counts of an object have nothing to do with its memory. -/
theorem placed_congr {obj obj' : CmaObject} (h : Placed obj) (hpaddr : obj'.paddr = obj.paddr)
    (hsize : obj'.size = obj.size) : Placed obj' :=
  ⟨hpaddr ▸ h.aligned, hpaddr ▸ hsize ▸ h.fits⟩

theorem AllPlaced.dumbCreate {w : World} (h : AllPlaced w) {c : Client} {args : DumbArgs}
    {o : CreateOutcome} (hdma : ∀ a, o.dma = some a → pageSize ∣ a ∧ a + args.size ≤ 2 ^ 64) :
    AllPlaced (drmGemCmaDumbCreate w c args o).2 := by
  by_cases hsize : pageSize ∣ args.size
  · cases hk : o.kzalloc with
    | none =>
      rw [drmGemCmaDumbCreate, if_neg (not_not.mpr (Nat.mod_eq_zero_of_dvd hsize)), hk]
      exact h
    | some id =>
      cases hnew : w.objects id with
      | some obj =>
        rw [drmGemCmaDumbCreate, if_neg (not_not.mpr (Nat.mod_eq_zero_of_dvd hsize)), hk]
        simp only [hnew, Option.isSome_some, if_true]
        exact h
      | none =>
        obtain ⟨n, hn⟩ := dumbCreate_objects (c := c) hk hnew hsize
        intro id' obj hobj
        rw [hn, Function.update_apply] at hobj
        split at hobj
        · cases hobj
          cases hmem : o.dma with
          | none =>
            refine ⟨Nat.dvd_zero _, ?_⟩
            have hlt : args.size < 2 ^ 32 := (args.pitch * args.height).isLt
            simp only [Option.getD_none]
            omega
          | some a => exact ⟨(hdma a hmem).1, (hdma a hmem).2⟩
        · exact h id' obj hobj
  · rw [drmGemCmaDumbCreate, if_pos fun hmod ↦ hsize (Nat.dvd_of_mod_eq_zero hmod)]
    exact h

/-- **Every call leaves the memory where it is.** -/
theorem AllPlaced.step {w w' : World} {a : Action} (h : AllPlaced w) (hdma : ReturnsPages w a)
    (hstep : machine.step w a = some w') : AllPlaced w' := by
  cases a <;> obtain rfl := Option.some_inj.mp hstep
  case dumbCreate c args o => exact h.dumbCreate hdma
  case destroyHandle c hd =>
    unfold drmGemHandleDelete
    split
    · exact h
    · refine AllPlaced.modify h _ fun obj hobj ↦ ?_
      split
      · exact placed_congr hobj rfl rfl
      · exact placed_congr hobj rfl rfl
  case mmap m o =>
    unfold drmGemCmaMmap
    split
    · exact h
    · rename_i id _
      split
      · exact h
      · have hget := h.modify id
          (f := fun obj ↦ { obj with refCount := obj.refCount + 1, mmapRefs := obj.mmapRefs + 1 })
          fun obj hobj ↦ placed_congr hobj rfl rfl
        simp only
        split
        · exact hget
        · exact hget
  case fork m m' =>
    unfold forkMapping
    split
    · exact h
    · exact h
  case munmap m =>
    unfold munmap
    split
    · exact h
    · exact h

/-- The memory is placed in every state of every run. -/
theorem allPlaced_of_run {as : List Action} {w : World}
    (hrun : machine.Run ReturnsPages mygemInit as w) : AllPlaced w := by
  refine hrun.invariant (fun _ _ _ hI hok hstep ↦ hI.step hok hstep) fun id obj hobj ↦ ?_
  cases hobj

/-- **The object's own memory.**  After any calls of any number of clients, `drm_gem_cma_mmap` maps
the memory of the object and fails as `drm_gem_mmap` fails, if and only if the core admits the
request, and the object has memory in case there is memory for the page table. -/
theorem mapsOwn_iff {as : List Action} {w : World} (hrun : machine.Run ReturnsPages mygemInit as w)
    {d : Offsets} {m : MapId} {vma : Vma} {mem : Bool} {pt : PageTable} :
    MapsOwn d w vma pt (cmaMmap d w m vma mem pt) ↔
      ∃ id obj, Admits d w vma id obj ∧ (mem = true → obj.vaddr ≠ .null) := by
  cases htarget : (drmGemMmap d w vma).2 with
  | none =>
    constructor
    · intro h
      have hends := congrArg Mapped.ends (h.refused htarget)
      rw [cmaMmap, htarget] at hends
      cases hends
    · rintro ⟨_, _, hadmits, -⟩
      rw [drmGemMmap_some_iff.mpr hadmits] at htarget
      cases htarget
  | some entry =>
    obtain ⟨id, obj⟩ := entry
    have hadmits := drmGemMmap_some_iff.mp htarget
    rw [mapsOwn_of_some (allPlaced_of_run hrun id obj hadmits.live) htarget]
    constructor
    · intro hmem
      exact ⟨id, obj, hadmits, hmem⟩
    · rintro ⟨id', obj', hadmits', hmem⟩
      cases (drmGemMmap_some_iff.mpr hadmits').symm.trans htarget
      exact hmem

/-- Four pages at page 16, whose fake offset is 100. -/
def fourPages : Vma := Vma.ofPages 16 4 100 false (Nat.succ_pos 3) (by decide) (by decide)

/-- Offset 100 is the start of object 7. -/
def offset100 : Offsets := ⟨fun n ↦ if n = 100 then some 7 else none, fun _ ↦ true⟩

/-- An object of four pages with memory at page 32. -/
def fourPageRun : List Action := [.dumbCreate 0 ⟨64, 64, 32⟩ ⟨some 7, true, some 1, some 131072⟩]

/-- The client sees the four pages. -/
theorem fourPages_mapsOwn : ∃ w, machine.Run ReturnsPages mygemInit fourPageRun w ∧
    MapsOwn offset100 w fourPages ⟨fun _ ↦ none, []⟩
      (cmaMmap offset100 w 0 fourPages true ⟨fun _ ↦ none, []⟩) := by
  have hpages : ReturnsPages mygemInit
      (.dumbCreate 0 ⟨64, 64, 32⟩ ⟨some 7, true, some 1, some 131072⟩) := by
    rintro a ⟨⟩
    exact ⟨by decide, by decide⟩
  have hrun := Machine.Run.single (M := machine) hpages rfl
  exact ⟨_, hrun, (mapsOwn_iff hrun).mpr ⟨7, _, ⟨rfl, rfl, rfl, by decide⟩, fun _ ↦ nofun⟩⟩

/-- A client maps an offset that belongs to no object: the core refuses with `-EINVAL`, and the
driver dereferences the `NULL` that the core has left behind. -/
theorem noObject_not_mapsOwn :
    (drmGemMmap offset100 mygemInit fourPages) = (-EINVAL, none) ∧
      (cmaMmap offset100 mygemInit 0 fourPages true ⟨fun _ ↦ none, []⟩).ends = .oops ∧
      ¬ MapsOwn offset100 mygemInit fourPages ⟨fun _ ↦ none, []⟩
        (cmaMmap offset100 mygemInit 0 fourPages true ⟨fun _ ↦ none, []⟩) := by
  refine ⟨rfl, rfl, fun h ↦ ?_⟩
  have hends := congrArg Mapped.ends (h.refused rfl)
  cases hends

end Gem.OwnMemory
