import Mathlib.Data.List.Basic
import Mathlib.Tactic.Common
import SampleDrivers.Gem.Cma
import SampleDrivers.Lib.Transition

/-!
# Reference accounting of the my-gem-cma driver

A GEM object should be referenced once for each open handle and once for each live mapping, and be
freed when both are gone.  In my-gem-cma three things stand in the way: the reference
`drm_gem_object_init` starts with is never dropped by `drm_gem_cma_dumb_create`, the empty
`drm_gem_cma_vm_ops` neither takes a reference on `fork` nor drops one on `munmap`, and no callback
frees an object.

`Referenced` is the account the driver really keeps: one reference from the creation, one for each
open handle, and one for each `drm_gem_mmap` there ever was; nothing is freed.  From it
`accounted_iff` concludes that the intended account is kept by exactly the runs that create no
object.
-/

set_option autoImplicit false

namespace Gem

open Kernel

/-- A call of a client. -/
inductive Action
  | dumbCreate (c : Client) (args : DumbArgs) (o : CreateOutcome)
  | destroyHandle (c : Client) (h : Handle)
  | mmap (m : MapId) (o : MmapOutcome)
  | fork (m m' : MapId)
  | munmap (m : MapId)

/-- Any number of clients of the driver, one call after another. -/
def machine : Machine World Action where
  step w
    | .dumbCreate c args o => some (drmGemCmaDumbCreate w c args o).2
    | .destroyHandle c h => some (drmGemHandleDelete mygemDriver w c h)
    | .mmap m o => some (drmGemCmaMmap w m o).2
    | .fork m m' => some (forkMapping mygemDriver w m m')
    | .munmap m => some (munmap mygemDriver w m)

/-- The call makes a new object. -/
def Creates (w : World) : Action → Prop
  | .dumbCreate _ args o => ∃ id, o.kzalloc = some id ∧ w.objects id = none ∧
      args.size % pageSize = 0
  | _ => False

/-- The intended account of one object. -/
structure ObjAccounted (w : World) (id : ObjId) (obj : CmaObject) : Prop where
  /-- One reference for each open handle and each live mapping. -/
  refCount_eq : obj.refCount = w.handlesOf id + w.mapsOf id
  /-- Freed exactly once when both are gone, and not earlier. -/
  frees_eq : obj.frees = if w.handlesOf id + w.mapsOf id = 0 then 1 else 0

/-- The intended account of every object. -/
def Accounted (w : World) : Prop := ∀ id obj, w.objects id = some obj → ObjAccounted w id obj

/-! ## The account the driver keeps -/

/-- What the driver's reference counts really are. -/
structure Referenced (w : World) : Prop where
  /-- The creation, the open handles, and every `drm_gem_mmap` so far. -/
  refCount_eq : ∀ id obj, w.objects id = some obj →
    obj.refCount = 1 + w.handlesOf id + obj.mmapRefs
  /-- No object is ever freed. -/
  frees_eq : ∀ id obj, w.objects id = some obj → obj.frees = 0
  /-- Handles name objects that exist. -/
  handles_mem : ∀ e ∈ w.handles, (w.objects e.2).isSome
  /-- So do mappings. -/
  maps_mem : ∀ e ∈ w.maps, (w.objects e.2).isSome

namespace World

theorem modify_objects (w : World) (id : ObjId) (f : CmaObject → CmaObject) :
    (w.modify id f).objects = Function.update w.objects id ((w.objects id).map f) := rfl

@[simp] theorem modify_handlesOf (w : World) (id id' : ObjId) (f : CmaObject → CmaObject) :
    (w.modify id f).handlesOf id' = w.handlesOf id' := rfl

theorem modify_objects_eq_some {w : World} {id id' : ObjId} {f : CmaObject → CmaObject}
    {obj : CmaObject} (h : (w.modify id f).objects id' = some obj) :
    ∃ obj₀, w.objects id' = some obj₀ ∧ obj = if id' = id then f obj₀ else obj₀ := by
  rw [modify_objects, Function.update_apply] at h
  split at h
  · rename_i hid
    obtain ⟨obj₀, h₀, rfl⟩ := Option.map_eq_some_iff.mp h
    exact ⟨obj₀, hid ▸ h₀, by rw [if_pos hid]⟩
  · rename_i hid
    exact ⟨obj, h, by rw [if_neg hid]⟩

@[simp] theorem modify_isSome (w : World) (id id' : ObjId) (f : CmaObject → CmaObject) :
    ((w.modify id f).objects id').isSome = (w.objects id').isSome := by
  rw [modify_objects, Function.update_apply]
  split
  · rename_i hid; rw [Option.isSome_map, hid]
  · rfl

end World

/-- Changing what the account does not mention keeps it. -/
theorem Referenced.modify {w : World} (h : Referenced w) (id : ObjId)
    {f : CmaObject → CmaObject} (hcount : ∀ o : CmaObject, (f o).refCount + o.mmapRefs =
      o.refCount + (f o).mmapRefs) (hfrees : ∀ o : CmaObject, (f o).frees = o.frees) :
    Referenced (w.modify id f) := by
  refine ⟨fun id' obj hobj ↦ ?_, fun id' obj hobj ↦ ?_, fun e he ↦ ?_, fun e he ↦ ?_⟩
  · obtain ⟨obj₀, h₀, rfl⟩ := World.modify_objects_eq_some hobj
    have hrefs := h.refCount_eq id' obj₀ h₀
    rw [World.modify_handlesOf]
    split
    · have := hcount obj₀; omega
    · exact hrefs
  · obtain ⟨obj₀, h₀, rfl⟩ := World.modify_objects_eq_some hobj
    split
    · rw [hfrees]; exact h.frees_eq id' obj₀ h₀
    · exact h.frees_eq id' obj₀ h₀
  · rw [World.modify_isSome]; exact h.handles_mem e he
  · rw [World.modify_isSome]; exact h.maps_mem e he

theorem drmGemObjectInit_objects (w : World) (id : ObjId) (size : ℕ) (filp : Bool) :
    (drmGemObjectInit w id size filp).objects = Function.update w.objects id (some
      { refCount := 1, size, filp, paddr := 0, vaddr := .null, mmapRefs := 0, frees := 0 }) := rfl

/-- A new object starts the account with its creation reference. -/
theorem Referenced.objectInit {w : World} (h : Referenced w) {id : ObjId}
    (hnew : w.objects id = none) (size : ℕ) (filp : Bool) :
    Referenced (drmGemObjectInit w id size filp) := by
  have hother : ∀ id', (w.objects id').isSome →
      ((drmGemObjectInit w id size filp).objects id').isSome := by
    intro id' hid'
    rw [drmGemObjectInit_objects, Function.update_apply]
    split
    · rfl
    · exact hid'
  have hhandles : w.handlesOf id = 0 := by
    rw [World.handlesOf, List.countP_eq_zero]
    intro e he heq
    have := h.handles_mem e he
    rw [of_decide_eq_true heq, hnew] at this
    exact absurd this (by simp)
  refine ⟨fun id' obj hobj ↦ ?_, fun id' obj hobj ↦ ?_,
    fun e he ↦ hother _ (h.handles_mem e he), fun e he ↦ hother _ (h.maps_mem e he)⟩ <;>
    rw [drmGemObjectInit_objects, Function.update_apply] at hobj <;> split at hobj
  · rename_i hid
    cases hobj
    show 1 = 1 + w.handlesOf id' + 0
    rw [hid, hhandles]
  · exact h.refCount_eq id' obj hobj
  · cases hobj; rfl
  · exact h.frees_eq id' obj hobj

/-- A published handle brings its reference. -/
theorem Referenced.handleCreate {w : World} (h : Referenced w) (c : Client) {id : ObjId}
    (hid : (w.objects id).isSome) (handle : Option Handle) :
    Referenced (drmGemHandleCreate w c id handle).2 := by
  unfold drmGemHandleCreate
  split
  · exact h
  · rename_i hd
    split
    · exact h
    · refine ⟨fun id' obj hobj ↦ ?_, fun id' obj hobj ↦ ?_, fun e he ↦ ?_, fun e he ↦ ?_⟩
      · obtain ⟨obj₀, h₀, rfl⟩ := World.modify_objects_eq_some hobj
        have hrefs := h.refCount_eq id' obj₀ h₀
        rw [drmGemObjectGet, World.modify_handlesOf, World.handlesOf, List.countP_cons]
        rw [World.handlesOf] at hrefs
        by_cases heq : id' = id
        · simp only [heq, ↓reduceIte, decide_true] at hrefs ⊢; omega
        · simp only [heq, Ne.symm heq, ↓reduceIte, decide_false, Bool.false_eq_true] at hrefs ⊢
          exact hrefs
      · obtain ⟨obj₀, h₀, rfl⟩ := World.modify_objects_eq_some hobj
        have := h.frees_eq id' obj₀ h₀
        split <;> exact this
      · rw [drmGemObjectGet, World.modify_isSome]
        rcases List.mem_cons.mp he with rfl | he
        · exact hid
        · exact h.handles_mem e he
      · rw [drmGemObjectGet, World.modify_isSome]; exact h.maps_mem e he

/-- A destroyed handle takes its reference with it, and leaves the creation's. -/
theorem Referenced.handleDelete {w : World} (h : Referenced w) (c : Client) (hd : Handle) :
    Referenced (drmGemHandleDelete mygemDriver w c hd) := by
  unfold drmGemHandleDelete
  split
  · exact h
  · rename_i entry hfind
    have hmem : entry ∈ w.handles := List.mem_of_find?_eq_some hfind
    have hcount : ∀ id', w.handlesOf id' =
        (w.handles.erase entry).countP (·.2 = id') + if entry.2 = id' then 1 else 0 := by
      intro id'
      rw [World.handlesOf, (List.perm_cons_erase hmem).countP_eq, List.countP_cons]
      simp
    refine ⟨fun id' obj hobj ↦ ?_, fun id' obj hobj ↦ ?_, fun e he ↦ ?_, fun e he ↦ ?_⟩
    · obtain ⟨obj₀, h₀, rfl⟩ := World.modify_objects_eq_some hobj
      have hrefs := h.refCount_eq id' obj₀ h₀
      rw [hcount] at hrefs
      show (if id' = entry.2 then _ else _ : CmaObject).refCount =
        1 + (w.handles.erase entry).countP (·.2 = id') + (if id' = entry.2 then _ else _ :
          CmaObject).mmapRefs
      by_cases heq : id' = entry.2
      · rw [if_pos heq.symm] at hrefs
        rw [if_pos heq]
        split
        · omega
        · show obj₀.refCount - 1 = _ + obj₀.mmapRefs
          omega
      · rw [if_neg (Ne.symm heq)] at hrefs
        rw [if_neg heq]
        omega
    · obtain ⟨obj₀, h₀, rfl⟩ := World.modify_objects_eq_some hobj
      have := h.frees_eq id' obj₀ h₀
      split
      · split <;> exact this
      · exact this
    · rw [drmGemObjectPut, World.modify_isSome]
      exact h.handles_mem e (List.mem_of_mem_erase he)
    · rw [drmGemObjectPut, World.modify_isSome]; exact h.maps_mem e he

/-- Mappings are no part of the account as long as they name objects. -/
theorem Referenced.withMaps {w : World} (h : Referenced w) {maps : List (MapId × ObjId)}
    (hmaps : ∀ e ∈ maps, (w.objects e.2).isSome) : Referenced { w with maps := maps } :=
  ⟨h.refCount_eq, h.frees_eq, h.handles_mem, hmaps⟩

theorem Referenced.dumbCreate {w : World} (h : Referenced w) (c : Client) (args : DumbArgs)
    (o : CreateOutcome) : Referenced (drmGemCmaDumbCreate w c args o).2 := by
  unfold drmGemCmaDumbCreate
  split
  · exact h
  · split
    · exact h
    · rename_i id hk
      split
      · exact h
      · rename_i hnew
        have hnone : w.objects id = none := by simpa using hnew
        have hinit := h.objectInit hnone args.size o.init
        have hsome : ((drmGemObjectInit w id args.size o.init).objects id).isSome := by
          simp [drmGemObjectInit]
        have hhandle := hinit.handleCreate c hsome o.handle
        simp only [dmaAllocWc]
        split
        · exact hhandle
        · exact hhandle.modify id (fun _ ↦ rfl) (fun _ ↦ rfl)

theorem Referenced.mmap {w : World} (h : Referenced w) (m : MapId) (o : MmapOutcome) :
    Referenced (drmGemCmaMmap w m o).2 := by
  unfold drmGemCmaMmap
  split
  · exact h
  · rename_i id htarget
    split
    · exact h
    · rename_i obj hobj
      have hget := h.modify id
        (f := fun obj ↦ { obj with refCount := obj.refCount + 1, mmapRefs := obj.mmapRefs + 1 })
        (fun o ↦ by simp only; omega) (fun _ ↦ rfl)
      simp only
      split
      · refine hget.withMaps fun e he ↦ ?_
        rcases List.mem_cons.mp he with rfl | he
        · rw [World.modify_isSome]; simp [hobj]
        · exact hget.maps_mem e he
      · exact hget

/-- **Every call keeps the account.** -/
theorem Referenced.step {w w' : World} {a : Action} (h : Referenced w)
    (hstep : machine.step w a = some w') : Referenced w' := by
  cases a <;> obtain rfl := Option.some_inj.mp hstep
  case dumbCreate c args o => exact h.dumbCreate c args o
  case destroyHandle c hd => exact h.handleDelete c hd
  case mmap m o => exact h.mmap m o
  case fork m m' =>
    unfold forkMapping
    split
    · exact h
    · rename_i entry hfind
      refine h.withMaps fun e he ↦ ?_
      rcases List.mem_cons.mp he with rfl | he
      · exact h.maps_mem entry (List.mem_of_find?_eq_some hfind)
      · exact h.maps_mem e he
  case munmap m =>
    unfold munmap
    split
    · exact h
    · exact h.withMaps fun e he ↦ h.maps_mem e (List.mem_of_mem_erase he)

theorem referenced_mygemInit : Referenced mygemInit := by
  constructor <;> simp [mygemInit]

/-- The account holds in every state of every run. -/
theorem referenced_of_run {ok : World → Action → Prop} {as : List Action} {w : World}
    (hrun : machine.Run ok mygemInit as w) : Referenced w :=
  hrun.invariant (fun _ _ _ hI _ hstep ↦ hI.step hstep) referenced_mygemInit

/-! ## The intended account -/

/-- What a creating call leaves behind: an object with no mapping. -/
theorem dumbCreate_object {w : World} {c : Client} {args : DumbArgs} {o : CreateOutcome}
    {id : ObjId}
    (hk : o.kzalloc = some id) (hnew : w.objects id = none) (hsize : args.size % pageSize = 0) :
    (drmGemCmaDumbCreate w c args o).2.maps = w.maps ∧
      ∃ obj, (drmGemCmaDumbCreate w c args o).2.objects id = some obj ∧ obj.mmapRefs = 0 := by
  have hhandle :
      (drmGemHandleCreate (drmGemObjectInit w id args.size o.init) c id o.handle).2.maps = w.maps ∧
      ∃ obj, (drmGemHandleCreate (drmGemObjectInit w id args.size o.init) c id
        o.handle).2.objects id = some obj ∧ obj.mmapRefs = 0 := by
    unfold drmGemHandleCreate
    split
    · exact ⟨rfl, by simp [drmGemObjectInit]⟩
    · split
      · exact ⟨rfl, by simp [drmGemObjectInit]⟩
      · exact ⟨rfl, by simp [drmGemObjectInit, drmGemObjectGet, World.modify]⟩
  obtain ⟨hmaps, obj, hobj, hrefs⟩ := hhandle
  simp only [drmGemCmaDumbCreate, hk, hnew, Option.isSome_none, Bool.false_eq_true, ↓reduceIte,
    hsize, ne_eq, not_true_eq_false, dmaAllocWc]
  split
  · exact ⟨hmaps, obj, hobj, hrefs⟩
  · rename_i a _
    refine ⟨hmaps, { obj with paddr := a, vaddr := .obj a }, ?_, hrefs⟩
    rw [World.modify_objects, Function.update_self, hobj]
    rfl

/-- After a creating call the new object has a reference that nobody will drop. -/
theorem not_accounted_of_creates {w w' : World} {a : Action} (h : Referenced w)
    (hc : Creates w a) (hstep : machine.step w a = some w') : ¬ Accounted w' := by
  intro hacc
  have hrefs := h.step hstep
  cases a with
  | dumbCreate c args o =>
    obtain ⟨id, hk, hnew, hsize⟩ := hc
    obtain rfl := Option.some_inj.mp hstep
    obtain ⟨hmaps, obj, hobj, hzero⟩ := dumbCreate_object (c := c) hk hnew hsize
    have hunmapped : (drmGemCmaDumbCreate w c args o).2.mapsOf id = 0 := by
      rw [World.mapsOf, hmaps, List.countP_eq_zero]
      intro e he heq
      have := h.maps_mem e he
      rw [of_decide_eq_true heq, hnew] at this
      exact absurd this (by simp)
    have hkept := hrefs.refCount_eq id obj hobj
    have hwanted := (hacc id obj hobj).refCount_eq
    omega
  | _ => exact hc

/-- A run that creates nothing has no objects. -/
theorem objects_eq_none {as : List Action} {w : World}
    (hrun : machine.Run (fun v a ↦ ¬ Creates v a) mygemInit as w) (id : ObjId) :
    w.objects id = none := by
  refine hrun.invariant (I := fun v ↦ ∀ id, v.objects id = none) ?_ (fun _ ↦ rfl) id
  intro v a v' hv hok hstep
  have hmodify : ∀ {u : World} {i : ObjId} {f : CmaObject → CmaObject},
      (∀ j, u.objects j = none) → ∀ j, (u.modify i f).objects j = none := by
    intro u i f hu j
    rw [World.modify_objects, Function.update_apply, hu, hu]
    split <;> rfl
  cases a <;> obtain rfl := Option.some_inj.mp hstep
  case dumbCreate c args o =>
    unfold drmGemCmaDumbCreate
    split
    · exact hv
    · rename_i hsize
      split
      · exact hv
      · rename_i i hk
        split
        · exact hv
        · exact absurd ⟨i, hk, hv i, not_not.mp hsize⟩ hok
  case destroyHandle c hd =>
    unfold drmGemHandleDelete
    split
    · exact hv
    · exact hmodify hv
  case mmap m o =>
    unfold drmGemCmaMmap
    split
    · exact hv
    · rw [hv]; exact hv
  case fork m m' =>
    unfold forkMapping
    split <;> exact hv
  case munmap m =>
    unfold munmap
    split <;> exact hv

/-- **Reference accounting of my-gem-cma.**  In a run of any number of clients, the reference
count of every object is the number of its open handles and live mappings after every call, and
every object is freed once both are gone, if and only if no call of the run creates an object. -/
theorem accounted_iff {as : List Action} {w : World}
    (hrun : machine.Run Machine.free mygemInit as w) :
    (∀ bs v, bs <+: as → machine.Run Machine.free mygemInit bs v → Accounted v) ↔
      machine.Run (fun v a ↦ ¬ Creates v a) mygemInit as w := by
  refine hrun.forall_take_iff (fun bs v hv id obj hobj ↦ ?_) fun bs v a v' hv hstep hc ↦ ?_
  · rw [objects_eq_none hv] at hobj
    exact absurd hobj (by simp)
  · exact not_accounted_of_creates (referenced_of_run hv) (not_not.mp hc) hstep

/-- The requests of the test program: a 240 by 320 buffer of 32 bits per pixel. -/
def testArgs : DumbArgs := ⟨240, 320, 32⟩

/-- The test program's run up to its second `munmap`: create, map, unmap, map, unmap. -/
def testRun : List Action :=
  [.dumbCreate 0 testArgs ⟨some 7, true, some 1, some 4096⟩, .mmap 0 ⟨some 7, true⟩, .munmap 0,
    .mmap 1 ⟨some 7, true⟩, .munmap 1]

/-- The test program loses the account: with one handle open and nothing mapped, the object has
four references. -/
theorem testRun_not_accounted : ∃ w obj, machine.exec mygemInit testRun = some w ∧
    w.objects 7 = some obj ∧ obj.refCount = 4 ∧ w.handlesOf 7 = 1 ∧ w.mapsOf 7 = 0 ∧
      ¬ Accounted w :=
  ⟨_, _, rfl, rfl, rfl, rfl, rfl, fun h ↦ absurd (h 7 _ rfl).refCount_eq (by decide)⟩

/-- A client without memory for an object, which goes on as if it had one. -/
def attempts : List Action :=
  [.dumbCreate 0 testArgs ⟨none, true, some 1, some 4096⟩, .mmap 0 ⟨some 7, true⟩, .fork 0 1,
    .munmap 0, .destroyHandle 0 1]

/-- Calls that come to nothing keep the account, and those of the test program do not. -/
theorem accounted_iff_no_objects :
    (∃ w, machine.exec mygemInit attempts = some w ∧
      ((∀ bs v, bs <+: attempts → machine.Run Machine.free mygemInit bs v → Accounted v) ↔
        machine.Run (fun v a ↦ ¬ Creates v a) mygemInit attempts w)) ∧
    ∃ w, machine.exec mygemInit testRun = some w ∧
      ((∀ bs v, bs <+: testRun → machine.Run Machine.free mygemInit bs v → Accounted v) ↔
        machine.Run (fun v a ↦ ¬ Creates v a) mygemInit testRun w) :=
  ⟨⟨_, rfl, accounted_iff (Machine.exec_eq_some_iff.mp rfl)⟩,
    ⟨_, rfl, accounted_iff (Machine.exec_eq_some_iff.mp rfl)⟩⟩

end Gem
