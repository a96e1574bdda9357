import SampleDrivers.Gem.Geometry

/-!
# Creating a dumb buffer, all of it or nothing

`drm_gem_cma_dumb_create` acquires four things in a row: memory for the object, the object itself, a
handle for it, and its DMA memory.  It looks at the result of none of them, so that it has no
failure to report and nothing to take back.

* `Made` — the object is there with its file, its handle and its memory.
* `AllOrNothing` — a call returns 0 exactly if that is so, and otherwise an error and leaves the
  device as it was.
* `dumbCreate_objects`, `dumbCreate_handles` — what a call leaves behind that got past the core's
  assertion and has memory for the object.
* `dumbCreate_allOrNothing_iff` — the driver keeps its promise exactly if nothing fails.
-/

set_option autoImplicit false

namespace Gem

open Kernel

/-- A new object of the client, with a file, a new handle and memory. -/
def Made (w : World) (c : Client) (args : DumbArgs) (w' : World) : Prop :=
  ∃ id obj h a, w.objects id = none ∧ w'.objects id = some obj ∧ obj.size = args.size ∧
    obj.filp = true ∧ (c, h) ∉ w.handles.map Prod.fst ∧ ((c, h), id) ∈ w'.handles ∧
    obj.vaddr = .obj a ∧ obj.paddr = a

/-- What a call should do. -/
structure AllOrNothing (w : World) (c : Client) (args : DumbArgs) (r : Ends × World) : Prop where
  ret_zero : r.1 = .ret 0 ↔ Made w c args r.2
  undone : r.1 ≠ .ret 0 → ∃ e, e < 0 ∧ r.1 = .ret e ∧ r.2 = w

/-- Nothing fails: there is memory for an object, the size is a whole number of pages, the object
gets its file, the client has a free handle, and there is DMA memory. -/
structure Succeeds (w : World) (c : Client) (args : DumbArgs) (o : CreateOutcome) : Prop where
  kzalloc : ∃ id, o.kzalloc = some id ∧ w.objects id = none
  aligned : pageSize ∣ args.rowBits % 2 ^ 32 / 8 * args.height.toNat
  init : o.init = true
  handle : ∃ h, o.handle = some h ∧ (c, h) ∉ w.handles.map Prod.fst
  dma : ∃ a, o.dma = some a

section

variable {w : World} {c : Client} {args : DumbArgs} {o : CreateOutcome} {id : ObjId}

/-- What the core does not assert, and `kzalloc` does not deny, ends with 0. -/
theorem dumbCreate_eq (hk : o.kzalloc = some id) (hnew : w.objects id = none)
    (hsize : pageSize ∣ args.size) :
    drmGemCmaDumbCreate w c args o = (.ret 0, dmaAllocWc (drmGemHandleCreate
      (drmGemObjectInit w id args.size o.init) c id o.handle).2 id o.dma) := by
  rw [drmGemCmaDumbCreate, if_neg (not_not.mpr (Nat.mod_eq_zero_of_dvd hsize)), hk]
  simp only [hnew, Option.isSome_none, Bool.false_eq_true, ↓reduceIte]

/-- A handle changes nothing but the reference count of its object. -/
theorem drmGemHandleCreate_objects {obj : CmaObject} (hobj : w.objects id = some obj)
    (handle : Option Handle) :
    ∃ n, (drmGemHandleCreate w c id handle).2.objects =
      Function.update w.objects id (some { obj with refCount := n }) := by
  have hself : Function.update w.objects id (some { obj with refCount := obj.refCount }) =
      w.objects := by
    rw [← hobj, Function.update_eq_self]
  unfold drmGemHandleCreate
  split
  · exact ⟨obj.refCount, hself.symm⟩
  · split
    · exact ⟨obj.refCount, hself.symm⟩
    · refine ⟨obj.refCount + 1, ?_⟩
      show Function.update w.objects id ((w.objects id).map _) = _
      rw [hobj]
      rfl

/-- A handle that was free names an object afterwards if it is the one that was found. -/
theorem mem_drmGemHandleCreate_handles {handle : Option Handle} {h : Handle} {id' : ObjId}
    (hfree : (c, h) ∉ w.handles.map Prod.fst) :
    ((c, h), id') ∈ (drmGemHandleCreate w c id handle).2.handles ↔ handle = some h ∧ id' = id := by
  have hnot : ((c, h), id') ∉ w.handles := fun hmem ↦ hfree (List.mem_map_of_mem hmem)
  unfold drmGemHandleCreate
  cases handle with
  | none => simp [hnot]
  | some h' =>
    simp only
    split
    · rename_i htaken
      refine iff_of_false hnot ?_
      rintro ⟨⟨⟩, -⟩
      exact hfree htaken
    · show ((c, h), id') ∈ ((c, h'), id) :: w.handles ↔ _
      rw [List.mem_cons, or_iff_left hnot]
      simp only [Prod.mk.injEq, true_and, Option.some_inj]
      exact and_congr_left' eq_comm

/-- **What a call leaves behind**: one new object, with what the steps have put into it. -/
theorem dumbCreate_objects (hk : o.kzalloc = some id) (hnew : w.objects id = none)
    (hsize : pageSize ∣ args.size) :
    ∃ n, (drmGemCmaDumbCreate w c args o).2.objects = Function.update w.objects id (some
      { refCount := n, size := args.size, filp := o.init, paddr := o.dma.getD 0
        vaddr := o.dma.elim .null .obj, mmapRefs := 0, frees := 0 }) := by
  have hinit : (drmGemObjectInit w id args.size o.init).objects id = some
      ⟨1, args.size, o.init, 0, .null, 0, 0⟩ := Function.update_self ..
  obtain ⟨n, hn⟩ := drmGemHandleCreate_objects (c := c) hinit o.handle
  refine ⟨n, ?_⟩
  rw [dumbCreate_eq hk hnew hsize]
  rw [drmGemObjectInit_objects, Function.update_idem] at hn
  cases o.dma with
  | none => exact hn
  | some a =>
    rw [dmaAllocWc, World.modify_objects, hn, Function.update_self, Function.update_idem]
    rfl

/-- A handle that was free names an object if it was found for the new one. -/
theorem mem_dumbCreate_handles {h : Handle} {id' : ObjId} (hk : o.kzalloc = some id)
    (hnew : w.objects id = none) (hsize : pageSize ∣ args.size)
    (hfree : (c, h) ∉ w.handles.map Prod.fst) :
    ((c, h), id') ∈ (drmGemCmaDumbCreate w c args o).2.handles ↔ o.handle = some h ∧ id' = id := by
  rw [dumbCreate_eq hk hnew hsize]
  rw [← mem_drmGemHandleCreate_handles (w := drmGemObjectInit w id args.size o.init) hfree]
  cases o.dma with
  | none => rfl
  | some a => rfl

/-- A call that returns has made everything if and only if nothing failed. -/
theorem made_iff (hk : o.kzalloc = some id) (hnew : w.objects id = none)
    (hsize : pageSize ∣ args.size) :
    Made w c args (drmGemCmaDumbCreate w c args o).2 ↔ Succeeds w c args o := by
  obtain ⟨n, hn⟩ := dumbCreate_objects (c := c) hk hnew hsize
  constructor
  · rintro ⟨id', obj, h, a, hnew', hobj, -, hfilp, hfree, hmem, hvaddr, -⟩
    obtain ⟨hhandle, rfl⟩ := (mem_dumbCreate_handles hk hnew hsize hfree).mp hmem
    rw [hn, Function.update_self] at hobj
    obtain rfl := Option.some_inj.mp hobj
    refine ⟨⟨id', hk, hnew⟩, args.pageSize_dvd_size_iff.mp hsize, hfilp, ⟨h, hhandle, hfree⟩, ?_⟩
    cases hdma : o.dma with
    | none =>
      simp only [hdma, Option.elim_none, reduceCtorEq] at hvaddr
    | some b => exact ⟨b, rfl⟩
  · rintro ⟨-, -, hinit, ⟨h, hhandle, hfree⟩, ⟨a, hdma⟩⟩
    have hobj := congrFun hn id
    rw [Function.update_self, hdma, Option.elim_some, Option.getD_some] at hobj
    exact ⟨id, _, h, a, hnew, hobj, rfl, hinit, hfree,
      (mem_dumbCreate_handles hk hnew hsize hfree).mpr ⟨hhandle, rfl⟩, rfl, rfl⟩

/-- **All or nothing**: the driver returns 0 exactly if it has made everything, and takes back what
it has made otherwise, if and only if nothing fails. -/
theorem dumbCreate_allOrNothing_iff :
    AllOrNothing w c args (drmGemCmaDumbCreate w c args o) ↔ Succeeds w c args o := by
  by_cases hsize : pageSize ∣ args.size
  · by_cases hk : ∃ id, o.kzalloc = some id ∧ w.objects id = none
    · obtain ⟨id, hk, hnew⟩ := hk
      have hret : (drmGemCmaDumbCreate w c args o).1 = .ret 0 := by
        rw [dumbCreate_eq hk hnew hsize]
      rw [← made_iff hk hnew hsize]
      constructor
      · intro h
        exact h.ret_zero.mp hret
      · intro hmade
        exact ⟨iff_of_true hret hmade, fun hne ↦ absurd hret hne⟩
    · refine iff_of_false (fun h ↦ ?_) fun h ↦ hk h.kzalloc
      have hoops : (drmGemCmaDumbCreate w c args o).1 = .oops := by
        rw [drmGemCmaDumbCreate, if_neg (not_not.mpr (Nat.mod_eq_zero_of_dvd hsize))]
        split
        · rfl
        · rename_i id hid
          split
          · rfl
          · rename_i hnone
            exact absurd ⟨id, hid, by simpa using hnone⟩ hk
      obtain ⟨e, -, he, -⟩ := h.undone (hoops ▸ by decide)
      rw [hoops] at he
      cases he
  · refine iff_of_false (fun h ↦ ?_) fun h ↦ hsize (args.pageSize_dvd_size_iff.mpr h.aligned)
    have hbug := drmGemCmaDumbCreate_bug_iff (w := w) (c := c) (o := o) |>.mpr hsize
    obtain ⟨e, -, he, -⟩ := h.undone (hbug ▸ by decide)
    rw [hbug] at he
    cases he

end

/-- There is no DMA memory for the request of the test program: it is told that all is well, and has
a handle for an object without memory. -/
theorem dumbCreate_noMemory_not_allOrNothing :
    (drmGemCmaDumbCreate mygemInit 0 testArgs ⟨some 7, true, some 1, none⟩).1 = .ret 0 ∧
      ((0, 1), 7) ∈ (drmGemCmaDumbCreate mygemInit 0 testArgs
        ⟨some 7, true, some 1, none⟩).2.handles ∧
      ¬ AllOrNothing mygemInit 0 testArgs
        (drmGemCmaDumbCreate mygemInit 0 testArgs ⟨some 7, true, some 1, none⟩) := by
  refine ⟨by decide, by decide, fun h ↦ ?_⟩
  have hmade := h.ret_zero.mp (by decide)
  obtain ⟨a, ha⟩ := ((made_iff rfl rfl (by decide)).mp hmade).dma
  cases ha

end Gem
