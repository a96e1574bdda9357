import SampleDrivers.DmaBuf.Callbacks
import SampleDrivers.Lib.Transition

/-!
# CPU access while devices are attached

Devices attach to a buffer, map it, unmap it and detach; in between the CPU announces its accesses
with `begin_cpu_access` and `end_cpu_access`, which read the `priv` of the first attachment and
take it for a scatter table.  Nobody ever writes that field: the core clears it when it creates the
attachment, and neither `attach` nor `map_dma_buf` of the exporters stores the table there.

* `machine b` — any sequence of these calls on the buffer `b`, of either exporter.
* `World.mapped` — the tables each attachment has mapped and not yet unmapped.
* `Kept` — what every call preserves: the `priv` of every attachment is `NULL`.
* `exactGuard_notWild` — the callbacks are safe exactly as long as they are called without a device
  attached; `cpuAccess_nullDeref` is how an access with a device attached ends.
-/

set_option autoImplicit false

namespace DmaBuf.CpuAccess

open Kernel

/-- A kernel, and what has happened to the buffer looked at. -/
structure World where
  k : KState
  /-- The attachments and tables that `map_dma_buf` returned and `unmap_dma_buf` has not freed. -/
  mapped : List (ℕ × Addr)
  /-- A CPU access has dereferenced something else than a live table of the first attachment: the
  callback got stuck on it, or it is not that attachment's. -/
  wild : Bool

/-- A call on the buffer. -/
inductive Action
  | attach (id dev : ℕ)
  | detach (id : ℕ)
  | map (id : ℕ) (dir : DmaDir) (o : MapOutcome)
  | unmap (id : ℕ) (table : Addr) (dir : DmaDir)
  | beginCpuAccess (dir : DmaDir)
  | endCpuAccess (dir : DmaDir)

/-- Change the attachments of a buffer. -/
def setAttachments (k : KState) (b : BufId) (buf : Buf) (attachments : List Attachment) : KState :=
  { k with bufs := Function.update k.bufs b (some { buf with attachments := attachments }) }

/-- `dma_buf_attach`: the attachment is cleared, the `attach` of the exporters does nothing, and
`list_add` puts it first. -/
def dmaBufAttach (k : KState) (b : BufId) (buf : Buf) (id dev : ℕ) : KState :=
  setAttachments k b buf (⟨id, dev, .null⟩ :: buf.attachments)

/-- `dma_buf_detach`. -/
def dmaBufDetach (k : KState) (b : BufId) (buf : Buf) (id : ℕ) : KState :=
  setAttachments k b buf (buf.attachments.filter fun attachment ↦ attachment.id ≠ id)

/-- The first attachment, if there is one, has a live table of its own in its `priv`. -/
def FirstMapped (mapped : List (ℕ × Addr)) : List Attachment → Prop
  | [] => True
  | attachment :: _ => ∃ a, attachment.priv = .addr a ∧ (attachment.id, a) ∈ mapped

instance (mapped : List (ℕ × Addr)) (attachments : List Attachment) :
    Decidable (FirstMapped mapped attachments) :=
  match attachments with
  | [] => isTrue trivial
  | attachment :: _ =>
    match h : attachment.priv with
    | .addr a => decidable_of_iff ((attachment.id, a) ∈ mapped) (by simp [FirstMapped, h])
    | .null => isFalse (by simp [FirstMapped, h])
    | .zeroSize => isFalse (by simp [FirstMapped, h])

/-- The table a call of `map_dma_buf` returned, if it returned one. -/
def mappedTable (x : KProg (Ptr KPtr)) (k : KState) : Option Addr :=
  match x.result k with
  | some (.obj (.addr a)) => some a
  | _ => none

/-- A CPU access: run the callback, and note whether it got stuck, or went by an attachment that has
no live table of its own. -/
def World.access (w : World) (buf : Buf) (x : KProg ℤ) : World :=
  { w with
    k := x.final w.k
    wild := w.wild || (x.result w.k).isNone || decide (¬ FirstMapped w.mapped buf.attachments) }

/-- The calls the core and the importers make on the buffer `b`: a device is attached once, maps
while it is attached, and unmaps what it has mapped. -/
def machine (b : BufId) : Machine World Action where
  step w a :=
    (w.k.bufs b).bind fun buf ↦
      match a with
      | .attach id dev =>
        if id ∈ buf.attachments.map Attachment.id then none
        else some { w with k := dmaBufAttach w.k b buf id dev }
      | .detach id =>
        if id ∈ buf.attachments.map Attachment.id then
          some { w with k := dmaBufDetach w.k b buf id }
        else none
      | .map id dir o =>
        if id ∈ buf.attachments.map Attachment.id then
          some { w with
            k := (buf.ops.mapDmaBuf buf dir o).final w.k
            mapped := ((mappedTable (buf.ops.mapDmaBuf buf dir o) w.k).map (id, ·)).toList ++
              w.mapped }
        else none
      | .unmap id table dir =>
        if (id, table) ∈ w.mapped then
          some { w with
            k := (buf.ops.unmapDmaBuf (.addr table) dir).final w.k
            mapped := w.mapped.erase (id, table) }
        else none
      | .beginCpuAccess dir => some (w.access buf (buf.ops.beginCpuAccess buf dir))
      | .endCpuAccess dir => some (w.access buf (buf.ops.endCpuAccess buf dir))

/-- The buffer `b` is live and nobody has attached to it yet. -/
def Init (b : BufId) (w : World) : Prop :=
  (∃ buf, w.k.bufs b = some buf ∧ buf.attachments = []) ∧ w.mapped = [] ∧ w.wild = false

/-- Every CPU access so far has dereferenced a live table of the first attachment, if anything. -/
def NotWild (w : World) : Prop := w.wild = false

instance : DecidablePred NotWild := fun w ↦ inferInstanceAs (Decidable (w.wild = false))

/-- The CPU accesses the buffer while no device is attached. -/
def Unattached (b : BufId) (w : World) : Action → Prop
  | .beginCpuAccess _ => ∀ buf, w.k.bufs b = some buf → buf.attachments = []
  | .endCpuAccess _ => ∀ buf, w.k.bufs b = some buf → buf.attachments = []
  | _ => True

/-! ## What the calls preserve -/

/-- The attachments of the buffer have no `priv`, and no access was wild. -/
structure Kept (b : BufId) (w : World) : Prop where
  priv_null : ∀ buf, w.k.bufs b = some buf → ∀ a ∈ buf.attachments, a.priv = .null
  notWild : NotWild w

theorem bufs_final {α : Type} {x : KProg α} (h : Prog.Keeps KState.memory x) (k : KState) :
    (x.final k).bufs = k.bufs :=
  congrArg (fun m ↦ m.2.2.2.2) (h.final k)

/-- The exporters differ in the number of entries only. -/
theorem beginCpuAccess_eq (ops : Ops) : ∃ nents, ops.beginCpuAccess = cpuAccess true nents := by
  rcases ops with _ | _
  · exact ⟨_, rfl⟩
  · exact ⟨_, rfl⟩

theorem endCpuAccess_eq (ops : Ops) : ∃ nents, ops.endCpuAccess = cpuAccess false nents := by
  rcases ops with _ | _
  · exact ⟨_, rfl⟩
  · exact ⟨_, rfl⟩

/-- A CPU access that finds no attachment dereferences nothing. -/
theorem cpuAccess_of_nil {buf : Buf} (hatt : buf.attachments = []) (forCpu : Bool)
    (nents : SgTable → ℕ) (dir : DmaDir) (k : KState) :
    cpuAccess forCpu nents buf dir k = .ok 0 k := by
  rw [cpuAccess, hatt]
  rfl

/-- A CPU access that finds a first attachment without a `priv` dereferences `NULL`. -/
theorem cpuAccess_nullDeref {k : KState} {buf : Buf} {a : Attachment} {as : List Attachment}
    (hatt : buf.attachments = a :: as) (hpriv : a.priv = .null) (forCpu : Bool)
    (nents : SgTable → ℕ) (dir : DmaDir) :
    cpuAccess forCpu nents buf dir k = .error .nullDeref k := by
  rw [cpuAccess, hatt]
  simp only [hpriv]
  rfl

section

variable {b : BufId} {w : World} {buf : Buf}

/-- No attachment of the buffer has a `priv`. -/
def PrivNull (b : BufId) (w : World) : Prop :=
  ∀ buf, w.k.bufs b = some buf → ∀ a ∈ buf.attachments, a.priv = .null

/-- Changing the attachments to others without a `priv`. -/
theorem PrivNull.setAttachments {attachments : List Attachment}
    (hpriv : ∀ a ∈ attachments, a.priv = .null) :
    PrivNull b { w with k := CpuAccess.setAttachments w.k b buf attachments } := by
  intro buf' hbuf' a ha
  have hself : (CpuAccess.setAttachments w.k b buf attachments).bufs b =
      some { buf with attachments := attachments } := Function.update_self ..
  rw [hself, Option.some_inj] at hbuf'
  subst hbuf'
  exact hpriv a ha

/-- Running a callback, whatever becomes mapped or wild by it. -/
theorem PrivNull.callback (h : PrivNull b w) {α : Type} {x : KProg α}
    (hx : Prog.Keeps KState.memory x) (mapped : List (ℕ × Addr)) (wild : Bool) :
    PrivNull b ⟨x.final w.k, mapped, wild⟩ := by
  intro buf' hbuf'
  rw [bufs_final hx] at hbuf'
  exact h buf' hbuf'

/-- **Every call keeps the attachments without a `priv`.** -/
theorem PrivNull.step {a : Action} {w' : World} (h : PrivNull b w)
    (hstep : (machine b).step w a = some w') : PrivNull b w' := by
  obtain ⟨buf, hbuf, hstep⟩ := Option.bind_eq_some_iff.mp hstep
  have hpriv := h buf hbuf
  cases a with
  | attach id dev =>
    obtain ⟨-, ⟨⟩⟩ := Option.ite_none_left_eq_some.mp hstep
    refine PrivNull.setAttachments fun a ha ↦ ?_
    rcases List.mem_cons.mp ha with rfl | ha
    · rfl
    · exact hpriv a ha
  | detach id =>
    obtain ⟨-, ⟨⟩⟩ := Option.ite_none_right_eq_some.mp hstep
    exact PrivNull.setAttachments fun a ha ↦ hpriv a (List.mem_of_mem_filter ha)
  | map id dir o =>
    obtain ⟨-, ⟨⟩⟩ := Option.ite_none_right_eq_some.mp hstep
    exact h.callback (keeps_mapDmaBuf _ _ _ _) _ _
  | unmap id table dir =>
    obtain ⟨-, ⟨⟩⟩ := Option.ite_none_right_eq_some.mp hstep
    exact h.callback (keeps_unmapDmaBuf _ _ _) _ _
  | beginCpuAccess dir =>
    obtain rfl := Option.some_inj.mp hstep
    obtain ⟨nents, hnents⟩ := beginCpuAccess_eq buf.ops
    exact h.callback (hnents ▸ keeps_cpuAccess _ _ _ _) _ _
  | endCpuAccess dir =>
    obtain rfl := Option.some_inj.mp hstep
    obtain ⟨nents, hnents⟩ := endCpuAccess_eq buf.ops
    exact h.callback (hnents ▸ keeps_cpuAccess _ _ _ _) _ _

/-- A CPU access without a device attached dereferences nothing. -/
theorem notWild_access (h : NotWild w) (hnone : buf.attachments = []) (forCpu : Bool)
    (nents : SgTable → ℕ) (dir : DmaDir) :
    NotWild (w.access buf (cpuAccess forCpu nents buf dir)) := by
  have hwild : w.wild = false := h
  have hresult : (cpuAccess forCpu nents buf dir).result w.k = some 0 := by
    rw [Prog.result, cpuAccess_of_nil hnone]
  simp [NotWild, World.access, hwild, hresult, hnone, FirstMapped]

theorem notWild_step {a : Action} {w' : World} (h : NotWild w) (hok : Unattached b w a)
    (hstep : (machine b).step w a = some w') : NotWild w' := by
  obtain ⟨buf, hbuf, hstep⟩ := Option.bind_eq_some_iff.mp hstep
  cases a with
  | attach id dev =>
    obtain ⟨-, ⟨⟩⟩ := Option.ite_none_left_eq_some.mp hstep
    exact h
  | detach id =>
    obtain ⟨-, ⟨⟩⟩ := Option.ite_none_right_eq_some.mp hstep
    exact h
  | map id dir o =>
    obtain ⟨-, ⟨⟩⟩ := Option.ite_none_right_eq_some.mp hstep
    exact h
  | unmap id table dir =>
    obtain ⟨-, ⟨⟩⟩ := Option.ite_none_right_eq_some.mp hstep
    exact h
  | beginCpuAccess dir =>
    obtain rfl := Option.some_inj.mp hstep
    obtain ⟨nents, hnents⟩ := beginCpuAccess_eq buf.ops
    exact hnents ▸ notWild_access h (hok buf hbuf) true nents dir
  | endCpuAccess dir =>
    obtain rfl := Option.some_inj.mp hstep
    obtain ⟨nents, hnents⟩ := endCpuAccess_eq buf.ops
    exact hnents ▸ notWild_access h (hok buf hbuf) false nents dir

/-- A CPU access with a device attached: the `priv` it dereferences is `NULL`. -/
theorem Kept.access_wild (h : Kept b w) (hbuf : w.k.bufs b = some buf)
    (hsome : buf.attachments ≠ []) (forCpu : Bool) (nents : SgTable → ℕ) (dir : DmaDir) :
    ¬ NotWild (w.access buf (cpuAccess forCpu nents buf dir)) := by
  obtain ⟨a, as, hatt⟩ := List.exists_cons_of_ne_nil hsome
  have hpriv : a.priv = .null := h.priv_null buf hbuf a (by simp [hatt])
  have hresult : (cpuAccess forCpu nents buf dir).result w.k = none := by
    rw [Prog.result, cpuAccess_nullDeref hatt hpriv]
  simp [NotWild, World.access, hresult]

theorem privNull_of_init (h : Init b w) : PrivNull b w := by
  obtain ⟨⟨buf, hbuf, hnone⟩, -, -⟩ := h
  intro buf' hbuf' a ha
  rw [hbuf, Option.some_inj] at hbuf'
  subst hbuf'
  rw [hnone] at ha
  exact absurd ha List.not_mem_nil

theorem kept_of_init (h : Init b w) : Kept b w := ⟨privNull_of_init h, h.2.2⟩

theorem Kept.step {a : Action} {w' : World} (h : Kept b w) (hok : Unattached b w a)
    (hstep : (machine b).step w a = some w') : Kept b w' :=
  ⟨PrivNull.step h.priv_null hstep, notWild_step h.notWild hok hstep⟩

/-- A CPU access with a device attached is wild. -/
theorem Kept.step_wild {a : Action} {w' : World} (h : Kept b w) (hok : ¬ Unattached b w a)
    (hstep : (machine b).step w a = some w') : ¬ NotWild w' := by
  obtain ⟨buf, hbuf, hstep⟩ := Option.bind_eq_some_iff.mp hstep
  cases a with
  | beginCpuAccess dir =>
    obtain rfl := Option.some_inj.mp hstep
    obtain ⟨nents, hnents⟩ := beginCpuAccess_eq buf.ops
    refine hnents ▸ h.access_wild hbuf (fun hnone ↦ hok fun buf' hbuf' ↦ ?_) true nents dir
    exact Option.some_inj.mp (hbuf.symm.trans hbuf') ▸ hnone
  | endCpuAccess dir =>
    obtain rfl := Option.some_inj.mp hstep
    obtain ⟨nents, hnents⟩ := endCpuAccess_eq buf.ops
    refine hnents ▸ h.access_wild hbuf (fun hnone ↦ hok fun buf' hbuf' ↦ ?_) false nents dir
    exact Option.some_inj.mp (hbuf.symm.trans hbuf') ▸ hnone
  | attach => exact absurd trivial hok
  | detach => exact absurd trivial hok
  | map => exact absurd trivial hok
  | unmap => exact absurd trivial hok

end

/-- **The CPU-access callbacks** of both exporters, in any sequence of calls on a buffer: as long as
they are called only while no device is attached, they dereference nothing; and a call made while
one is attached dereferences something that is not a live table of the first attachment. -/
theorem exactGuard_notWild (b : BufId) :
    (machine b).ExactGuard (Init b) NotWild (Unattached b) :=
  .of_invariant (I := Kept b) (fun _ h ↦ kept_of_init h)
    (fun _ _ _ h hok hstep ↦ h.step hok hstep) (fun _ h ↦ h.notWild)
    (fun _ _ _ h hstep hok ↦ .now (h.step_wild hok hstep))

/-- A kernel with one buffer, of one page. -/
def onePageBuffer (ops : Ops) (priv : Priv) : World where
  k := { KState.boot with
    pages := {5}
    heap := Function.update (fun _ ↦ none) 7 (some (.ionData ⟨16, some 1, fun _ ↦ .page 5⟩))
    bufs := Function.update (fun _ ↦ none) 0 (some ⟨ops, 4096, priv, []⟩) }
  mapped := []
  wild := false

/-- A device attaches to a buffer and maps it, and the CPU announces an access: in both exporters
it does not dereference the table that was mapped. -/
theorem attach_map_access_wild :
    (∃ w, (machine 0).exec (onePageBuffer .page (.page 5))
        [.attach 1 1, .map 1 .bidirectional ⟨some 8, some 9, [], 4096⟩, .beginCpuAccess .toDevice] =
          some w ∧ (1, 8) ∈ w.mapped ∧ ¬ NotWild w) ∧
      ∃ w, (machine 0).exec (onePageBuffer .ion (.data (.addr 7)))
        [.attach 1 1, .map 1 .bidirectional ⟨some 8, some 9, [⟨4096, 4096⟩], 0⟩,
          .beginCpuAccess .toDevice] = some w ∧ (1, 8) ∈ w.mapped ∧ ¬ NotWild w :=
  ⟨⟨_, rfl, by decide, by decide⟩, ⟨_, rfl, by decide, by decide⟩⟩

end DmaBuf.CpuAccess
