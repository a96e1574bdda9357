import Mathlib.Logic.Function.Basic
import SampleDrivers.DmaBuf.Importers
import SampleDrivers.Lib.Transition

/-!
# What the importers leave behind

`importer_test2` of dma-buf/08 and `importer_test` of dma-buf/03 are the same function: they make a
device, give it a name, attach it to a buffer, map the attachment, and undo the last two of these
steps.  `importer_ioctl` of dma-buf/08 takes a reference to the buffer before and drops it
afterwards.  Nobody ever releases the device and its name.

* `World` — what is alive: the references and kernel mappings of the buffers, devices and their
  names, attachments with what is mapped through them.  A `Fault` stops a call for good: something
  is released that is not there, or an attachment is taken away while it is mapped.
* `World.lose` — a device and its name that nobody will release.
* `Harmless` — a call that does not get as far as having a device, nor is stopped by the core.
* `balanced_iff` — in a run of calls, all of them leave everything as they have found it if and only
  if all of them are harmless.
-/

set_option autoImplicit false

namespace DmaBuf.ImporterBalance

open Kernel Prog

/-! ## What is alive -/

/-- An attachment. -/
structure Attachment where
  buf : ℕ
  dev : ℕ
  /-- The tables that are mapped through it. -/
  tables : List Importers.VAddr

/-- Where a call is stopped. -/
inductive Fault
  /-- A `BUG_ON` of the core. -/
  | bug (b : Importers.Bug)
  /-- A reference is dropped that nobody has. -/
  | badPut
  /-- A table is unmapped that is not mapped. -/
  | badUnmap
  /-- An attachment is taken away that is not there, or is mapped. -/
  | badDetach

/-- The resources of the importers. -/
structure World where
  /-- For every `dma_buf`, its references and how often the kernel has it mapped. -/
  core : ℕ → Importers.CoreBuf
  devices : List ℕ
  /-- The devices that have a name. -/
  names : List ℕ
  attachments : ℕ → Option Attachment
  /-- The calls that were stopped. -/
  stopped : List Fault

/-- A function of the kernel or of an importer. -/
abbrev WorldProg := Prog World Fault

/-- The buffer with this identity changes. -/
def World.setCore (w : World) (buf : ℕ) (c : Importers.CoreBuf) : World :=
  { w with core := Function.update w.core buf c }

/-- The attachment with this address changes. -/
def World.setAttachment (w : World) (a : ℕ) (x : Option Attachment) : World :=
  { w with attachments := Function.update w.attachments a x }

/-- One reference more. -/
def World.taken (w : World) (buf : ℕ) : World :=
  w.setCore buf { w.core buf with fCount := (w.core buf).fCount + 1 }

/-- A device is there, and its name if there was memory for it. -/
def World.lose (w : World) (dev : ℕ) (named : Bool) : World :=
  { w with
    devices := dev :: w.devices
    names := if named then dev :: w.names else w.names }

/-- The memory found for a device; what is in use already cannot be found. -/
def World.memory (w : World) (o : Option ℕ) : Option ℕ := o.filter fun dev ↦ dev ∉ w.devices

/-! ## The kernel -/

/-- A `dma_buf`, and who has exported it. -/
structure Dmabuf where
  id : ℕ
  ops : Importers.Buffer

/-- `dma_buf_get`: the descriptor names a buffer, or there is an error. -/
def dmaBufGet (fd : Except ℤ Dmabuf) : WorldProg (Except ℤ Dmabuf) := do
  match fd with
  | .error e => return .error e
  | .ok d =>
    modify fun w ↦ w.taken d.id
    return .ok d

/-- `dma_buf_put`. -/
def dmaBufPut (d : Dmabuf) : WorldProg Unit := do
  let c := (← get).core d.id
  if c.fCount = 0 then throw .badPut
  modify fun w ↦ w.setCore d.id { c with fCount := c.fCount - 1 }

/-- `kzalloc` of a device. -/
def kzalloc (o : Option ℕ) : WorldProg (Option ℕ) := do
  match (← get).memory o with
  | none => return none
  | some dev =>
    modify fun w ↦ { w with devices := dev :: w.devices }
    return some dev

/-- `dev_set_name`, for which there may be no memory. -/
def devSetName (dev : ℕ) (named : Bool) : WorldProg Unit :=
  modify fun w ↦ { w with names := if named then dev :: w.names else w.names }

/-- `dma_buf_attach`: an attachment at this address, or an error. -/
def dmaBufAttach (d : Dmabuf) (dev : ℕ) (o : Except ℤ ℕ) : WorldProg (Except ℤ ℕ) := do
  match o with
  | .error e => return .error e
  | .ok a =>
    if ((← get).attachments a).isSome then return .error ENOMEM
    modify fun w ↦ w.setAttachment a (some ⟨d.id, dev, []⟩)
    return .ok a

/-- `dma_buf_map_attachment`, where `o` is what `map_dma_buf` returns. -/
def dmaBufMapAttachment (a : ℕ) (o : Ptr Importers.VAddr) :
    WorldProg (Except ℤ Importers.VAddr) := do
  match o with
  | .null => return .error ENOMEM
  | .err e => return .error e
  | .obj table =>
    modify fun w ↦ w.setAttachment a
      ((w.attachments a).map fun x ↦ { x with tables := table :: x.tables })
    return .ok table

/-- `dma_buf_unmap_attachment`. -/
def dmaBufUnmapAttachment (a : ℕ) (table : Importers.VAddr) : WorldProg Unit := do
  match (← get).attachments a with
  | none => throw .badUnmap
  | some x =>
    if table ∉ x.tables then throw .badUnmap
    modify fun w ↦ w.setAttachment a (some { x with tables := x.tables.erase table })

/-- `dma_buf_detach`. -/
def dmaBufDetach (d : Dmabuf) (a : ℕ) : WorldProg Unit := do
  match (← get).attachments a with
  | none => throw .badDetach
  | some x =>
    if x.buf ≠ d.id ∨ x.tables ≠ [] then throw .badDetach
    modify fun w ↦ w.setAttachment a none

/-- A function of the core that works on one buffer. -/
def onCore {α : Type} (buf : ℕ) (x : Importers.CoreProg α) : WorldProg α := fun w ↦
  match x ⟨w.core buf, []⟩ with
  | .ok r s => .ok r (w.setCore buf s.buf)
  | .error e s => .error (.bug e) (w.setCore buf s.buf)

/-! ## The importers -/

/-- What the kernel finds for the steps of a test. -/
structure TestOutcome where
  /-- The memory for the device. -/
  dev : Option ℕ
  /-- There is memory for its name. -/
  named : Bool
  /-- The attachment. -/
  attach : Except ℤ ℕ
  /-- What the exporter returns. -/
  map : Ptr Importers.VAddr

/-- Attach a new device to a buffer, map the attachment, and undo both. -/
def mapOnce (dmabuf : Option Dmabuf) (o : TestOutcome) : WorldProg ℤ := do
  match dmabuf with
  | none => return -EINVAL
  | some d =>
    match ← kzalloc o.dev with
    | none => return -ENOMEM
    | some dev =>
      -- From here on, the device is left behind whichever way the function returns.
      devSetName dev o.named
      match ← dmaBufAttach d dev o.attach with
      | .error e => return -e
      | .ok attachment =>
        match ← dmaBufMapAttachment attachment o.map with
        | .error e =>
          dmaBufDetach d attachment
          return -e
        | .ok table =>
          dmaBufUnmapAttachment attachment table
          dmaBufDetach d attachment
          return 0

/-- `importer_test` of dma-buf/03. -/
def importerTest (dmabuf : Option Dmabuf) (o : TestOutcome) : WorldProg ℤ := mapOnce dmabuf o

/-- `importer_test1` of dma-buf/08. -/
def importerTest1 (d : Dmabuf) (found : Importers.Outcome) : WorldProg ℤ :=
  onCore d.id (Importers.importerTest d.ops found)

/-- `importer_test2` of dma-buf/08. -/
def importerTest2 (dmabuf : Option Dmabuf) (o : TestOutcome) : WorldProg ℤ := mapOnce dmabuf o

/-- What the environment decides for one call of `importer_ioctl`. -/
structure Request where
  /-- The descriptor could be read. -/
  copied : Bool
  /-- The buffer it names, or an error number. -/
  fd : Except ℤ Dmabuf
  /-- What `importer_test1` finds. -/
  found : Importers.Outcome
  /-- What `importer_test2` finds. -/
  test : TestOutcome

/-- `importer_ioctl` of dma-buf/08. -/
def importerIoctl (r : Request) : WorldProg ℤ := do
  if r.copied = false then return -EFAULT
  match ← dmaBufGet r.fd with
  | .error e => return -e
  | .ok d =>
    let _ ← importerTest1 d r.found
    let _ ← importerTest2 (some d) r.test
    dmaBufPut d
    return 0

/-! ## Runs -/

/-- A call of one of the importers. -/
inductive Call
  /-- `importer_ioctl` of dma-buf/08. -/
  | ioctl (r : Request)
  /-- `importer_init` of dma-buf/03, for what `dmabuf_exported` is. -/
  | init (dmabuf : Option Dmabuf) (o : TestOutcome)

/-- What a call does. -/
def Call.prog : Call → WorldProg ℤ
  | .ioctl r => importerIoctl r
  | .init dmabuf o => importerTest dmabuf o

/-- The call is over: it has returned, or was stopped for good. -/
def World.after (w : World) (x : WorldProg ℤ) : World :=
  match x w with
  | .ok _ v => v
  | .error e v => { v with stopped := e :: v.stopped }

/-- One call after the other. -/
def machine : Machine World Call where
  step w a := some (w.after a.prog)

/-- `dma_buf_vmap` has an address for the buffer: the exporter sets `vmap`, and the buffer is mapped
already or the exporter maps it. -/
def Vmaps (c : Importers.CoreBuf) (b : Importers.Buffer) (o : Importers.Outcome) : Prop :=
  ∃ found, b.exporter.vmap b.priv o = some found ∧ (0 < c.vmappingCounter ∨ found.isSome)

/-- The call has no buffer; or it has one, there is no memory for a device, and the core does not
stop the first test. -/
def Harmless (w : World) : Call → Prop
  | .ioctl r => r.copied = true → ∀ d, r.fd = .ok d →
    Vmaps (w.core d.id) d.ops r.found ∧ w.memory r.test.dev = none
  | .init dmabuf o => dmabuf.isSome → w.memory o.dev = none

/-! ## What a call leaves behind -/

/-- What a test leaves behind: a device for which there was memory. -/
def World.afterTest (w : World) (o : TestOutcome) : World :=
  (w.memory o.dev).elim w fun dev ↦ w.lose dev o.named

/-- How much nobody will give back: devices, and calls that were stopped. -/
def World.lost (w : World) : ℕ := w.devices.length + w.stopped.length

section

variable {w : World} {buf a : ℕ} {c : Importers.CoreBuf} {x : Option Attachment}

@[simp] theorem setCore_core : (w.setCore buf c).core buf = c := Function.update_self ..

@[simp] theorem setCore_setCore {c' : Importers.CoreBuf} :
    (w.setCore buf c).setCore buf c' = w.setCore buf c' := by
  rw [World.setCore, World.setCore, World.setCore, Function.update_idem]

@[simp] theorem setCore_self : w.setCore buf (w.core buf) = w := by
  rw [World.setCore, Function.update_eq_self]

@[simp] theorem setAttachment_attachments : (w.setAttachment a x).attachments a = x :=
  Function.update_self ..

@[simp] theorem setAttachment_setAttachment {x' : Option Attachment} :
    (w.setAttachment a x).setAttachment a x' = w.setAttachment a x' := by
  rw [World.setAttachment, World.setAttachment, World.setAttachment, Function.update_idem]

/-- Taking away an attachment that was not there before. -/
theorem setAttachment_none (h : w.attachments a = none) : w.setAttachment a none = w := by
  rw [World.setAttachment, ← h, Function.update_eq_self]

theorem wp_onCore {α : Type} {y : Importers.CoreProg α} {Q : α → World → Prop}
    {E : Fault → World → Prop} :
    wp (onCore buf y) Q E w ↔ wp y (fun r s ↦ Q r (w.setCore buf s.buf))
      (fun e s ↦ E (.bug e) (w.setCore buf s.buf)) ⟨w.core buf, []⟩ := by
  simp only [wp, onCore]
  cases y ⟨w.core buf, []⟩ <;> rfl

@[simp] theorem afterTest_core {o : TestOutcome} : (w.afterTest o).core = w.core := by
  rw [World.afterTest]
  cases w.memory o.dev with
  | none => rfl
  | some dev => rfl

/-- A test has nothing to do with the references of a buffer. -/
theorem afterTest_setCore {o : TestOutcome} :
    (w.setCore buf c).afterTest o = (w.afterTest o).setCore buf c := by
  show ((w.memory o.dev).elim _ _ : World) = ((w.memory o.dev).elim _ _ : World).setCore buf c
  cases w.memory o.dev with
  | none => rfl
  | some dev => rfl

/-- A test that has got a device has lost it. -/
theorem lost_lt_afterTest {o : TestOutcome} (h : w.memory o.dev ≠ none) :
    w.lost < (w.afterTest o).lost := by
  obtain ⟨dev, hdev⟩ := Option.ne_none_iff_exists'.mp h
  rw [World.afterTest, hdev, World.lost, World.lost]
  show w.devices.length + w.stopped.length < w.devices.length + 1 + w.stopped.length
  omega

/-- Dropping a reference that was taken. -/
theorem wp_dmaBufPut {d : Dmabuf} {Q : Unit → World → Prop} {E : Fault → World → Prop} :
    wp (dmaBufPut d) Q E (w.taken d.id) ↔ Q () w := by
  simp only [dmaBufPut, World.taken, wp_bind, wp_get, setCore_core]
  rw [if_neg (Nat.succ_ne_zero _)]
  simp only [wp_modify, setCore_setCore, Nat.add_sub_cancel]
  show Q () (w.setCore d.id (w.core d.id)) ↔ Q () w
  rw [setCore_self]

/-- Where a call is over is where it returns, or where it is stopped. -/
theorem after_of_wp {P : World → Prop} {y : WorldProg ℤ}
    (h : wp y (fun _ ↦ P) (fun e v ↦ P { v with stopped := e :: v.stopped }) w) :
    P (w.after y) := by
  rw [wp] at h
  rw [World.after]
  cases hy : y w with
  | ok r v => rwa [hy] at h
  | error e v => rwa [hy] at h

/-- Taking away an attachment that was made and is not mapped. -/
theorem wp_dmaBufDetach {d : Dmabuf} {dev : ℕ} {Q : Unit → World → Prop} {E : Fault → World → Prop}
    (h : w.attachments a = none) :
    wp (dmaBufDetach d a) Q E (w.setAttachment a (some ⟨d.id, dev, []⟩)) ↔ Q () w := by
  simp only [dmaBufDetach, wp_bind, wp_get, setAttachment_attachments]
  rw [if_neg (by simp)]
  simp only [wp_modify, setAttachment_setAttachment, setAttachment_none h]

/-- Unmapping the table that was mapped last. -/
theorem wp_dmaBufUnmapAttachment {dev : ℕ} {table : Importers.VAddr} {tables : List Importers.VAddr}
    {Q : Unit → World → Prop} {E : Fault → World → Prop} :
    wp (dmaBufUnmapAttachment a table) Q E
      (w.setAttachment a (some ⟨buf, dev, table :: tables⟩)) ↔
        Q () (w.setAttachment a (some ⟨buf, dev, tables⟩)) := by
  simp only [dmaBufUnmapAttachment, wp_bind, wp_get, setAttachment_attachments]
  rw [if_neg (by simp)]
  simp only [wp_modify, setAttachment_setAttachment, List.erase_cons_head]

end

section

variable {w : World} {o : TestOutcome} {d : Dmabuf}

/-- Attaching, mapping and the way back leave nothing behind, wherever they fail. -/
theorem wp_mapOnce :
    wp (mapOnce (some d) o) (fun _ v ↦ v = w.afterTest o) (fun _ _ ↦ False) w := by
  rw [mapOnce, kzalloc, World.afterTest]
  simp only [wp_bind, wp_get]
  cases w.memory o.dev with
  | none => rfl
  | some dev =>
    simp only [wp_bind, wp_modify, wp_pure, devSetName, Option.elim_some]
    cases o.attach with
    | error e => rfl
    | ok a =>
      rw [dmaBufAttach]
      simp only [wp_bind, wp_get]
      split
      · rfl
      rename_i hused
      have hfree : (w.lose dev o.named).attachments a = none :=
        Option.not_isSome_iff_eq_none.mp hused
      simp only [wp_pure, wp_bind, wp_modify]
      show wp _ _ _ ((w.lose dev o.named).setAttachment a (some ⟨d.id, dev, []⟩))
      cases o.map with
      | null =>
        simp only [dmaBufMapAttachment, wp_pure, wp_bind]
        exact (wp_dmaBufDetach hfree).mpr rfl
      | err e =>
        simp only [dmaBufMapAttachment, wp_pure, wp_bind]
        exact (wp_dmaBufDetach hfree).mpr rfl
      | obj table =>
        simp only [dmaBufMapAttachment, wp_pure, wp_bind, wp_modify, setAttachment_attachments,
          Option.map_some, setAttachment_setAttachment, wp_dmaBufUnmapAttachment]
        exact (wp_dmaBufDetach hfree).mpr rfl

/-- `dma_buf_vunmap` of a buffer that was mapped once more undoes that. -/
theorem wp_dmaBufVunmap_mapped {k n : ℕ} {p : Importers.VAddr} {es : List Importers.Event}
    {E : Importers.Bug → Importers.State → Prop} :
    wp (Importers.dmaBufVunmap (some p))
      (fun _ t ↦ t.buf = ⟨k, if n = 0 then none else some p, n⟩) E ⟨⟨k, some p, n + 1⟩, es⟩ := by
  simp only [Importers.dmaBufVunmap, Importers.note, wp_bind, wp_modify, wp_get]
  rw [if_neg (by simp)]
  by_cases hn : n = 0
  · rw [if_pos (congrArg (· + 1) hn), if_pos hn, hn]
    rfl
  · rw [if_neg fun h ↦ hn (Nat.succ_inj.mp h), if_neg hn]
    rfl

/-- The kernel mapping of the first test is undone, unless the core stops it. -/
theorem wp_importerTest_buf {c : Importers.CoreBuf} {b : Importers.Buffer}
    {f : Importers.Outcome} (h : c.WellFormed) :
    wp (Importers.importerTest b f) (fun _ t ↦ Vmaps c b f ∧ t.buf = c)
      (fun _ t ↦ ¬ Vmaps c b f ∧ t.buf = c) ⟨c, []⟩ := by
  obtain ⟨k, ptr, n⟩ := c
  rw [Importers.CoreBuf.WellFormed] at h
  simp only [Importers.importerTest, Importers.dmaBufKmap, Importers.dmaBufKunmap, Importers.note,
    Importers.dmaBufVmap, wp_bind, wp_modify, wp_pure, Vmaps]
  cases b.exporter.vmap b.priv f with
  | none =>
    simp only [wp_bind, wp_modify, wp_pure]
    refine wp_of_fault Importers.wp_dmaBufVunmap_none fun _ t ht ↦ ⟨?_, ht.2⟩
    simp
  | some found =>
    simp only [wp_bind, wp_get]
    cases n with
    | zero =>
      have hptr : ptr = none := by simpa using h
      subst hptr
      rw [if_neg (by simp), if_neg (by simp)]
      cases found with
      | none =>
        rw [if_neg (by simp)]
        simp only [wp_bind, wp_modify, wp_pure]
        refine wp_of_fault Importers.wp_dmaBufVunmap_none fun _ t ht ↦ ⟨?_, ht.2⟩
        simp
      | some p =>
        rw [if_pos (by simp)]
        simp only [wp_bind, wp_modify, wp_pure]
        exact wp_imp wp_dmaBufVunmap_mapped fun _ t ht ↦ ⟨⟨_, rfl, .inr rfl⟩, ht⟩
    | succ n =>
      obtain ⟨p, rfl⟩ := Option.isSome_iff_exists.mp (h.mpr n.succ_pos)
      rw [if_pos (by simp), if_neg (by simp)]
      simp only [wp_bind, wp_modify, wp_pure]
      exact wp_imp wp_dmaBufVunmap_mapped fun _ t ht ↦ ⟨⟨_, rfl, .inl n.succ_pos⟩, ht⟩

/-- **`importer_ioctl`** gives the reference back and leaves a device behind, or is stopped with the
reference. -/
theorem wp_importerIoctl {r : Request} (hcopied : r.copied = true) (hfd : r.fd = .ok d)
    (h : (w.core d.id).WellFormed) :
    wp (importerIoctl r) (fun _ v ↦ Vmaps (w.core d.id) d.ops r.found ∧ v = w.afterTest r.test)
      (fun _ v ↦ ¬ Vmaps (w.core d.id) d.ops r.found ∧ v = w.taken d.id) w := by
  rw [importerIoctl, if_neg (by simp [hcopied]), hfd]
  simp only [dmaBufGet, importerTest1, importerTest2, wp_pure, wp_bind, wp_modify, wp_onCore]
  have hcore : (w.taken d.id).core d.id = { w.core d.id with fCount := (w.core d.id).fCount + 1 } :=
    setCore_core
  refine wp_mono (wp_importerTest_buf (by rwa [hcore])) (fun _ s hs ↦ ?_) fun _ s hs ↦ ?_
  · rw [hs.2, setCore_self]
    refine wp_of_no_fault wp_mapOnce fun _ v hv ↦ ?_
    have htaken : (w.taken d.id).afterTest r.test = (w.afterTest r.test).taken d.id := by
      rw [World.taken, World.taken, afterTest_setCore, afterTest_core]
    rw [hv, htaken, wp_bind, wp_dmaBufPut]
    rw [hcore] at hs
    exact ⟨hs.1, rfl⟩
  · rw [hs.2, setCore_self]
    rw [hcore] at hs
    exact ⟨hs.1, rfl⟩

end

/-! ## Runs of calls -/

/-- What the core has about every buffer is well formed. -/
def World.WellFormed (w : World) : Prop := ∀ buf, (w.core buf).WellFormed

section

variable {w w' : World} {a : Call}

theorem taken_wellFormed (h : w.WellFormed) (buf : ℕ) : (w.taken buf).WellFormed := by
  intro b
  by_cases hb : b = buf
  · subst hb
    rw [World.taken, setCore_core]
    exact h b
  · show (Function.update w.core buf _ b).WellFormed
    rw [Function.update_of_ne hb]
    exact h b

theorem afterTest_wellFormed (h : w.WellFormed) (o : TestOutcome) :
    (w.afterTest o).WellFormed := by
  intro b
  rw [afterTest_core]
  exact h b

/-- Where a call can lead: a harmless one changes nothing, and any other loses something. -/
def Leads (w : World) (a : Call) (v : World) : Prop :=
  Harmless w a ∧ v = w ∨ ¬ Harmless w a ∧ w.lost < v.lost ∧ v.WellFormed

/-- A test, if the call is harmless exactly when there is no memory for the device. -/
theorem leads_afterTest {o : TestOutcome} (h : w.WellFormed)
    (ha : Harmless w a ↔ w.memory o.dev = none) : Leads w a (w.afterTest o) := by
  by_cases hdev : w.memory o.dev = none
  · refine .inl ⟨ha.mpr hdev, ?_⟩
    rw [World.afterTest, hdev, Option.elim_none]
  · exact .inr ⟨fun hharmless ↦ hdev (ha.mp hharmless), lost_lt_afterTest hdev,
      afterTest_wellFormed h o⟩

theorem leads_init (h : w.WellFormed) (dmabuf : Option Dmabuf) (o : TestOutcome) :
    Leads w (.init dmabuf o) (w.after (importerTest dmabuf o)) := by
  cases dmabuf with
  | none => exact .inl ⟨fun hsome ↦ absurd hsome (by simp), rfl⟩
  | some d =>
    refine after_of_wp (wp_of_no_fault wp_mapOnce fun _ v hv ↦ ?_)
    rw [hv]
    exact leads_afterTest h ⟨fun hharmless ↦ hharmless rfl, fun hdev _ ↦ hdev⟩

theorem leads_ioctl (h : w.WellFormed) (r : Request) :
    Leads w (.ioctl r) (w.after (importerIoctl r)) := by
  by_cases hcopied : r.copied = true
  swap
  · refine .inl ⟨fun htrue ↦ absurd htrue hcopied, ?_⟩
    rw [importerIoctl, if_pos (Bool.not_eq_true _ ▸ hcopied)]
    rfl
  cases hfd : r.fd with
  | error e =>
    refine .inl ⟨fun _ d hd ↦ ?_, ?_⟩
    · rw [hfd] at hd
      exact absurd hd (by simp)
    · rw [importerIoctl, if_neg (by simp [hcopied]), hfd]
      rfl
  | ok d =>
    have hharmless : Harmless w (.ioctl r) ↔
        Vmaps (w.core d.id) d.ops r.found ∧ w.memory r.test.dev = none := by
      refine ⟨fun hall ↦ hall hcopied d hfd, fun hd _ d' hd' ↦ ?_⟩
      obtain rfl : d = d' := Except.ok.inj (hfd.symm.trans hd')
      exact hd
    refine after_of_wp (wp_mono (wp_importerIoctl hcopied hfd (h d.id)) (fun _ v hv ↦ ?_)
      fun e v hv ↦ ?_)
    · rw [hv.2]
      exact leads_afterTest h (hharmless.trans (and_iff_right hv.1))
    · rw [hv.2]
      refine .inr ⟨fun hall ↦ hv.1 (hharmless.mp hall).1, ?_, taken_wellFormed h d.id⟩
      show w.devices.length + w.stopped.length < w.devices.length + (w.stopped.length + 1)
      omega

/-- A step of the machine is a call. -/
theorem step_leads (h : w.WellFormed) (hstep : machine.step w a = some w') : Leads w a w' := by
  rw [← Option.some_inj.mp hstep]
  cases a with
  | ioctl r => exact leads_ioctl h r
  | init dmabuf o => exact leads_init h dmabuf o

/-- Nothing that is lost comes back. -/
theorem run_lost {as : List Call} (hrun : machine.Run Machine.free w as w') (h : w.WellFormed) :
    w.lost ≤ w'.lost ∧ w'.WellFormed := by
  refine hrun.invariant (I := fun v ↦ w.lost ≤ v.lost ∧ v.WellFormed) (fun v b v' hv _ hstep ↦ ?_)
    ⟨Nat.le_refl _, h⟩
  rcases step_leads hv.2 hstep with hend | hend
  · rw [hend.2]
    exact hv
  · exact ⟨hv.1.trans hend.2.1.le, hend.2.2⟩

/-- Harmless calls change nothing. -/
theorem run_harmless {as : List Call} (hrun : machine.Run Harmless w as w') (h : w.WellFormed) :
    w' = w := by
  refine hrun.invariant (I := fun v ↦ v = w) (fun v b v' hv hok hstep ↦ ?_) rfl
  subst hv
  rcases step_leads h hstep with hend | hend
  · exact hend.2
  · exact absurd hok hend.1

end

/-- **The importers leave everything as they have found it**, in all calls of a run, if and only if
none of the calls has got a buffer and then memory for a device, or was stopped by the core. -/
theorem balanced_iff {w w' : World} {as : List Call} (h : w.WellFormed)
    (hrun : machine.Run Machine.free w as w') :
    (∀ bs v, bs <+: as → machine.Run Machine.free w bs v → v = w) ↔
      machine.Run Harmless w as w' := by
  refine hrun.forall_take_iff (fun bs v hbs ↦ run_harmless hbs h)
    fun bs v b v' hbs hstep hb heq ↦ ?_
  obtain ⟨hlost, hwf⟩ := run_lost hbs h
  rcases step_leads hwf hstep with hend | hend
  · exact hb hend.1
  · rw [heq] at hend
    exact absurd hend.2.1 (Nat.not_lt.mpr hlost)

/-- A buffer of dma-buf/08 that nobody has mapped. -/
def unmapped : World := ⟨fun _ ↦ ⟨1, none, 0⟩, [], [], fun _ ↦ none, []⟩

/-- A call of dma-buf/08 for which there is no memory, and one of dma-buf/03 without a buffer. -/
def withoutDevice : List Call :=
  [.ioctl ⟨true, .ok ⟨0, .page08, 0⟩, ⟨some 1, some 2, none⟩, ⟨none, true, .ok 3, .obj 4⟩⟩,
    .init none ⟨some 5, true, .ok 3, .obj 4⟩]

/-- Neither of them gets as far as having a device. -/
theorem withoutDevice_balanced :
    machine.exec unmapped withoutDevice = some unmapped ∧
      ∀ bs v, bs <+: withoutDevice → machine.Run Machine.free unmapped bs v → v = unmapped := by
  have hwf : unmapped.WellFormed := fun _ ↦ iff_of_false (by simp [unmapped]) (Nat.lt_irrefl 0)
  have hends : ∃ v, machine.Run Harmless unmapped withoutDevice v := by
    refine ⟨_, .cons (fun _ d hd ↦ ?_) rfl
      (.cons (fun hsome ↦ absurd hsome (by simp)) rfl (.nil _))⟩
    cases hd
    exact ⟨⟨_, rfl, .inr rfl⟩, rfl⟩
  obtain ⟨v, hrun⟩ := hends
  obtain rfl := run_harmless hrun hwf
  have hfree : machine.Run Machine.free unmapped withoutDevice unmapped :=
    hrun.within fun _ _ _ _ _ _ ↦ trivial
  exact ⟨Machine.exec_eq_some_iff.mpr hfree, (balanced_iff hwf hfree).mpr hrun⟩

/-- One call of either importer in which everything succeeds leaves the device and its name. -/
theorem unmapped_not_balanced :
    ¬ (∀ bs v, bs <+: [Call.ioctl ⟨true, .ok ⟨0, .page08, 0⟩, ⟨some 1, some 2, none⟩,
        ⟨some 5, true, .ok 3, .obj 4⟩⟩] →
      machine.Run Machine.free unmapped bs v → v = unmapped) ∧
    ¬ (∀ bs v, bs <+: [Call.init (some ⟨0, .sg03, 0⟩) ⟨some 5, true, .ok 3, .obj 4⟩] →
      machine.Run Machine.free unmapped bs v → v = unmapped) := by
  constructor
  · intro hall
    have hend := hall _ _ List.prefix_rfl (.single trivial rfl)
    exact absurd (congrArg World.devices hend) (by decide)
  · intro hall
    have hend := hall _ _ List.prefix_rfl (.single trivial rfl)
    exact absurd (congrArg World.devices hend) (by decide)

end DmaBuf.ImporterBalance
