import SampleDrivers.DmaBuf.Lifetime

/-!
# The importer of dma-buf/07 between two looks at the global

`importer-sync.c` reads the pointer `dmabuf_exported` of the exporter when it is loaded, returns if
it is `NULL`, and then works on the buffer in eight steps without a reference of its own.
Meanwhile any number of processes get descriptors from `exporter_ioctl` and close them, and the
close that drops the last reference runs `exporter_release`.

* `Step`, `Pc` — where the importer is.
* `machine` — every interleaving of the importer, which may be loaded again when it is done, with
  the processes, whose steps are those of `Lifetime.machine`.
* `Patient` — nobody closes the last reference while the importer is at work.
* `importer_untouched` — the importer touches nothing that was freed as long as the processes
  are patient, and can be driven to do so by the first who is not.
-/

set_option autoImplicit false

namespace DmaBuf.SyncImporter

open Kernel

/-- What `importer_test` does with the buffer, one after the other. -/
inductive Step
  | beginCpuAccess
  | kmap
  | readKmap
  | kunmap
  | vmap
  | readVmap
  | vunmap
  | endCpuAccess
  deriving DecidableEq, Repr

/-- The step after a step. -/
def Step.next : Step → Option Step
  | .beginCpuAccess => some .kmap
  | .kmap => some .readKmap
  | .readKmap => some .kunmap
  | .kunmap => some .vmap
  | .vmap => some .readVmap
  | .readVmap => some .vunmap
  | .vunmap => some .endCpuAccess
  | .endCpuAccess => none

/-- Where the importer is: not loaded, before a step on the pointer it has read, or loaded with what
`importer_test` has returned. -/
inductive Pc
  | unloaded
  | at (s : Step)
  | returned (r : ℤ)
  deriving DecidableEq, Repr

/-- The importer is between reading a pointer that is not `NULL` and its last step. -/
def Pc.running : Pc → Bool
  | .at _ => true
  | _ => false

/-- The exporter with its processes, and the importer. -/
structure World where
  exporter : Lifetime.World
  pc : Pc
  /-- A step of the importer has touched the buffer or its memory after both were freed. -/
  touchedFreed : Bool
  deriving DecidableEq

/-- The exporter is loaded, the importer is not. -/
def World.start : World := ⟨Lifetime.exporterInit, .unloaded, false⟩

/-- `importer_init` up to the test for `NULL`. -/
def World.load (w : World) : World :=
  match w.exporter.dmabufExported with
  | .obj () => { w with pc := .at .beginCpuAccess }
  | _ => { w with pc := .returned (-EINVAL) }

/-- One of the steps, each of which dereferences the buffer or reads its memory. -/
def World.step (w : World) (s : Step) : World :=
  { w with
    pc := s.next.elim (.returned 0) .at
    touchedFreed := w.touchedFreed || !w.exporter.live }

/-- Who does something. -/
inductive Action
  | ioctl (p : Lifetime.Pid) (o : Lifetime.IoctlOutcome)
  | close (p : Lifetime.Pid) (fd : Lifetime.Fd)
  | load
  | importer
  | unload

/-- The step of a process. -/
def World.user (w : World) (a : Lifetime.Action) : Option World :=
  ((Lifetime.machine .sync07).step w.exporter a).map fun x ↦ { w with exporter := x }

/-- Every interleaving. -/
def machine : Machine World Action where
  step w
    | .ioctl p o => w.user (.ioctl p o)
    | .close p fd => w.user (.close p fd)
    | .load => if w.pc = .unloaded then some w.load else none
    | .importer =>
      match w.pc with
      | .at s => some (w.step s)
      | _ => none
    | .unload =>
      match w.pc with
      | .returned _ => some { w with pc := .unloaded }
      | _ => none

/-- Nobody closes the last reference while the importer is at work. -/
def Patient (w : World) : Action → Prop
  | .close _ _ => w.exporter.fCount = 1 → w.pc.running = false
  | _ => True

/-- What patient steps preserve: the global and the importer have the buffer only while it lives. -/
structure Kept (w : World) : Prop where
  exported : w.exporter.dmabufExported = .obj () → w.exporter.live = true
  running : w.pc.running = true → w.exporter.live = true
  untouched : w.touchedFreed = false

section

variable {w w' : World}

theorem kept_start : Kept .start := ⟨fun _ ↦ rfl, fun h ↦ absurd h (by decide), rfl⟩

/-- A close drops a reference, or releases the buffer. -/
theorem close_cases {p : Lifetime.Pid} {fd : Lifetime.Fd}
    (h : machine.step w (.close p fd) = some w') :
    w'.pc = w.pc ∧ w'.touchedFreed = w.touchedFreed ∧
      (w.exporter.fCount = 1 ∧ w'.exporter.dmabufExported = .null ∧ w'.exporter.live = false ∨
        w.exporter.fCount ≠ 1 ∧ w'.exporter.dmabufExported = w.exporter.dmabufExported ∧
          w'.exporter.live = w.exporter.live) := by
  obtain ⟨x, hx, rfl⟩ := Option.map_eq_some_iff.mp h
  obtain ⟨-, ⟨⟩⟩ := Option.ite_none_right_eq_some.mp hx
  refine ⟨rfl, rfl, ?_⟩
  rw [Lifetime.close, Lifetime.fput]
  by_cases hone : w.exporter.fCount = 1
  · rw [if_pos hone]
    exact .inl ⟨hone, rfl, rfl⟩
  · rw [if_neg hone]
    exact .inr ⟨hone, rfl, rfl⟩

/-- `exporter_ioctl` changes only descriptors. -/
theorem ioctl_cases {p : Lifetime.Pid} {o : Lifetime.IoctlOutcome}
    (h : machine.step w (.ioctl p o) = some w') :
    w'.pc = w.pc ∧ w'.touchedFreed = w.touchedFreed ∧
      w'.exporter.dmabufExported = w.exporter.dmabufExported ∧
        w'.exporter.live = w.exporter.live := by
  have hw' : { w with exporter := (Lifetime.exporterIoctl w.exporter p o).2 } = w' :=
    Option.some_inj.mp h
  subst hw'
  refine ⟨rfl, rfl, ?_⟩
  show (Lifetime.exporterIoctl w.exporter p o).2.dmabufExported = _ ∧
    (Lifetime.exporterIoctl w.exporter p o).2.live = _
  rw [Lifetime.exporterIoctl_snd]
  unfold Lifetime.dmaBufFd
  split
  · split
    · exact ⟨rfl, rfl⟩
    · exact ⟨rfl, rfl⟩
  · exact ⟨rfl, rfl⟩
  · exact ⟨rfl, rfl⟩

/-- **A patient step** leaves the importer with a buffer that lives. -/
theorem Kept.step {a : Action} (h : Kept w) (hok : Patient w a)
    (hstep : machine.step w a = some w') : Kept w' := by
  cases a with
  | ioctl p o =>
    obtain ⟨hpc, htouched, hexp, hlive⟩ := ioctl_cases hstep
    refine ⟨fun hobj ↦ ?_, fun hrun ↦ ?_, htouched.trans h.untouched⟩
    · exact hlive.trans (h.exported (hexp.symm.trans hobj))
    · exact hlive.trans (h.running (hpc ▸ hrun))
  | close p fd =>
    obtain ⟨hpc, htouched, ⟨hone, hexp, hlive⟩ | ⟨-, hexp, hlive⟩⟩ := close_cases hstep
    · refine ⟨fun hobj ↦ absurd (hexp.symm.trans hobj) (by simp), fun hrun ↦ ?_,
        htouched.trans h.untouched⟩
      rw [hpc, hok hone] at hrun
      exact absurd hrun (by simp)
    · refine ⟨fun hobj ↦ ?_, fun hrun ↦ ?_, htouched.trans h.untouched⟩
      · exact hlive.trans (h.exported (hexp.symm.trans hobj))
      · exact hlive.trans (h.running (hpc ▸ hrun))
  | load =>
    obtain ⟨-, ⟨⟩⟩ := Option.ite_none_right_eq_some.mp hstep
    rw [World.load]
    split
    · rename_i hobj
      exact ⟨h.exported, fun _ ↦ h.exported hobj, h.untouched⟩
    · exact ⟨h.exported, fun hrun ↦ absurd hrun (by simp [Pc.running]), h.untouched⟩
  | importer =>
    simp only [machine] at hstep
    split at hstep
    · rename_i s hpc
      obtain rfl := Option.some_inj.mp hstep
      have hlive := h.running (by rw [hpc]; rfl)
      refine ⟨h.exported, fun _ ↦ hlive, ?_⟩
      show (w.touchedFreed || !w.exporter.live) = false
      rw [h.untouched, hlive]
      rfl
    · exact absurd hstep (by simp)
  | unload =>
    simp only [machine] at hstep
    split at hstep
    · obtain rfl := Option.some_inj.mp hstep
      exact ⟨h.exported, fun hrun ↦ absurd hrun (by simp [Pc.running]), h.untouched⟩
    · exact absurd hstep (by simp)

/-- After an impatient close, the next step of the importer touches what was freed. -/
theorem canReach_touchedFreed {a : Action} (hok : ¬ Patient w a)
    (hstep : machine.step w a = some w') :
    machine.CanReach (fun t ↦ ¬ t.touchedFreed = false) w' := by
  cases a with
  | close p fd =>
    rw [Patient, Classical.not_imp, Bool.not_eq_false] at hok
    obtain ⟨hone, hrun⟩ := hok
    obtain ⟨hpc, -, ⟨-, -, hlive⟩ | ⟨hne, -⟩⟩ := close_cases hstep
    · cases hat : w.pc with
      | «at» s =>
        have hnext : machine.step w' .importer = some (w'.step s) := by
          simp only [machine, hpc, hat]
        refine .step hnext (.now ?_)
        show ¬ (w'.touchedFreed || !w'.exporter.live) = false
        rw [hlive]
        simp
      | unloaded => rw [hat] at hrun; exact absurd hrun (by simp [Pc.running])
      | returned r => rw [hat] at hrun; exact absurd hrun (by simp [Pc.running])
    · exact absurd hone hne
  | ioctl p o => exact absurd trivial hok
  | load => exact absurd trivial hok
  | importer => exact absurd trivial hok
  | unload => exact absurd trivial hok

end

theorem exactGuard_untouched :
    machine.ExactGuard (· = .start) (fun w ↦ w.touchedFreed = false) Patient := by
  refine .of_invariant (I := Kept) ?_ (fun _ _ _ h hok hstep ↦ h.step hok hstep)
    (fun _ h ↦ h.untouched) (fun _ _ _ _ hstep hok ↦ canReach_touchedFreed hok hstep)
  rintro _ rfl
  exact kept_start

/-- **The importer of dma-buf/07.**  However its steps and those of the processes are interleaved,
it touches nothing that was freed as long as nobody closes the last reference while it is at work;
and after the first such close it can go on to do so. -/
theorem importer_untouched {w : World} {as : List Action}
    (hrun : machine.Run Patient .start as w) :
    w.touchedFreed = false ∧ ∀ a w', machine.step w a = some w' → ¬ Patient w a →
      machine.CanReach (fun t ↦ t.touchedFreed = true) w' := by
  refine ⟨exactGuard_untouched.safe rfl hrun, fun a w' hstep hok ↦ ?_⟩
  exact (exactGuard_untouched.tight rfl hrun hstep hok).mono fun _ ↦ Bool.eq_true_of_not_eq_false

/-- The importer does all its steps, and then the descriptor is closed. -/
def patientRun : List Action :=
  [.ioctl 0 ⟨some 3, true⟩, .load, .importer, .importer, .importer, .importer, .importer, .importer,
    .importer, .importer, .close 0 3]

instance (w : World) (a : Action) : Decidable (Patient w a) :=
  match a with
  | .close _ _ => inferInstanceAs (Decidable (_ → _))
  | .ioctl _ _ => isTrue trivial
  | .load => isTrue trivial
  | .importer => isTrue trivial
  | .unload => isTrue trivial

theorem importer_untouched_patientRun :
    ∃ w, machine.exec .start patientRun = some w ∧ w.pc = .returned 0 ∧ w.touchedFreed = false := by
  refine ⟨_, rfl, by decide,
    (importer_untouched (?_ : machine.Run Patient .start patientRun _)).1⟩
  exact .cons trivial rfl (.cons trivial rfl (.cons trivial rfl (.cons trivial rfl
    (.cons trivial rfl (.cons trivial rfl (.cons trivial rfl (.cons trivial rfl
      (.cons trivial rfl (.cons trivial rfl (.cons (by decide) rfl (.nil _)))))))))))

/-- The descriptor is closed while the importer is at work, and its next step touches the buffer. -/
theorem importer_touches_freed :
    ∃ w, machine.exec .start [.ioctl 0 ⟨some 3, true⟩, .load, .close 0 3, .importer] = some w ∧
      w.touchedFreed = true :=
  ⟨_, rfl, by decide⟩

end DmaBuf.SyncImporter
