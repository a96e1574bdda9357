import Mathlib.Data.Finset.Sum
import SampleDrivers.Kernel.Basic
import SampleDrivers.Lib.RefCount

/-!
# The lifetime of the buffer exported by dma-buf/04, 06, 07 and 08

`exporter_init` creates one `dma_buf`, with one reference, and stores it in the global
`dmabuf_exported`.  From then on any number of processes call `exporter_ioctl`, which installs a
file descriptor for it, close those descriptors, and pass them to `importer_ioctl`, which holds a
reference between `dma_buf_get` and `dma_buf_put`.  The last reference to go runs
`exporter_release`.

* `World` and `exporterRelease e` — the state of the one buffer and what differs between the four
  exporters: three of them reset the global in `exporter_release`, dma-buf/08 does not.
* `machine e` — every interleaving of the processes.
* `World.counted` — the buffer as a `Counted` object whose owners are the installed descriptors
  and the importers in progress; `step_counted` says that every step is one of its operations, and
  that `exporter_ioctl` is an *adoption*: it hands out the reference `exporter_init` got, without
  taking another.
* `Prudent e` — the guard under which the buffer's lifetime is right, and
  `exactGuard_lifetimeSafe`, which says that it is exactly that.
-/

set_option autoImplicit false

namespace DmaBuf.Lifetime

open Kernel

/-- A process. -/
abbrev Pid := ℕ
/-- A file descriptor number. -/
abbrev Fd := ℕ
/-- A thread inside `importer_ioctl`. -/
abbrev Tid := ℕ

/-- What the global `dmabuf_exported` points to: there is only one buffer to point to. -/
abbrev BufPtr := Ptr Unit

/-- The exported buffer, the global that names it, and who uses it. -/
structure World where
  /-- References to the file of the `dma_buf`. -/
  fCount : ℕ
  /-- `exporter_release` has not run yet. -/
  live : Bool
  /-- How often the memory behind the buffer was given back. -/
  backingFrees : ℕ
  /-- The global of the exporter. -/
  dmabufExported : BufPtr
  /-- The installed descriptors that refer to the buffer, process by process. -/
  fds : Finset (Pid × Fd)
  /-- The calls of `importer_ioctl` between `dma_buf_get` and `dma_buf_put`. -/
  importing : Finset Tid
  deriving DecidableEq

/-! ## The exporters -/

/-- `exporter_release`: give the memory back and, in the exporters that do so, forget the buffer.
The memory is a `kzalloc` in dma-buf/04, 06 and 07 and a page in dma-buf/08. -/
def exporterReleaseWith (resetsGlobal : Bool) (w : World) : World :=
  { w with
    live := false
    backingFrees := w.backingFrees + 1
    dmabufExported := if resetsGlobal then .null else w.dmabufExported }

/-- The exporters that hand out file descriptors. -/
inductive Exporter
  | fd04
  | fd06
  | sync07
  | page08
  deriving DecidableEq, Repr

/-- Whether the exporter's `exporter_release` contains `dmabuf_exported = NULL`. -/
def Exporter.resetsGlobal : Exporter → Bool
  | .fd04 => true
  | .fd06 => true
  | .sync07 => true
  | .page08 => false

/-- `exporter_release` of each exporter. -/
def exporterRelease (e : Exporter) : World → World := exporterReleaseWith e.resetsGlobal

/-- The world after a successful `exporter_init`: `dma_buf_export` returned the buffer with one
reference. -/
def exporterInit : World :=
  { fCount := 1, live := true, backingFrees := 0, dmabufExported := .obj (), fds := ∅,
    importing := ∅ }

/-- `dma_buf_fd`: refuse a `NULL` buffer, find an unused descriptor (`none`: there is none), and
install it.  No reference is taken. -/
def dmaBufFd (w : World) (p : Pid) (dmabuf : BufPtr) (unused : Option Fd) : ℤ × World :=
  match dmabuf, unused with
  | .obj (), some fd =>
    if (p, fd) ∈ w.fds then (-EMFILE, w) else (fd, { w with fds := insert (p, fd) w.fds })
  | .obj (), none => (-EMFILE, w)
  | _, _ => (-EINVAL, w)

/-- What the environment decides in one call of `exporter_ioctl`. -/
structure IoctlOutcome where
  /-- The descriptor `get_unused_fd_flags` finds. -/
  unused : Option Fd
  /-- Whether `copy_to_user` succeeds. -/
  copied : Bool
  deriving DecidableEq

/-- What the caller of `exporter_ioctl` sees. -/
structure IoctlReply where
  /-- The return value. -/
  ret : ℤ
  /-- The integer written through `arg`, if it was written. -/
  written : Option ℤ
  deriving DecidableEq

/-- `exporter_ioctl`, the same in all four exporters. -/
def exporterIoctl (w : World) (p : Pid) (o : IoctlOutcome) : IoctlReply × World :=
  let (fd, w') := dmaBufFd w p w.dmabufExported o.unused
  if o.copied then (⟨0, some fd⟩, w') else (⟨-EFAULT, none⟩, w')

/-- Drop one reference to the file; the last one runs `exporter_release`. -/
def fput (e : Exporter) (w : World) : World :=
  if w.fCount = 1 then exporterRelease e { w with fCount := 0 }
  else { w with fCount := w.fCount - 1 }

/-- `close(fd)` by process `p`. -/
def close (e : Exporter) (w : World) (p : Pid) (fd : Fd) : World :=
  fput e { w with fds := w.fds.erase (p, fd) }

/-- The first half of `importer_ioctl`: read the descriptor from the user (`none`: the copy
faults) and `dma_buf_get` it. -/
def importerEnter (w : World) (t : Tid) (p : Pid) (arg : Option Fd) : ℤ × World :=
  match arg with
  | none => (-EFAULT, w)
  | some fd =>
    if (p, fd) ∈ w.fds then
      (0, { w with fCount := w.fCount + 1, importing := insert t w.importing })
    else (-EBADF, w)

/-- The second half of `importer_ioctl`: the tests are over, `dma_buf_put`. -/
def importerLeave (e : Exporter) (w : World) (t : Tid) : World :=
  fput e { w with importing := w.importing.erase t }

/-! ## Every interleaving -/

/-- One step of one process. -/
inductive Action
  | ioctl (p : Pid) (o : IoctlOutcome)
  | close (p : Pid) (fd : Fd)
  | importerEnter (t : Tid) (p : Pid) (arg : Option Fd)
  | importerLeave (t : Tid)

/-- The processes around exporter `e`.  A process closes descriptors it has, a thread enters
`importer_ioctl` when it is not already inside and leaves it when it is. -/
def machine (e : Exporter) : Machine World Action where
  step w
    | .ioctl p o => some (exporterIoctl w p o).2
    | .close p fd => if (p, fd) ∈ w.fds then some (close e w p fd) else none
    | .importerEnter t p arg =>
      if t ∈ w.importing then none else some (importerEnter w t p arg).2
    | .importerLeave t => if t ∈ w.importing then some (importerLeave e w t) else none

/-- The buffer is not released while a descriptor or an importer refers to it, and the global
never designates a released buffer. -/
def LifetimeSafe (w : World) : Prop :=
  (w.live = false → w.fds = ∅ ∧ w.importing = ∅) ∧ (w.dmabufExported = .obj () → w.live = true)

/-- The call of `exporter_ioctl` installs a descriptor. -/
def Installs (w : World) (p : Pid) (o : IoctlOutcome) : Prop :=
  w.dmabufExported = .obj () ∧ ∃ fd, o.unused = some fd ∧ (p, fd) ∉ w.fds

/-- A descriptor is handed out only while a reference is left that nobody relies on, and an
exporter that does not reset the global does not drop its last reference. -/
def Prudent (e : Exporter) (w : World) : Action → Prop
  | .ioctl p o => Installs w p o → w.fds.card + w.importing.card < w.fCount
  | .importerEnter _ _ _ => True
  | .close _ _ => w.fCount = 1 → e.resetsGlobal = true
  | .importerLeave _ => w.fCount = 1 → e.resetsGlobal = true

/-! ## What a step can do -/

/-- Who relies on the buffer: installed descriptors and importers in progress. -/
abbrev Owner := (Pid × Fd) ⊕ Tid

/-- The buffer as a counted object. -/
def World.counted (w : World) : Counted Owner := ⟨w.fCount, w.fds.disjSum w.importing⟩

/-- The world once an owner has gone, its reference not yet dropped. -/
def World.without (w : World) : Owner → World
  | .inl d => { w with fds := w.fds.erase d }
  | .inr t => { w with importing := w.importing.erase t }

@[simp] theorem World.without_fCount (w : World) (i : Owner) : (w.without i).fCount = w.fCount := by
  cases i <;> rfl

@[simp] theorem World.without_live (w : World) (i : Owner) : (w.without i).live = w.live := by
  cases i <;> rfl

@[simp] theorem World.without_dmabufExported (w : World) (i : Owner) :
    (w.without i).dmabufExported = w.dmabufExported := by
  cases i <;> rfl

/-- The action with which an owner goes. -/
def dropAction : Owner → Action
  | .inl d => .close d.1 d.2
  | .inr t => .importerLeave t

/-- What an action can do to the world: nothing, hand out a descriptor, take a reference for an
importer, or drop the reference of an owner. -/
inductive Effect (e : Exporter) (w : World) : Action → World → Prop
  | idle (a : Action) (hidle : ∀ i, a ≠ dropAction i) : Effect e w a w
  | handOut {p : Pid} {o : IoctlOutcome} {fd : Fd} (hexp : w.dmabufExported = .obj ())
      (hunused : o.unused = some fd) (hnew : (p, fd) ∉ w.fds) :
      Effect e w (.ioctl p o) { w with fds := insert (p, fd) w.fds }
  | get {t : Tid} {p : Pid} {fd : Fd} (hfd : (p, fd) ∈ w.fds) (ht : t ∉ w.importing) :
      Effect e w (.importerEnter t p (some fd))
        { w with fCount := w.fCount + 1, importing := insert t w.importing }
  | put {i : Owner} (hi : i ∈ w.counted.owners) : Effect e w (dropAction i) (fput e (w.without i))

theorem exporterIoctl_snd (w : World) (p : Pid) (o : IoctlOutcome) :
    (exporterIoctl w p o).2 = (dmaBufFd w p w.dmabufExported o.unused).2 := by
  unfold exporterIoctl
  simp only
  split <;> rfl

/-- **Inversion**: every step of the machine is one of the effects. -/
theorem step_effect {e : Exporter} {w w' : World} {a : Action}
    (h : (machine e).step w a = some w') : Effect e w a w' := by
  cases a with
  | ioctl p o =>
    have hidle : Effect e w (.ioctl p o) w :=
      .idle _ fun i ↦ by cases i <;> simp [dropAction]
    simp only [machine, Option.some_inj] at h
    rw [exporterIoctl_snd] at h
    subst h
    unfold dmaBufFd
    split
    · rename_i fd hexp hunused
      split
      · exact hidle
      · rename_i hnew; exact .handOut hexp hunused hnew
    · exact hidle
    · exact hidle
  | close p fd =>
    simp only [machine] at h
    split at h
    · rename_i hfd
      rw [Option.some_inj] at h
      exact h ▸ .put (i := .inl (p, fd)) (Finset.inl_mem_disjSum.mpr hfd)
    · exact absurd h (by simp)
  | importerEnter t p arg =>
    have hidle : Effect e w (.importerEnter t p arg) w :=
      .idle _ fun i ↦ by cases i <;> simp [dropAction]
    simp only [machine] at h
    split at h
    · exact absurd h (by simp)
    · rename_i ht
      rw [Option.some_inj] at h
      subst h
      unfold importerEnter
      split
      · exact hidle
      · split
        · rename_i hfd; exact .get hfd ht
        · exact hidle
  | importerLeave t =>
    simp only [machine] at h
    split at h
    · rename_i ht
      rw [Option.some_inj] at h
      exact h ▸ .put (i := .inr t) (Finset.inr_mem_disjSum.mpr ht)
    · exact absurd h (by simp)

/-- An owner can always go. -/
theorem step_dropAction {e : Exporter} {w : World} {i : Owner} (hi : i ∈ w.counted.owners) :
    (machine e).step w (dropAction i) = some (fput e (w.without i)) := by
  cases i with
  | inl d => exact if_pos (Finset.inl_mem_disjSum.mp hi)
  | inr t => exact if_pos (Finset.inr_mem_disjSum.mp hi)

/-! ## The steps as operations on a counted object -/

@[simp] theorem fput_counted (e : Exporter) (w : World) :
    (fput e w).counted = ⟨w.fCount - 1, w.counted.owners⟩ := by
  rw [fput]
  split
  · rename_i h
    simp [World.counted, exporterRelease, exporterReleaseWith, h]
  · rfl

@[simp] theorem without_counted (w : World) (i : Owner) :
    (w.without i).counted = ⟨w.fCount, w.counted.owners.erase i⟩ := by
  cases i <;> simp only [World.counted, World.without, Counted.mk.injEq, true_and] <;>
    ext j <;> cases j <;> simp

theorem counted_handOut (w : World) (d : Pid × Fd) :
    ({ w with fds := insert d w.fds } : World).counted =
      ⟨w.fCount, insert (.inl d) w.counted.owners⟩ := by
  simp only [World.counted, Counted.mk.injEq, true_and]
  ext j; cases j <;> simp

theorem counted_get (w : World) (t : Tid) :
    ({ w with fCount := w.fCount + 1, importing := insert t w.importing } : World).counted =
      ⟨w.fCount + 1, insert (.inr t) w.counted.owners⟩ := by
  simp only [World.counted, Counted.mk.injEq, true_and]
  ext j; cases j <;> simp

/-- **The exporters refine a counted object.**  A step leaves the counted object alone or performs
one operation on it, a funded one if the step is prudent. -/
theorem step_counted {e : Exporter} {w w' : World} {a : Action}
    (h : (machine e).step w a = some w') :
    w'.counted = w.counted ∨
      ∃ op, Counted.machine.step w.counted op = some w'.counted ∧
        (Prudent e w a → w.counted.Funded op) := by
  cases step_effect h with
  | idle => exact .inl rfl
  | @handOut p o fd hexp hunused hnew =>
    refine .inr ⟨.adopt (.inl (p, fd)), Counted.step_adopt.mpr ⟨?_, counted_handOut w _⟩, ?_⟩
    · exact fun hmem ↦ hnew (Finset.inl_mem_disjSum.mp hmem)
    · intro hp
      rw [Counted.Funded, World.counted, Finset.card_disjSum]
      exact hp ⟨hexp, fd, hunused, hnew⟩
  | @get t p fd hfd ht =>
    refine .inr ⟨.share (.inr t), Counted.step_share.mpr ⟨?_, counted_get w _⟩, fun _ ↦ trivial⟩
    exact fun hmem ↦ ht (Finset.inr_mem_disjSum.mp hmem)
  | @put i hi =>
    refine .inr ⟨.drop i, Counted.step_drop.mpr ⟨hi, ?_⟩, fun _ ↦ trivial⟩
    rw [fput_counted, without_counted, World.without_fCount]
    rfl

/-- Prudent runs of the exporters are funded runs of the counted object. -/
theorem simulation_counted (e : Exporter) :
    (machine e).Simulation (Prudent e) Counted.machine Counted.Funded
      (fun w c ↦ w.counted = c) := by
  rintro w _ a w' rfl hok hstep
  obtain hidle | ⟨op, hop, hf⟩ := step_counted hstep
  · exact ⟨[], w.counted, .nil _, hidle⟩
  · exact ⟨[op], w'.counted, .single (hf hok) hop, rfl⟩

/-- Owners can be dropped in the exporters whenever they can in the counted object. -/
theorem simulation_drops (e : Exporter) :
    Counted.machine.Simulation Counted.IsDrop (machine e) Machine.free
      (fun c w ↦ w.counted = c ∧ (w.fCount = 0 → w.live = false)) := by
  rintro _ w op c' ⟨rfl, hdead⟩ hok hstep
  cases op with
  | share i => exact absurd hok id
  | adopt i => exact absurd hok id
  | drop i =>
    obtain ⟨hi, rfl⟩ := Counted.step_drop.mp hstep
    refine ⟨[dropAction i], _, .single trivial (step_dropAction hi), ?_, ?_⟩
    · rw [fput_counted, without_counted, World.without_fCount]
      rfl
    · rw [fput]
      split
      · exact fun _ ↦ rfl
      · rename_i hne
        rw [World.without_fCount] at hne
        simp only [World.without_fCount, World.without_live]
        exact fun h₀ ↦ hdead (by omega)

/-! ## The lifetime -/

/-- What holds in every prudent run: the buffer is covered, it is live exactly while it has a
reference, and the global designates it exactly while it is live. -/
structure Kept (w : World) : Prop where
  covered : w.counted.Covered
  live_iff : w.live = true ↔ 0 < w.fCount
  exported_iff : w.dmabufExported = .obj () ↔ w.live = true

theorem kept_exporterInit : Kept exporterInit := by
  refine ⟨?_, ?_, ?_⟩ <;> simp [Counted.Covered, World.counted, exporterInit]

theorem Kept.lifetimeSafe {w : World} (h : Kept w) : LifetimeSafe w := by
  refine ⟨fun hdead ↦ ?_, h.exported_iff.mp⟩
  have h₀ : w.fCount = 0 := by
    by_contra hpos
    rw [h.live_iff.mpr (Nat.pos_of_ne_zero hpos)] at hdead
    exact absurd hdead (by simp)
  have hnone := h.covered.keptAlive h₀
  exact Finset.disjSum_eq_empty.mp hnone

/-- Dropping a reference keeps the pointers right, if the exporter resets the global with the
last one. -/
theorem Kept.fput {e : Exporter} {w : World} {i : Owner} (h : Kept w)
    (hi : i ∈ w.counted.owners) (hok : w.fCount = 1 → e.resetsGlobal = true) :
    Kept (fput e (w.without i)) := by
  have hpos : 0 < w.fCount := h.covered.count_pos hi
  have hlive := h.live_iff.mpr hpos
  have hcov : (Lifetime.fput e (w.without i)).counted.Covered := by
    have hfunded : w.counted.Funded (.drop i) := trivial
    refine h.covered.step hfunded (Counted.step_drop.mpr ⟨hi, ?_⟩)
    rw [fput_counted, without_counted, World.without_fCount]
    rfl
  refine ⟨hcov, ?_, ?_⟩ <;> rw [Lifetime.fput]
  · split
    · simp [exporterRelease, exporterReleaseWith]
    · simp only [World.without_live, World.without_fCount, hlive, true_iff] at *
      omega
  · split
    · rename_i hone
      rw [World.without_fCount] at hone
      simp [exporterRelease, exporterReleaseWith, hok hone]
    · simpa using h.exported_iff

/-- **A prudent step keeps the buffer's lifetime right.** -/
theorem Kept.step {e : Exporter} {w w' : World} {a : Action} (h : Kept w) (hok : Prudent e w a)
    (hstep : (machine e).step w a = some w') : Kept w' := by
  have hcov : w'.counted.Covered := by
    obtain hidle | ⟨op, hop, hf⟩ := step_counted hstep
    · rw [hidle]; exact h.covered
    · exact h.covered.step (hf hok) hop
  cases step_effect hstep with
  | idle => exact h
  | handOut => exact ⟨hcov, h.live_iff, h.exported_iff⟩
  | @get t p fd hfd ht =>
    have hpos : 0 < w.fCount := h.covered.count_pos (Finset.inl_mem_disjSum.mpr hfd)
    refine ⟨hcov, ?_, h.exported_iff⟩
    exact ⟨fun _ ↦ Nat.succ_pos _, fun _ ↦ h.live_iff.mpr hpos⟩
  | @put i hi =>
    refine h.fput hi ?_
    cases i <;> exact hok

/-- A covered buffer that is not covered any more can be released under an owner's feet. -/
theorem canReach_unsafe {e : Exporter} {w : World} (h : ¬ w.counted.Covered)
    (hdead : w.fCount = 0 → w.live = false) :
    (machine e).CanReach (fun t ↦ ¬ LifetimeSafe t) w := by
  obtain ⟨ops, c, hrun, h₀, hne⟩ := Counted.exists_drops h
  obtain ⟨as, t, hrun', hc, hdead'⟩ := (simulation_drops e).run hrun ⟨rfl, hdead⟩
  refine ⟨as, t, hrun', fun hsafe ↦ hne ?_⟩
  subst hc
  obtain ⟨hfds, himp⟩ := hsafe.1 (hdead' h₀)
  exact Finset.disjSum_eq_empty.mpr ⟨hfds, himp⟩

/-- A step that is not prudent puts the buffer's lifetime at the mercy of the processes. -/
theorem canReach_unsafe_of_not_prudent {e : Exporter} {w w' : World} {a : Action} (h : Kept w)
    (hstep : (machine e).step w a = some w') (hok : ¬ Prudent e w a) :
    (machine e).CanReach (fun t ↦ ¬ LifetimeSafe t) w' := by
  have hrelease : ∀ i : Owner, i ∈ w.counted.owners → ¬ (w.fCount = 1 → e.resetsGlobal = true) →
      ¬ LifetimeSafe (fput e (w.without i)) := by
    intro i hi hnot hsafe
    rw [Classical.not_imp] at hnot
    have hlive := h.live_iff.mpr (h.covered.count_pos hi)
    have hexp := h.exported_iff.mpr hlive
    rw [fput, World.without_fCount, if_pos hnot.1] at hsafe
    exact absurd (hsafe.2 (by simp [exporterRelease, exporterReleaseWith, hexp, hnot.2]))
      (by simp [exporterRelease, exporterReleaseWith])
  cases step_effect hstep with
  | idle a hidle =>
    cases a with
    | ioctl p o =>
      refine absurd (fun hinst : Installs w p o ↦ ?_) hok
      obtain ⟨hexp, fd, hunused, hnew⟩ := hinst
      have hw : (exporterIoctl w p o).2 = w := by simpa [machine] using hstep
      rw [exporterIoctl_snd, hexp, hunused] at hw
      simp only [dmaBufFd, if_neg hnew] at hw
      have hfds : insert (p, fd) w.fds = w.fds := congrArg World.fds hw
      exact absurd (Finset.insert_eq_self.mp hfds) hnew
    | close p fd => exact absurd rfl (hidle (.inl (p, fd)))
    | importerEnter t p arg => exact absurd trivial hok
    | importerLeave t => exact absurd rfl (hidle (.inr t))
  | @handOut p o fd hexp hunused hnew =>
    refine canReach_unsafe (fun hcov ↦ hok fun _ ↦ ?_) ?_
    · rw [counted_handOut, Counted.Covered] at hcov
      have hcard := Finset.card_insert_of_notMem (s := w.counted.owners)
        (fun hmem ↦ hnew (Finset.inl_mem_disjSum.mp hmem))
      rw [hcard, World.counted, Finset.card_disjSum] at hcov
      exact hcov
    · intro h₀
      have hlive := h.exported_iff.mp hexp
      exact absurd (h.live_iff.mp hlive) (by simp only at h₀; omega)
  | get => exact absurd trivial hok
  | @put i hi =>
    refine .now (hrelease i hi ?_)
    cases i <;> exact hok

/-- **The lifetime of the exported buffer.**  In every run of `exporter_ioctl` calls, closes and
importers, of any number of processes and in any order, in which each descriptor is handed out
while a reference is left for it and an exporter that does not reset its global keeps its last
reference, the buffer is released only when nobody refers to it and the global never designates a
released buffer; and any step outside that guard can be continued into a state where one of the
two fails. -/
theorem exactGuard_lifetimeSafe (e : Exporter) :
    (machine e).ExactGuard (· = exporterInit) LifetimeSafe (Prudent e) := by
  refine .of_invariant (I := Kept) ?_ (fun _ _ _ hI hok hstep ↦ hI.step hok hstep)
    (fun _ h ↦ h.lifetimeSafe) (fun _ _ _ hI hstep hok ↦
      canReach_unsafe_of_not_prudent hI hstep hok)
  rintro _ rfl
  exact kept_exporterInit

/-- Two descriptors from one reference: after the first is closed, dma-buf/06 has released the
buffer the second still refers to.  One descriptor, closed, is enough for dma-buf/08 to leave its
global pointing to a released buffer. -/
theorem reaches_not_lifetimeSafe :
    (∃ w, (machine .fd06).exec exporterInit
        [.ioctl 0 ⟨some 3, true⟩, .ioctl 0 ⟨some 4, true⟩, .close 0 3] = some w ∧
      ¬ LifetimeSafe w) ∧
    ∃ w, (machine .page08).exec exporterInit [.ioctl 0 ⟨some 3, true⟩, .close 0 3] = some w ∧
      ¬ LifetimeSafe w := by
  refine ⟨⟨⟨0, false, 1, .null, {(0, 4)}, ∅⟩, by decide, fun h ↦ ?_⟩,
    ⟨⟨0, false, 1, .obj (), ∅, ∅⟩, by decide, fun h ↦ ?_⟩⟩
  · exact absurd (h.1 rfl).1 (by decide)
  · exact absurd (h.2 rfl) (by decide)

end DmaBuf.Lifetime
