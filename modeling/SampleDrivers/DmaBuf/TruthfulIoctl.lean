import SampleDrivers.DmaBuf.Lifetime

/-!
# What `exporter_ioctl` tells its caller

`exporter_ioctl` of dma-buf/04, 06, 07 and 08 calls `dma_buf_fd` and copies what it returned to the
user.  It returns zero if the copy succeeds, and `-EFAULT` if it does not.

* `Truthful` — zero means that the integer is a new descriptor for the live buffer, an error that
  the caller has the descriptors it had.
* `exporterIoctl_installs`, `exporterIoctl_idle` — the two ways a call can go: `dma_buf_fd` installs
  a descriptor, or it does not and the integer is an error number.
* `GlobalLive` — what the history of the buffer says about the global: where `exporter_release`
  resets it, it designates the buffer only while the buffer lives.
* `exporterIoctl_truthful_iff` — the call is truthful exactly if the copy succeeds when a descriptor
  was installed and fails when none was, and dma-buf/08 has not released the buffer before.
-/

set_option autoImplicit false

namespace DmaBuf.Lifetime

open Kernel

/-- The descriptor was not installed in `w`, is installed in `w'`, and refers to a live buffer. -/
def NewlyInstalled (w w' : World) (p : Pid) (fd : Fd) : Prop :=
  (p, fd) ∉ w.fds ∧ (p, fd) ∈ w'.fds ∧ w'.live = true

/-- What process `p` may conclude from the reply to its call of `exporter_ioctl` in `w`. -/
structure Truthful (w : World) (p : Pid) (o : IoctlOutcome) : Prop where
  /-- Zero is returned exactly if the integer written is a new descriptor for the live buffer. -/
  ret_eq_zero_iff : (exporterIoctl w p o).1.ret = 0 ↔ ∃ fd : Fd,
    (exporterIoctl w p o).1.written = some (fd : ℤ) ∧ NewlyInstalled w (exporterIoctl w p o).2 p fd
  /-- An error leaves the descriptors of the process as they were. -/
  fds_of_ret_neg : (exporterIoctl w p o).1.ret < 0 →
    ∀ fd, (p, fd) ∈ (exporterIoctl w p o).2.fds ↔ (p, fd) ∈ w.fds

/-! ## The two ways a call can go -/

section

variable {w : World} {p : Pid} {o : IoctlOutcome}

theorem neg_efault : (-EFAULT : ℤ) < 0 := by decide

/-- A descriptor is installed, whether or not the caller learns which. -/
theorem exporterIoctl_installs (h : Installs w p o) : ∃ fd : Fd, (p, fd) ∉ w.fds ∧
    exporterIoctl w p o = (if o.copied then ⟨0, some (fd : ℤ)⟩ else ⟨-EFAULT, none⟩,
      { w with fds := insert (p, fd) w.fds }) := by
  obtain ⟨hexp, fd, hunused, hnew⟩ := h
  refine ⟨fd, hnew, ?_⟩
  have hfd : ∀ dmabuf unused, dmabuf = .obj () → unused = some fd →
      dmaBufFd w p dmabuf unused = ((fd : ℤ), { w with fds := insert (p, fd) w.fds }) := by
    rintro _ _ rfl rfl
    exact if_neg hnew
  rw [exporterIoctl, hfd _ _ hexp hunused]
  cases o.copied <;> rfl

/-- No descriptor is installed, and the integer is an error number. -/
theorem exporterIoctl_idle (h : ¬ Installs w p o) : ∃ err : ℤ, err < 0 ∧
    exporterIoctl w p o = (if o.copied then ⟨0, some err⟩ else ⟨-EFAULT, none⟩, w) := by
  have hfd : ∃ err : ℤ, err < 0 ∧ dmaBufFd w p w.dmabufExported o.unused = (err, w) := by
    unfold dmaBufFd
    split
    · rename_i fd hexp hunused
      refine ⟨-EMFILE, by decide, if_pos ?_⟩
      by_contra hnew
      exact h ⟨hexp, fd, hunused, hnew⟩
    · exact ⟨-EMFILE, by decide, rfl⟩
    · exact ⟨-EINVAL, by decide, rfl⟩
  obtain ⟨err, hneg, hfd⟩ := hfd
  refine ⟨err, hneg, ?_⟩
  rw [exporterIoctl, hfd]
  cases o.copied <;> rfl

/-- A call that installs a descriptor tells the truth if it can tell it and the buffer lives. -/
theorem truthful_iff_of_installs (h : Installs w p o) :
    Truthful w p o ↔ o.copied = true ∧ w.live = true := by
  obtain ⟨fd, hnew, hcall⟩ := exporterIoctl_installs h
  cases hcopied : o.copied with
  | true =>
    rw [hcopied, if_pos rfl] at hcall
    constructor
    · intro ht
      have hzero := ht.ret_eq_zero_iff
      rw [hcall] at hzero
      obtain ⟨-, -, -, -, hlive⟩ := hzero.mp rfl
      exact ⟨rfl, hlive⟩
    · rintro ⟨-, hlive⟩
      refine ⟨?_, ?_⟩ <;> rw [hcall]
      · exact iff_of_true rfl ⟨fd, rfl, hnew, Finset.mem_insert_self _ _, hlive⟩
      · exact fun hneg ↦ absurd hneg (Int.lt_irrefl 0)
  | false =>
    rw [hcopied, if_neg (by simp)] at hcall
    refine iff_of_false (fun ht ↦ ?_) (by simp)
    have hfds := ht.fds_of_ret_neg
    rw [hcall] at hfds
    exact hnew ((hfds neg_efault fd).mp (Finset.mem_insert_self _ _))

/-- A call that installs none tells the truth if the copy fails. -/
theorem truthful_iff_of_not_installs (h : ¬ Installs w p o) :
    Truthful w p o ↔ o.copied = false := by
  obtain ⟨err, hneg, hcall⟩ := exporterIoctl_idle h
  have hnone : ∀ fd : Fd, ¬ NewlyInstalled w w p fd := fun fd hfd ↦ hfd.1 hfd.2.1
  cases hcopied : o.copied with
  | true =>
    rw [hcopied, if_pos rfl] at hcall
    refine iff_of_false (fun ht ↦ ?_) (by simp)
    have hzero := ht.ret_eq_zero_iff
    rw [hcall] at hzero
    obtain ⟨fd, -, hfd⟩ := hzero.mp rfl
    exact hnone fd hfd
  | false =>
    rw [hcopied, if_neg (by simp)] at hcall
    refine iff_of_true ⟨?_, ?_⟩ rfl <;> rw [hcall]
    · refine iff_of_false (Int.ne_of_lt neg_efault) ?_
      rintro ⟨fd, -, hfd⟩
      exact hnone fd hfd
    · exact fun _ fd ↦ Iff.rfl

end

/-! ## Every history of the buffer -/

/-- An exporter that resets the global has the buffer there only while it lives. -/
def GlobalLive (e : Exporter) (w : World) : Prop :=
  e.resetsGlobal = true → w.dmabufExported = .obj () → w.live = true

theorem globalLive_exporterInit (e : Exporter) : GlobalLive e exporterInit := fun _ _ ↦ rfl

/-- **Every step** leaves the global right, the last close included. -/
theorem GlobalLive.step {e : Exporter} {w w' : World} {a : Action} (h : GlobalLive e w)
    (hstep : (machine e).step w a = some w') : GlobalLive e w' := by
  cases step_effect hstep with
  | idle => exact h
  | handOut => exact h
  | get => exact h
  | @put i hi =>
    intro hresets hobj
    rw [fput] at hobj ⊢
    split at hobj
    · simp [exporterRelease, exporterReleaseWith, hresets] at hobj
    · rename_i hmore
      rw [if_neg hmore]
      simp only [World.without_dmabufExported] at hobj
      simpa using h hresets hobj

/-- **What `exporter_ioctl` tells.**  Whatever has been handed out, closed and released before, a
call returns zero exactly if it wrote a new descriptor for the live buffer, and an error only if it
installed none, if and only if the copy to the user succeeds just when a descriptor was installed,
and the exporter either forgets a buffer it has released or has not released it. -/
theorem exporterIoctl_truthful_iff {e : Exporter} {w : World} {as : List Action}
    (hrun : (machine e).Run Machine.free exporterInit as w) (p : Pid) (o : IoctlOutcome) :
    Truthful w p o ↔ (o.copied = true ↔ Installs w p o) ∧
      (o.copied = true → e.resetsGlobal = true ∨ w.live = true) := by
  have hglobal : GlobalLive e w :=
    hrun.invariant (fun _ _ _ hI _ hstep ↦ hI.step hstep) (globalLive_exporterInit e)
  by_cases hinst : Installs w p o
  · rw [truthful_iff_of_installs hinst]
    constructor
    · exact fun ⟨hcopied, hlive⟩ ↦ ⟨iff_of_true hcopied hinst, fun _ ↦ .inr hlive⟩
    · rintro ⟨hiff, hlive⟩
      have hcopied := hiff.mpr hinst
      exact ⟨hcopied, (hlive hcopied).elim (fun hresets ↦ hglobal hresets hinst.1) id⟩
  · rw [truthful_iff_of_not_installs hinst]
    constructor
    · intro hfails
      have hnot : ¬ o.copied = true := by simp [hfails]
      exact ⟨iff_of_false hnot hinst, fun hcopied ↦ absurd hcopied hnot⟩
    · rintro ⟨hiff, -⟩
      exact Bool.eq_false_of_not_eq_true fun hcopied ↦ hinst (hiff.mp hcopied)

/-- After one descriptor of dma-buf/08, the second call tells the truth. -/
theorem exporterIoctl_truthful_second : Truthful
    { exporterInit with fds := {(0, 3)} } 1 ⟨some 5, true⟩ := by
  have hrun : (machine .page08).Run Machine.free exporterInit [.ioctl 0 ⟨some 3, true⟩]
      { exporterInit with fds := {(0, 3)} } := Machine.exec_eq_some_iff.mp (by decide)
  refine (exporterIoctl_truthful_iff hrun 1 ⟨some 5, true⟩).mpr ⟨?_, fun _ ↦ .inr rfl⟩
  exact iff_of_true rfl ⟨rfl, 5, rfl, by decide⟩

/-- Once dma-buf/06 has released its buffer, a call returns zero and hands out `-EINVAL`; and a call
whose copy fails leaves a descriptor behind. -/
theorem exporterIoctl_not_truthful :
    (∃ w, (machine .fd06).exec exporterInit [.ioctl 0 ⟨some 3, true⟩, .close 0 3] = some w ∧
      (exporterIoctl w 0 ⟨some 3, true⟩).1 = ⟨0, some (-EINVAL)⟩ ∧
      ¬ Truthful w 0 ⟨some 3, true⟩) ∧
    ¬ Truthful exporterInit 0 ⟨some 3, false⟩ := by
  refine ⟨⟨⟨0, false, 1, .null, ∅, ∅⟩, by decide, by decide, fun h ↦ ?_⟩, fun h ↦ ?_⟩
  · obtain ⟨fd, -, -, -, hlive⟩ := h.ret_eq_zero_iff.mp rfl
    exact absurd hlive (by decide)
  · exact absurd ((h.fds_of_ret_neg (by decide) 3).mp (by decide)) (by decide)

end DmaBuf.Lifetime
