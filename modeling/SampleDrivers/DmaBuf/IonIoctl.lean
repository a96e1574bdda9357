import SampleDrivers.DmaBuf.Ion

/-!
# The allocation ioctl of the ion exporter

`ion_ioctl` copies the request in, allocates a buffer, installs a descriptor for it and copies the
answer out.  `ion_alloc` reports its failures as error pointers; `ion_ioctl` tests for `NULL`, and
does not look at the number `dma_buf_fd` returns.

* `AllOrNothing` — what a caller may expect: a descriptor of a live buffer, or an error number and
  the same resources as before.
* `allOrNothing_iff` — the calls that keep this: those that end before anything is allocated, and
  those in which every step succeeds.  In the others an error pointer reaches `dma_buf_fd`, or
  success is reported without a descriptor, or a buffer and its descriptor are left behind.
-/

set_option autoImplicit false

namespace DmaBuf

open Kernel

/-- What the environment decides in one call of `ion_ioctl`. -/
structure IonIoctlOutcome where
  /-- `copy_from_user` succeeds. -/
  copiedIn : Bool
  alloc : AllocOutcome
  /-- The descriptor `dma_buf_fd` finds. -/
  fd : Option ℕ
  /-- `copy_to_user` succeeds. -/
  copiedOut : Bool

/-- What the caller of `ion_ioctl` sees. -/
structure IonReply where
  ret : ℤ
  /-- The field `fd` of the answer, if the answer was copied out. -/
  fd : Option ℤ
  deriving DecidableEq

/-- `ion_ioctl`, called by process `pid`; `ionIocAlloc` is the number `ION_IOC_ALLOC`. -/
def ionIoctl (ionIocAlloc : BitVec 32) (pid : Pid) (cmd : BitVec 32) (len : BitVec 64)
    (o : IonIoctlOutcome) : KProg IonReply := do
  if o.copiedIn = false then return ⟨-EFAULT, none⟩
  if cmd ≠ ionIocAlloc then return ⟨-EINVAL, none⟩
  let dmabuf ← ionAlloc len o.alloc
  if dmabuf.isNull then return ⟨-ENOMEM, none⟩
  let fd ← dmaBufFd pid dmabuf o.fd
  if o.copiedOut = false then return ⟨-EFAULT, none⟩
  return ⟨0, some fd⟩

/-- The caller got a descriptor of a live buffer, or an error number and nothing has changed; and
the call did not fault, as it does when `dma_buf_fd` is given what is not a live buffer. -/
def AllOrNothing (k : KState) (pid : Pid) (x : KProg IonReply) : Prop :=
  Prog.wp x (fun r k' ↦
    (r.ret = 0 ∧ ∃ fd : ℕ, r.fd = some (fd : ℤ) ∧ ∃ b buf, k'.fds pid fd = some b ∧
      k'.bufs b = some buf) ∨
    (r.ret < 0 ∧ k.SameResources k')) (fun _ _ ↦ False) k

/-- `dma_buf_fd` finds a descriptor. -/
def FdOk (k : KState) (pid : Pid) (o : Option ℕ) : Prop := ∃ fd, o = some fd ∧ k.fds pid fd = none

section

variable {k k' : KState} {pid : Pid} {b : BufId} {buf : Buf} {o : Option ℕ}
  {Q : ℤ → KState → Prop} {E : Oops → KState → Prop}

theorem wp_dmaBufFd_of_ok (hb : k.bufs b = some buf) {fd : ℕ} (hfd : k.fds pid fd = none) :
    Prog.wp (dmaBufFd pid (.obj b) (some fd)) Q E k ↔
      Q fd { k with
        fds := Function.update k.fds pid (Function.update (k.fds pid) fd (some b)) } := by
  simp [dmaBufFd, wp_loadBuf hb, hfd]

theorem wp_dmaBufFd_of_not_ok (hb : k.bufs b = some buf) (ho : ¬ FdOk k pid o) :
    Prog.wp (dmaBufFd pid (.obj b) o) Q E k ↔ Q (-EMFILE) k := by
  cases o with
  | none => simp [dmaBufFd, wp_loadBuf hb]
  | some fd =>
    have hused : k.fds pid fd ≠ none := fun hfd ↦ ho ⟨fd, rfl, hfd⟩
    simp [dmaBufFd, wp_loadBuf hb, hused]

end

/-! ## Exactly when a call is all or nothing -/

section

variable {ionIocAlloc cmd : BitVec 32} {pid : Pid} {len : BitVec 64} {o : IonIoctlOutcome}
  {k : KState}

/-- A call that gets as far as `ion_alloc`. -/
theorem ionIoctl_alloc (hin : o.copiedIn = true) (hcmd : cmd = ionIocAlloc) :
    ionIoctl ionIocAlloc pid cmd len o = (do
      let dmabuf ← ionAlloc len o.alloc
      if dmabuf.isNull then return ⟨-ENOMEM, none⟩
      let fd ← dmaBufFd pid dmabuf o.fd
      if o.copiedOut = false then return ⟨-EFAULT, none⟩
      return ⟨0, some fd⟩) := by
  rw [ionIoctl, if_neg (by simp [hin]), if_neg (by simp [hcmd])]

/-- With every step succeeding, the caller has a descriptor of the new buffer. -/
theorem allOrNothing_of_ok (hin : o.copiedIn = true) (hcmd : cmd = ionIocAlloc)
    (hok : AllocOk k len o.alloc) (hfd : FdOk k pid o.fd) (hout : o.copiedOut = true) :
    AllOrNothing k pid (ionIoctl ionIocAlloc pid cmd len o) := by
  rw [AllOrNothing, ionIoctl_alloc hin hcmd, Prog.wp_bind]
  refine Prog.wp_mono (wp_ionAlloc k len o.alloc) (fun r k₁ hr ↦ ?_)
    fun _ _ he ↦ hok.bytes_ne he.2.1
  cases hr with
  | failed _ hnot _ => exact absurd hok hnot
  | @allocated a b _ _ _ _ h =>
    obtain ⟨fd, hofd, hfree⟩ := hfd
    have hbuf := h.bufs_self
    rw [if_neg (by simp), Prog.wp_bind, hofd, wp_dmaBufFd_of_ok hbuf (h.fds ▸ hfree),
      if_neg (by simp [hout])]
    refine .inl ⟨rfl, fd, rfl, b, _, ?_, hbuf⟩
    simp

/-- A buffer that was allocated is not there before. -/
theorem Allocated.not_sameResources {size : BitVec 64} {a : Addr} {b : BufId} {ps : List Page}
    {k' k'' : KState} (h : Allocated k size a b ps k') (hbufs : k''.bufs = k'.bufs) :
    ¬ k.SameResources k'' := by
  intro hsame
  have hb : k''.bufs b = k.bufs b := congrFun (congrArg (fun r ↦ r.2.2.2.1) hsame.rest) b
  rw [hbufs, h.bufs, h.buf_free, Function.update_self] at hb
  exact absurd hb (by simp)

/-- With any step from `ion_alloc` on failing, the call is not all or nothing. -/
theorem not_allOrNothing (hin : o.copiedIn = true) (hcmd : cmd = ionIocAlloc)
    (hnot : ¬ (AllocOk k len o.alloc ∧ FdOk k pid o.fd ∧ o.copiedOut = true)) :
    ¬ AllOrNothing k pid (ionIoctl ionIocAlloc pid cmd len o) := by
  rw [AllOrNothing, ionIoctl_alloc hin hcmd, Prog.not_wp, Prog.wp_bind]
  refine Prog.wp_mono (wp_ionAlloc k len o.alloc) (fun r k₁ hr ↦ ?_) fun _ _ _ ↦ id
  cases hr with
  | failed he _ _ =>
    -- The error pointer is not `NULL`, so it goes on to `dma_buf_fd`.
    rw [if_neg (by simp)]
    exact id
  | allocated hok _ _ h =>
    have hbuf := h.bufs_self
    rw [if_neg (by simp), Prog.wp_bind]
    by_cases hfd : FdOk k pid o.fd
    · have hout : o.copiedOut = false := by
        by_contra hout
        exact hnot ⟨hok, hfd, by simpa using hout⟩
      obtain ⟨fd, hofd, hfree⟩ := hfd
      rw [hofd, wp_dmaBufFd_of_ok hbuf (h.fds ▸ hfree), if_pos hout]
      rintro (⟨hret, -⟩ | ⟨-, hsame⟩)
      · exact absurd hret (by decide)
      · refine h.not_sameResources ?_ hsame
        rfl
    · have hfd' : ¬ FdOk k₁ pid o.fd := by
        rw [FdOk, h.fds]
        exact hfd
      rw [wp_dmaBufFd_of_not_ok hbuf hfd']
      split
      · rintro (⟨hret, -⟩ | ⟨-, hsame⟩)
        · exact absurd hret (by decide)
        · exact h.not_sameResources rfl hsame
      · rintro (⟨-, fd, hfd, -⟩ | ⟨hret, -⟩)
        · rw [Option.some_inj, EMFILE] at hfd
          omega
        · exact absurd hret (Int.lt_irrefl 0)

end

/-- **All or nothing**, exactly when the call is refused before it allocates anything, or every
step of it succeeds: the size does not make the number of pages 0 or -1, the header, each page, the
buffer and a descriptor are found, and the answer is copied out. -/
theorem allOrNothing_iff (ionIocAlloc : BitVec 32) (pid : Pid) (cmd : BitVec 32) (len : BitVec 64)
    (o : IonIoctlOutcome) (k : KState) :
    AllOrNothing k pid (ionIoctl ionIocAlloc pid cmd len o) ↔
      o.copiedIn = false ∨ cmd ≠ ionIocAlloc ∨
        (AllocOk k len o.alloc ∧ FdOk k pid o.fd ∧ o.copiedOut = true) := by
  have hsame : k.SameResources k := ⟨rfl, rfl, rfl⟩
  by_cases hin : o.copiedIn = false
  · rw [AllOrNothing, ionIoctl, if_pos hin]
    exact iff_of_true (.inr ⟨by decide, hsame⟩) (.inl hin)
  by_cases hcmd : cmd = ionIocAlloc
  · rw [Bool.not_eq_false] at hin
    refine ⟨?_, ?_⟩
    · intro h
      by_contra hnot
      rw [not_or, not_or] at hnot
      exact not_allOrNothing hin hcmd hnot.2.2 h
    · rintro (hin' | hcmd' | ⟨hok, hfd, hout⟩)
      · exact absurd hin' (by simp [hin])
      · exact absurd hcmd hcmd'
      · exact allOrNothing_of_ok hin hcmd hok hfd hout
  · rw [AllOrNothing, ionIoctl, if_neg hin, if_pos hcmd]
    exact iff_of_true (.inr ⟨by decide, hsame⟩) (.inr (.inl hcmd))

/-- A request for no bytes, with memory and descriptors at hand: the error pointer of `ion_alloc`
is given to `dma_buf_fd`. -/
theorem emptyRequest_not_allOrNothing :
    ¬ AllOrNothing .boot 0 (ionIoctl 0 0 0 0
      ⟨true, ⟨some 0, fun i ↦ some ⟨i, fun _ ↦ 0⟩, some 0⟩, some 3, true⟩) :=
  not_allOrNothing rfl rfl fun h ↦ h.1.npages_ne (by decide)

end DmaBuf
