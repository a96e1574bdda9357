import SampleDrivers.DmaBuf.Lifetime

/-!
# Loading and unloading the exporters of dma-buf/04 to 08

`exporter_init` gets memory for the buffer, exports it, and registers the device through which the
users reach it.  A live buffer holds the module, so `exporter_exit` waits for its release; but the
kernel frees a module whose `exporter_init` has failed, whatever holds it.

* `exporterAllocPage`, `exporterInit`, `exporterExit` — the same in the five exporters but for the
  kind of memory, which is counted here and not looked at.
* `fput`, `exporterMiscMmap` — the references of dma-buf/05, whose device is mapped instead.
* `machine` — loading, everything the users do, and unloading.
* `Clean` — what has to hold of the buffer and the device when the module goes.
* `clean_iff` — it holds in all runs but those in which `misc_register` alone fails: the buffer
  stays, and its operations are in a module that is gone.
-/

set_option autoImplicit false

namespace DmaBuf.ModuleLifetime

open Kernel Lifetime

/-- The exporters: those that hand out descriptors, and dma-buf/05. -/
inductive Exporter
  | fd (e : Lifetime.Exporter)
  | mmap05
  deriving DecidableEq

/-- Whether `exporter_release` contains `dmabuf_exported = NULL`. -/
def Exporter.resetsGlobal : Exporter → Bool
  | .fd e => e.resetsGlobal
  | .mmap05 => true

/-- A mapping of the device of dma-buf/05. -/
abbrev MapId := ℕ

/-- Whether the module is there. -/
inductive Phase
  | unloaded
  | loaded
  | gone
  deriving DecidableEq, Repr

/-- The buffer, the memory and the device of a module. -/
structure State where
  buffer : World
  /-- How often memory was got for the buffer. -/
  allocated : ℕ
  /-- The mappings whose `vm_file` is the buffer's. -/
  maps : Finset MapId
  /-- The device is registered. -/
  registered : Bool
  phase : Phase
  deriving DecidableEq

/-- The module before it is loaded. -/
def unloaded : State where
  buffer :=
    { fCount := 0, live := false, backingFrees := 0, dmabufExported := .null, fds := ∅,
      importing := ∅ }
  allocated := 0
  maps := ∅
  registered := false
  phase := .unloaded

/-- What the kernel answers `exporter_init`. -/
structure InitOutcome where
  /-- `kzalloc` or `alloc_page` returns memory. -/
  page : Bool
  /-- `dma_buf_export` returns a buffer. -/
  dmabuf : Bool
  /-- The error of `misc_register`, zero if there is none. -/
  register : ℕ
  deriving DecidableEq

/-- `exporter_alloc_page`, and the store of its result: `NULL` if there is no memory, and if there
is no buffer, after the memory was given back. -/
def exporterAllocPage (o : InitOutcome) : State :=
  if o.page = false then unloaded
  else if o.dmabuf = false then
    { unloaded with buffer := { unloaded.buffer with backingFrees := 1 }, allocated := 1 }
  else { unloaded with buffer := Lifetime.exporterInit, allocated := 1 }

/-- `exporter_init`. -/
def exporterInit (o : InitOutcome) : ℤ × State :=
  let s := exporterAllocPage o
  if s.buffer.dmabufExported.isNull then (-ENOMEM, s)
  else (-o.register, { s with registered := o.register == 0 })

/-- `exporter_exit`. -/
def exporterExit (s : State) : State := { s with registered := false }

/-- Drop one reference to the file of the buffer; the last one runs `exporter_release`. -/
def fput (e : Exporter) (w : World) : World :=
  if w.fCount = 1 then exporterReleaseWith e.resetsGlobal { w with fCount := 0 }
  else { w with fCount := w.fCount - 1 }

/-- What the kernel answers `mmap`. -/
structure MmapOutcome where
  /-- The pages of the area. -/
  pages : ℕ
  /-- What `exporter_mmap` returns. -/
  mapped : ℤ
  deriving DecidableEq

/-- `exporter_misc_mmap` of dma-buf/05.  `dma_buf_mmap` refuses a `NULL` buffer and an area larger
than the buffer, and gives the area a reference of its own unless `exporter_mmap` fails. -/
def exporterMiscMmap (s : State) (m : MapId) (o : MmapOutcome) : ℤ × State :=
  match s.buffer.dmabufExported with
  | .obj () =>
    if 1 < o.pages then (-EINVAL, s)
    else
      let got := { s.buffer with fCount := s.buffer.fCount + 1 }
      if o.mapped ≠ 0 then (o.mapped, { s with buffer := fput .mmap05 got })
      else (0, { s with buffer := got, maps := insert m s.maps })
  | _ => (-EINVAL, s)

/-- What users do. -/
inductive UserOp
  | ioctl (p : Lifetime.Pid) (o : IoctlOutcome)
  | close (p : Lifetime.Pid) (fd : Fd)
  | mmap (m : MapId) (o : MmapOutcome)
  | munmap (m : MapId)

/-- What a user operation does to a loaded module, if the module has it. -/
def userStep (s : State) : Exporter → UserOp → Option State
  | .fd _, .ioctl p o => some { s with buffer := (Lifetime.exporterIoctl s.buffer p o).2 }
  | .fd e, .close p fd =>
    if (p, fd) ∈ s.buffer.fds then some { s with buffer := close e s.buffer p fd } else none
  | .mmap05, .mmap m o => if m ∈ s.maps then none else some (exporterMiscMmap s m o).2
  | .mmap05, .munmap m =>
    if m ∈ s.maps then some { s with buffer := fput .mmap05 s.buffer, maps := s.maps.erase m }
    else none
  | _, _ => none

/-- What can happen to a module. -/
inductive Action
  | load (o : InitOutcome)
  | user (op : UserOp)
  | unload

/-- The life of a module.  If `exporter_init` fails, the kernel frees the module; it runs
`exporter_exit` only when no live buffer holds the module. -/
def machine (e : Exporter) : Machine State Action where
  step s
    | .load o =>
      if s.phase = .unloaded then
        some { (exporterInit o).2 with
          phase := if (exporterInit o).1 = 0 then .loaded else .gone }
      else none
    | .user op => if s.phase = .loaded then userStep s e op else none
    | .unload =>
      if s.phase = .loaded ∧ s.buffer.live = false then some { exporterExit s with phase := .gone }
      else none

/-- When the module goes, its buffer is not alive, the memory was freed as often as it was got,
which is once at most, and the device is not registered. -/
structure Clean (s : State) : Prop where
  live_eq : s.buffer.live = false
  frees_eq : s.buffer.backingFrees = s.allocated
  allocated_le : s.allocated ≤ 1
  registered_eq : s.registered = false

/-- If there is a buffer, its device can be registered. -/
def Registers (_ : State) : Action → Prop
  | .load o => o.page = true → o.dmabuf = true → o.register = 0
  | _ => True

/-! ## The buffer -/

/-- The memory is freed when the buffer dies, which is when its last reference goes; the global of
dma-buf/05 names no dead buffer. -/
structure Sound (e : Exporter) (w : World) : Prop where
  live_iff : w.live = true ↔ 0 < w.fCount
  frees_eq : w.backingFrees = if w.live = true then 0 else 1
  exported : e = .mmap05 → w.dmabufExported = .obj () → w.live = true

namespace Sound

variable {e : Exporter} {w : World}

theorem exporterInit (e : Exporter) : Sound e Lifetime.exporterInit :=
  ⟨iff_of_true rfl Nat.one_pos, rfl, fun _ _ ↦ rfl⟩

/-- The descriptors do not matter. -/
theorem congr {w' : World} (h : Sound e w) (hcount : w'.fCount = w.fCount)
    (hlive : w'.live = w.live) (hfrees : w'.backingFrees = w.backingFrees)
    (hexp : w'.dmabufExported = w.dmabufExported) : Sound e w' := by
  refine ⟨?_, ?_, ?_⟩
  · rw [hlive, hcount]
    exact h.live_iff
  · rw [hfrees, hlive]
    exact h.frees_eq
  · rw [hexp, hlive]
    exact h.exported

/-- Whoever drops a reference, it is the last one that frees the memory. -/
theorem fput (h : Sound e w) : Sound e (fput e w) := by
  rw [ModuleLifetime.fput]
  split
  · rename_i hone
    have hlive := h.live_iff.mpr (by omega)
    have hfrees := h.frees_eq
    rw [if_pos hlive] at hfrees
    refine ⟨by simp [exporterReleaseWith], by simp [exporterReleaseWith, hfrees], ?_⟩
    rintro rfl
    simp [exporterReleaseWith, Exporter.resetsGlobal]
  · rename_i hne
    refine ⟨?_, h.frees_eq, h.exported⟩
    rw [h.live_iff]
    simp only
    omega

theorem exporterIoctl (p : Lifetime.Pid) (o : IoctlOutcome) (h : Sound e w) :
    Sound e (Lifetime.exporterIoctl w p o).2 := by
  rw [exporterIoctl_snd]
  unfold Lifetime.dmaBufFd
  split
  · split
    · exact h
    · exact h.congr rfl rfl rfl rfl
  · exact h
  · exact h

theorem close {e : Lifetime.Exporter} (p : Lifetime.Pid) (fd : Fd) (h : Sound (.fd e) w) :
    Sound (.fd e) (Lifetime.close e w p fd) := by
  have hclosed : Sound (.fd e) { w with fds := w.fds.erase (p, fd) } := h.congr rfl rfl rfl rfl
  exact hclosed.fput

/-- A mapping takes a reference to a live buffer. -/
theorem get (h : Sound .mmap05 w) (hexp : w.dmabufExported = .obj ()) :
    Sound .mmap05 { w with fCount := w.fCount + 1 } := by
  have hlive := h.exported rfl hexp
  exact ⟨iff_of_true hlive (Nat.succ_pos _), h.frees_eq, fun _ _ ↦ hlive⟩

theorem exporterMiscMmap {s : State} (m : MapId) (o : MmapOutcome) (h : Sound .mmap05 s.buffer) :
    Sound .mmap05 (exporterMiscMmap s m o).2.buffer := by
  rw [ModuleLifetime.exporterMiscMmap]
  split
  · rename_i hexp
    split
    · exact h
    · have hgot := h.get hexp
      simp only
      split
      · exact hgot.fput
      · exact hgot
  · exact h

/-- **A user operation** frees the memory only with the buffer. -/
theorem userStep {s s' : State} {op : UserOp} (h : Sound e s.buffer)
    (hstep : userStep s e op = some s') : Sound e s'.buffer := by
  cases e with
  | fd e =>
    cases op with
    | ioctl p o =>
      obtain rfl := Option.some_inj.mp hstep
      exact h.exporterIoctl p o
    | close p fd =>
      obtain ⟨-, ⟨⟩⟩ := Option.ite_none_right_eq_some.mp hstep
      exact h.close p fd
    | mmap m o => exact absurd hstep (by simp [ModuleLifetime.userStep])
    | munmap m => exact absurd hstep (by simp [ModuleLifetime.userStep])
  | mmap05 =>
    cases op with
    | ioctl p o => exact absurd hstep (by simp [ModuleLifetime.userStep])
    | close p fd => exact absurd hstep (by simp [ModuleLifetime.userStep])
    | mmap m o =>
      obtain ⟨-, ⟨⟩⟩ := Option.ite_none_left_eq_some.mp hstep
      exact h.exporterMiscMmap m o
    | munmap m =>
      obtain ⟨-, ⟨⟩⟩ := Option.ite_none_right_eq_some.mp hstep
      exact h.fput

end Sound

/-! ## The module -/

/-- The users leave the module as it is. -/
theorem userStep_keeps {e : Exporter} {s s' : State} {op : UserOp}
    (h : userStep s e op = some s') :
    s'.allocated = s.allocated ∧ s'.registered = s.registered ∧ s'.phase = s.phase := by
  unfold userStep at h
  split at h
  · exact Option.some_inj.mp h ▸ ⟨rfl, rfl, rfl⟩
  · obtain ⟨-, ⟨⟩⟩ := Option.ite_none_right_eq_some.mp h
    exact ⟨rfl, rfl, rfl⟩
  · obtain ⟨-, ⟨⟩⟩ := Option.ite_none_left_eq_some.mp h
    unfold exporterMiscMmap
    split
    · split
      · exact ⟨rfl, rfl, rfl⟩
      · simp only
        split <;> exact ⟨rfl, rfl, rfl⟩
    · exact ⟨rfl, rfl, rfl⟩
  · obtain ⟨-, ⟨⟩⟩ := Option.ite_none_right_eq_some.mp h
    exact ⟨rfl, rfl, rfl⟩
  · exact absurd h (by simp)

/-- What holds in the runs in which a buffer gets its device. -/
structure Kept (e : Exporter) (s : State) : Prop where
  sound : s.phase = .loaded → Sound e s.buffer ∧ s.allocated = 1
  clean : s.phase = .gone → Clean s

theorem kept_unloaded (e : Exporter) : Kept e unloaded := by
  refine ⟨fun h ↦ ?_, fun h ↦ ?_⟩ <;> exact absurd h (by decide)

/-- `exporter_init`: a module without a buffer goes clean, and a module whose device is registered
has a sound one. -/
theorem kept_exporterInit (e : Exporter) {o : InitOutcome}
    (hok : o.page = true → o.dmabuf = true → o.register = 0) :
    Kept e { (exporterInit o).2 with
      phase := if (exporterInit o).1 = 0 then .loaded else .gone } := by
  obtain ⟨page, dmabuf, register⟩ := o
  cases page with
  | false => exact ⟨fun h ↦ absurd h (by simp [exporterInit, exporterAllocPage, unloaded, ENOMEM]),
      fun _ ↦ ⟨rfl, rfl, Nat.zero_le 1, rfl⟩⟩
  | true =>
    cases dmabuf with
    | false =>
      exact ⟨fun h ↦ absurd h (by simp [exporterInit, exporterAllocPage, unloaded, ENOMEM]),
        fun _ ↦ ⟨rfl, rfl, Nat.le_refl 1, rfl⟩⟩
    | true =>
      obtain rfl : register = 0 := hok rfl rfl
      exact ⟨fun _ ↦ ⟨.exporterInit e, rfl⟩, fun h ↦ absurd h (by decide)⟩

/-- A registration that fails leaves the buffer behind. -/
theorem live_of_not_registers {o : InitOutcome}
    (hok : ¬ (o.page = true → o.dmabuf = true → o.register = 0)) :
    (exporterInit o).1 ≠ 0 ∧ (exporterInit o).2.buffer.live = true := by
  obtain ⟨page, dmabuf, register⟩ := o
  simp only [Classical.not_imp] at hok
  obtain ⟨rfl, rfl, hne⟩ := hok
  exact ⟨by simpa [exporterInit, exporterAllocPage, Lifetime.exporterInit] using hne, rfl⟩

/-- **A step of the module's life.** -/
theorem Kept.step {e : Exporter} {s s' : State} {a : Action} (h : Kept e s) (hok : Registers s a)
    (hstep : (machine e).step s a = some s') : Kept e s' := by
  cases a with
  | load o =>
    obtain ⟨-, ⟨⟩⟩ := Option.ite_none_right_eq_some.mp hstep
    exact kept_exporterInit e hok
  | user op =>
    obtain ⟨hloaded, hop⟩ := Option.ite_none_right_eq_some.mp hstep
    obtain ⟨hallocated, -, hphase⟩ := userStep_keeps hop
    obtain ⟨hsound, hone⟩ := h.sound hloaded
    refine ⟨fun _ ↦ ⟨hsound.userStep hop, hallocated.trans hone⟩, fun hgone ↦ ?_⟩
    rw [hphase, hloaded] at hgone
    exact absurd hgone (by decide)
  | unload =>
    obtain ⟨⟨hloaded, hdead⟩, ⟨⟩⟩ := Option.ite_none_right_eq_some.mp hstep
    obtain ⟨hsound, hone⟩ := h.sound hloaded
    refine ⟨fun hphase ↦ absurd hphase (by simp), fun _ ↦ ⟨hdead, ?_, hone.le, rfl⟩⟩
    have hfrees := hsound.frees_eq
    rw [hdead] at hfrees
    exact hfrees.trans hone.symm

/-- **The lifetime of the exporter modules.**  In every run of loading, user operations and
unloading, the module is gone only after its buffer, with its memory freed once and its device not
registered, if and only if it is not the registration of the device, with the buffer exported, that
failed. -/
theorem clean_iff (e : Exporter) {as : List Action} {s : State}
    (hrun : (machine e).Run Machine.free unloaded as s) :
    (∀ bs r, bs <+: as → (machine e).Run Machine.free unloaded bs r → r.phase = .gone → Clean r) ↔
      (machine e).Run Registers unloaded as s := by
  refine hrun.forall_take_iff (fun bs r hr ↦ ?_) fun bs r a r' hr hstep hok hgood ↦ ?_
  · exact (hr.invariant (fun _ _ _ h hok hstep ↦ Kept.step h hok hstep) (kept_unloaded e)).clean
  · cases a with
    | load o =>
      obtain ⟨-, ⟨⟩⟩ := Option.ite_none_right_eq_some.mp hstep
      obtain ⟨hret, hlive⟩ := live_of_not_registers hok
      exact absurd (hgood (if_neg hret)).live_eq (by simp [hlive])
    | user op => exact hok trivial
    | unload => exact hok trivial

/-- Load, hand out a descriptor, close it, unload. -/
def wholeLife : List Action :=
  [.load ⟨true, true, 0⟩, .user (.ioctl 0 ⟨some 3, true⟩), .user (.close 0 3), .unload]

theorem clean_wholeLife : ∃ s, (machine (.fd .page08)).exec unloaded wholeLife = some s ∧
    s.phase = .gone ∧ Clean s := by
  have hrun : (machine (.fd .page08)).Run Registers unloaded wholeLife _ :=
    .cons (fun _ _ ↦ rfl) rfl (.cons trivial rfl (.cons trivial rfl (.single trivial rfl)))
  have hexec : (machine (.fd .page08)).exec unloaded wholeLife = _ := rfl
  have hfree := Machine.exec_eq_some_iff.mp hexec
  exact ⟨_, rfl, rfl, (clean_iff _ hfree).mpr hrun wholeLife _ (List.prefix_refl _) hfree rfl⟩

/-- The device of dma-buf/08 cannot be registered: the module goes, and its buffer is alive. -/
theorem live_without_module : ∃ s, (machine (.fd .page08)).exec unloaded
    [.load ⟨true, true, 16⟩] = some s ∧ s.phase = .gone ∧ s.buffer.live = true ∧
      s.buffer.backingFrees = 0 ∧ s.allocated = 1 ∧ ¬ Clean s := by
  refine ⟨_, rfl, rfl, rfl, rfl, rfl, fun h ↦ ?_⟩
  exact absurd h.live_eq (by decide)

end DmaBuf.ModuleLifetime
