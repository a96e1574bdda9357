import SampleDrivers.Vkms.VblankTimer

/-!
# What the vblank timer of vkms is used for, and when

The two drivers initialise their timer anew each time vblank is enabled.  `hrtimer_init` forgets
whether the timer is queued, `hrtimer_start` queues it whatever is running, and a callback that
asks to be restarted queues it again; used at the wrong moment, they leave two entries in the
queue, or two callbacks.

* `World` — the entries of the queue, the flag in the timer, and every callback that is running.
* `hrtimerInit`, `hrtimerRemove`, `enqueueHrtimer` — what the kernel does with them.
* `machine d` — the machine of `VblankTimer`, with the two halves of the enable callback apart.  The
  second half is one step: after `hrtimer_start` the callback only returns.
* `timer_disciplined` — the timer is initialised only when it rests, there is one of it at most,
  and it is armed or running exactly while vblank is enabled.
* `simulation_vblankTimer` — so the coarser machine, which has one timer and one callback, is right.
-/

set_option autoImplicit false

namespace Vkms.TimerDiscipline

open VblankTimer (Driver Callback)

/-- Where a running `vkms_vblank_simulate` is. -/
inductive Stage
  /-- Before `drm_crtc_handle_vblank` has the lock. -/
  | started
  /-- Inside `drm_crtc_handle_vblank`, with the lock. -/
  | locked
  /-- About to forward the timer and return `HRTIMER_RESTART`. -/
  | unlocked
  deriving DecidableEq, Repr

/-- Where the DRM core is in enabling or disabling vblank. -/
inductive Core
  /-- Not enabling or disabling. -/
  | idle
  /-- About to call the driver's enable callback. -/
  | enabling
  /-- Inside the enable callback, after `hrtimer_init`. -/
  | initialised
  /-- The enable callback has returned. -/
  | enabled
  /-- About to call the driver's disable callback. -/
  | disabling
  /-- Inside `hrtimer_cancel`, called by the disable callback. -/
  | cancelling
  /-- The disable callback has returned. -/
  | disabled
  deriving DecidableEq, Repr

/-- The timer queue, the timer, its callbacks and the DRM core. -/
structure World where
  /-- The entries of the timer in the queue. -/
  queued : ℕ
  /-- `HRTIMER_STATE_ENQUEUED` in the timer. -/
  enqueued : Bool
  /-- The callbacks that are running. -/
  running : List Stage
  /-- The DRM core. -/
  core : Core
  /-- The enable callback has returned, and no disable callback has returned since. -/
  vblankOn : Bool
  deriving DecidableEq, Repr

/-- After `vkms_init`: the timer has never been started. -/
def vkmsInit : World := ⟨0, false, [], .idle, false⟩

/-! ## The timer -/

/-- `hrtimer_init` clears the timer, and the queue does not know. -/
def hrtimerInit (w : World) : World := { w with enqueued := false }

/-- Take the timer off the queue, if it says that it is there. -/
def hrtimerRemove (w : World) : World :=
  if w.enqueued = true then { w with queued := w.queued - 1, enqueued := false } else w

/-- Put the timer into the queue, unless it says that it is there. -/
def enqueueHrtimer (w : World) : World :=
  if w.enqueued = true then w else { w with queued := w.queued + 1, enqueued := true }

/-- `hrtimer_start`. -/
def hrtimerStart (w : World) : World := enqueueHrtimer (hrtimerRemove w)

/-! ## Every interleaving -/

/-- One step of a timer callback or of the core. -/
inductive Action
  /-- The timer expires: a `vkms_vblank_simulate` starts. -/
  | expire
  /-- Callback `i` calls `drm_crtc_handle_vblank`, which gets the lock. -/
  | handleVblank (i : ℕ)
  /-- Its `drm_crtc_handle_vblank` releases the lock. -/
  | vblankHandled (i : ℕ)
  /-- It forwards the timer and returns `HRTIMER_RESTART`. -/
  | restart (i : ℕ)
  /-- The core decides to enable vblank and, for `vkms_drv.c`, takes the lock. -/
  | beginEnable
  /-- The core calls the enable callback, which initialises the timer. -/
  | hrtimerInit
  /-- The enable callback starts the timer and returns. -/
  | hrtimerStart
  /-- The core decides to disable vblank and, for `vkms_drv.c`, takes the lock. -/
  | beginDisable
  /-- The core calls the disable callback, which calls `hrtimer_cancel`. -/
  | callDisable
  /-- `hrtimer_cancel` finds no callback running, takes the timer off the queue and returns, and so
  does the disable callback. -/
  | cancelReturn
  /-- The callback `hrtimer_cancel` waits for returns and is not restarted, and `hrtimer_cancel` and
  the disable callback return. -/
  | cancelWaited
  /-- The core is done and releases the lock if it took it. -/
  | finish
  deriving DecidableEq, Repr

/-- The core holds the vblank lock. -/
def CoreLocks (d : Driver) (w : World) : Prop := d.underLock = true ∧ w.core ≠ .idle

instance (d : Driver) : DecidablePred (CoreLocks d) := fun _ ↦ inferInstanceAs (Decidable (_ ∧ _))

/-- The timer and the DRM core around driver `d`.  The core enables and disables alternately, and
whoever needs the vblank lock waits for it. -/
def machine (d : Driver) : Machine World Action where
  step w
    | .expire =>
      if 0 < w.queued then
        some { w with
          queued := w.queued - 1, enqueued := false, running := w.running ++ [.started] }
      else none
    | .handleVblank i =>
      if w.running[i]? = some .started ∧ .locked ∉ w.running ∧ ¬ CoreLocks d w then
        some { w with running := w.running.set i .locked }
      else none
    | .vblankHandled i =>
      if w.running[i]? = some .locked then some { w with running := w.running.set i .unlocked }
      else none
    | .restart i =>
      if w.running[i]? = some .unlocked then
        some (enqueueHrtimer { w with running := w.running.eraseIdx i })
      else none
    | .beginEnable =>
      if w.core = .idle ∧ w.vblankOn = false ∧ (d.underLock = true → .locked ∉ w.running) then
        some { w with core := .enabling }
      else none
    | .hrtimerInit =>
      if w.core = .enabling then some { hrtimerInit w with core := .initialised } else none
    | .hrtimerStart =>
      if w.core = .initialised then
        some { hrtimerStart w with core := .enabled, vblankOn := true }
      else none
    | .beginDisable =>
      if w.core = .idle ∧ w.vblankOn = true ∧ (d.underLock = true → .locked ∉ w.running) then
        some { w with core := .disabling }
      else none
    | .callDisable => if w.core = .disabling then some { w with core := .cancelling } else none
    | .cancelReturn =>
      if w.core = .cancelling ∧ w.running = [] then
        some { hrtimerRemove w with core := .disabled, vblankOn := false }
      else none
    | .cancelWaited =>
      if w.core = .cancelling ∧ w.running = [.unlocked] then
        some { hrtimerRemove w with running := [], core := .disabled, vblankOn := false }
      else none
    | .finish =>
      if w.core = .enabled ∨ w.core = .disabled then some { w with core := .idle } else none

/-- How the timer is to be used. -/
structure Disciplined (d : Driver) (w : World) : Prop where
  /-- `hrtimer_init` is applied to a timer that is neither armed nor running. -/
  init : ∀ w', (machine d).step w .hrtimerInit = some w' → w.queued = 0 ∧ w.running = []
  /-- One instance of the timer is armed or running at most. -/
  single : w.queued + w.running.length ≤ 1
  /-- It is armed or running exactly while vblank is enabled. -/
  active_iff : 0 < w.queued ∨ w.running ≠ [] ↔ w.vblankOn = true
  /-- A vblank is handled only while vblank is enabled. -/
  handled : ∀ i w', (machine d).step w (.handleVblank i) = some w' → w.vblankOn = true

/-! ## What every step keeps -/

/-- What the point the core has reached says about vblank. -/
def Core.on? : Core → Option Bool
  | .idle => none
  | .enabling | .initialised | .disabled => some false
  | .enabled | .disabling | .cancelling => some true

/-- The timer knows whether it is queued, there is one of it while vblank is on and none while it
is off, and the core knows which. -/
structure Kept (w : World) : Prop where
  flag : w.queued = if w.enqueued = true then 1 else 0
  active : w.queued + w.running.length = if w.vblankOn = true then 1 else 0
  core : ∀ b, w.core.on? = some b → w.vblankOn = b

theorem kept_vkmsInit : Kept vkmsInit := by
  refine ⟨rfl, rfl, fun b hb ↦ ?_⟩
  exact absurd hb (by simp [vkmsInit, Core.on?])

namespace Kept

variable {d : Driver} {w w' : World}

/-- While vblank is off, the timer rests. -/
theorem rests (h : Kept w) (hoff : w.vblankOn = false) :
    w.queued = 0 ∧ w.enqueued = false ∧ w.running = [] := by
  have hactive := h.active
  have hflag := h.flag
  rw [hoff, if_neg Bool.false_ne_true] at hactive
  refine ⟨by omega, ?_, List.eq_nil_of_length_eq_zero (by omega)⟩
  by_contra hset
  rw [if_pos (by simpa using hset)] at hflag
  omega

/-- While a callback is running, it is the only one, the timer is not queued, and vblank is on. -/
theorem alone (h : Kept w) {i : ℕ} {x : Stage} (hi : w.running[i]? = some x) :
    i = 0 ∧ w.running = [x] ∧ w.queued = 0 ∧ w.enqueued = false ∧ w.vblankOn = true := by
  have hactive := h.active
  have hflag := h.flag
  have hlt : i < w.running.length := (List.getElem?_eq_some_iff.mp hi).1
  have hon : w.vblankOn = true := by
    by_contra hoff
    rw [(h.rests (by simpa using hoff)).2.2] at hlt
    exact absurd hlt (Nat.not_lt_zero i)
  rw [hon, if_pos rfl] at hactive
  obtain rfl : i = 0 := by omega
  obtain ⟨y, hy⟩ := List.length_eq_one_iff.mp (by omega : w.running.length = 1)
  rw [hy, List.getElem?_cons_zero, Option.some_inj] at hi
  subst hi
  refine ⟨rfl, hy, by omega, ?_, hon⟩
  by_contra hset
  rw [if_pos (by simpa using hset)] at hflag
  omega

/-- While the timer is queued, it says so, and no callback is running. -/
theorem armed (h : Kept w) (hpos : 0 < w.queued) : w.enqueued = true ∧ w.running = [] := by
  have hactive := h.active
  have hflag := h.flag
  refine ⟨?_, List.eq_nil_of_length_eq_zero ?_⟩
  · by_contra hclear
    rw [if_neg hclear] at hflag
    omega
  · split at hactive <;> omega

/-- `hrtimer_cancel` takes the timer off the queue. -/
theorem removed (h : Kept w) : (hrtimerRemove w).queued = 0 ∧ (hrtimerRemove w).enqueued = false ∧
    (hrtimerRemove w).running = w.running := by
  have hflag := h.flag
  rw [hrtimerRemove]
  split
  · rename_i hset
    rw [if_pos hset] at hflag
    exact ⟨by simp only; omega, rfl, rfl⟩
  · rename_i hclear
    rw [if_neg hclear] at hflag
    exact ⟨hflag, by simpa using hclear, rfl⟩

theorem disciplined (h : Kept w) : Disciplined d w := by
  have hactive := h.active
  refine ⟨fun w' hstep ↦ ?_, ?_, ?_, fun i w' hstep ↦ ?_⟩
  · obtain ⟨hcore, -⟩ := Option.ite_none_right_eq_some.mp hstep
    obtain ⟨hqueued, -, hrunning⟩ := h.rests (h.core false (by rw [hcore]; rfl))
    exact ⟨hqueued, hrunning⟩
  · split at hactive <;> omega
  · rw [← List.length_pos_iff]
    cases hon : w.vblankOn with
    | false =>
      rw [hon, if_neg Bool.false_ne_true] at hactive
      exact iff_of_false (by omega) Bool.false_ne_true
    | true =>
      rw [hon, if_pos rfl] at hactive
      exact iff_of_true (by omega) rfl
  · obtain ⟨⟨hi, -⟩, -⟩ := Option.ite_none_right_eq_some.mp hstep
    exact (h.alone hi).2.2.2.2

/-- **A step of the timer or the core.** -/
theorem step {a : Action} (h : Kept w) (hstep : (machine d).step w a = some w') : Kept w' := by
  cases a with
  | expire =>
    obtain ⟨hpos, ⟨⟩⟩ := Option.ite_none_right_eq_some.mp hstep
    have hflag := h.flag
    have hactive := h.active
    refine ⟨?_, ?_, h.core⟩
    · split at hflag
      · simp only [Bool.false_eq_true, if_false]
        omega
      · omega
    · simp only [List.length_append, List.length_singleton]
      omega
  | handleVblank i =>
    obtain ⟨-, ⟨⟩⟩ := Option.ite_none_right_eq_some.mp hstep
    exact ⟨h.flag, by rw [← h.active, List.length_set], h.core⟩
  | vblankHandled i =>
    obtain ⟨-, ⟨⟩⟩ := Option.ite_none_right_eq_some.mp hstep
    exact ⟨h.flag, by rw [← h.active, List.length_set], h.core⟩
  | restart i =>
    obtain ⟨hi, ⟨⟩⟩ := Option.ite_none_right_eq_some.mp hstep
    obtain ⟨rfl, hrunning, hqueued, hflag, hon⟩ := h.alone hi
    rw [enqueueHrtimer, hflag, if_neg Bool.false_ne_true]
    refine ⟨by simp [hqueued], by simp [hqueued, hrunning, hon], h.core⟩
  | beginEnable =>
    obtain ⟨⟨-, hoff, -⟩, ⟨⟩⟩ := Option.ite_none_right_eq_some.mp hstep
    exact ⟨h.flag, h.active, fun b hb ↦ hoff.trans (Option.some_inj.mp hb)⟩
  | hrtimerInit =>
    obtain ⟨hcore, ⟨⟩⟩ := Option.ite_none_right_eq_some.mp hstep
    have hoff := h.core false (by rw [hcore]; rfl)
    exact ⟨(h.rests hoff).1, h.active, fun b hb ↦ hoff.trans (Option.some_inj.mp hb)⟩
  | hrtimerStart =>
    obtain ⟨hcore, ⟨⟩⟩ := Option.ite_none_right_eq_some.mp hstep
    obtain ⟨hqueued, hflag, hrunning⟩ := h.rests (h.core false (by rw [hcore]; rfl))
    rw [hrtimerStart, hrtimerRemove, hflag, if_neg Bool.false_ne_true, enqueueHrtimer, hflag,
      if_neg Bool.false_ne_true]
    exact ⟨by simp [hqueued], by simp [hqueued, hrunning], fun b hb ↦ Option.some_inj.mp hb⟩
  | beginDisable =>
    obtain ⟨⟨-, hon, -⟩, ⟨⟩⟩ := Option.ite_none_right_eq_some.mp hstep
    exact ⟨h.flag, h.active, fun b hb ↦ hon.trans (Option.some_inj.mp hb)⟩
  | callDisable =>
    obtain ⟨hcore, ⟨⟩⟩ := Option.ite_none_right_eq_some.mp hstep
    have hon := h.core true (by rw [hcore]; rfl)
    exact ⟨h.flag, h.active, fun b hb ↦ hon.trans (Option.some_inj.mp hb)⟩
  | cancelReturn =>
    obtain ⟨⟨-, hrunning⟩, ⟨⟩⟩ := Option.ite_none_right_eq_some.mp hstep
    obtain ⟨hqueued, hflag, hstill⟩ := h.removed
    exact ⟨by simp [hqueued, hflag], by simp [hqueued, hstill, hrunning],
      fun b hb ↦ Option.some_inj.mp hb⟩
  | cancelWaited =>
    obtain ⟨-, ⟨⟩⟩ := Option.ite_none_right_eq_some.mp hstep
    obtain ⟨hqueued, hflag, -⟩ := h.removed
    exact ⟨by simp [hqueued, hflag], by simp [hqueued], fun b hb ↦ Option.some_inj.mp hb⟩
  | finish =>
    obtain ⟨-, ⟨⟩⟩ := Option.ite_none_right_eq_some.mp hstep
    exact ⟨h.flag, h.active, fun b hb ↦ absurd hb (by simp [Core.on?])⟩

end Kept

/-- **The discipline of the vblank timer.**  In every run of the enable and disable callbacks, of
either driver, with the timer expiring and its callbacks taking their time in between, the timer is
initialised only when it is neither armed nor running, there is one of it at most, it is armed or
running exactly while vblank is enabled, and no vblank is handled while it is not. -/
theorem timer_disciplined (d : Driver) {as : List Action} {w : World}
    (hrun : (machine d).Run Machine.free vkmsInit as w) : Disciplined d w := by
  have hkept : Kept w := hrun.invariant (fun _ _ _ h _ hstep ↦ h.step hstep) kept_vkmsInit
  exact hkept.disciplined

/-- Vblank is enabled, the timer expires, `hrtimer_cancel` waits for the callback and takes the
timer it has restarted off the queue, and vblank is enabled again. -/
def enabledTwice : List Action :=
  [.beginEnable, .hrtimerInit, .hrtimerStart, .finish, .expire, .handleVblank 0, .beginDisable,
    .callDisable, .vblankHandled 0, .restart 0, .cancelReturn, .finish, .beginEnable, .hrtimerInit,
    .hrtimerStart]

theorem timer_disciplined_enabledTwice : ∃ w, (machine .vkms6).exec vkmsInit enabledTwice = some w ∧
    Disciplined .vkms6 w := by
  have hexec : (machine .vkms6).exec vkmsInit enabledTwice =
      some ⟨1, true, [], .enabled, true⟩ := by decide
  exact ⟨_, hexec, timer_disciplined .vkms6 (Machine.exec_eq_some_iff.mp hexec)⟩

/-! ## The coarser machine -/

/-- The callback of the coarser machine. -/
def Stage.callback : Stage → Callback
  | .started => .started
  | .locked => .locked
  | .unlocked => .unlocked

/-- The core of the coarser machine, for which the enable callback is one step. -/
def Core.coarse : Core → VblankTimer.Core
  | .idle => .idle
  | .enabling | .initialised => .enabling
  | .enabled => .enabled
  | .disabling => .disabling
  | .cancelling => .cancelling
  | .disabled => .disabled

/-- What the coarser machine sees. -/
def World.coarse (w : World) : VblankTimer.World where
  armed := w.enqueued
  callback := w.running.head?.elim .inactive Stage.callback
  core := w.core.coarse
  vblankOn := w.vblankOn

theorem coarse_core_idle {w : World} : w.coarse.core = .idle ↔ w.core = .idle := by
  change w.core.coarse = .idle ↔ _
  cases w.core <;> simp [Core.coarse]

theorem coreLocks_coarse {d : Driver} {w : World} :
    VblankTimer.CoreLocks d w.coarse ↔ CoreLocks d w := by
  rw [VblankTimer.CoreLocks, CoreLocks, Ne, Ne, coarse_core_idle]

theorem coarse_callback_locked {w : World} (h : .locked ∉ w.running) :
    w.coarse.callback ≠ .locked := by
  intro hcb
  cases hrunning : w.running with
  | nil => simp [World.coarse, hrunning] at hcb
  | cons x xs =>
    rw [hrunning] at h
    cases x <;> simp_all [World.coarse, Stage.callback]

/-- A callback that is running is the one of the coarser machine. -/
theorem Kept.coarse_callback {w : World} (h : Kept w) {i : ℕ} {x : Stage}
    (hi : w.running[i]? = some x) : w.coarse.callback = x.callback := by
  obtain ⟨-, hrunning, -⟩ := h.alone hi
  rw [World.coarse, hrunning]
  rfl

/-- A step is matched by steps of the coarser machine. -/
theorem Kept.coarse_run {d : Driver} {w w' : World} {a : Action} (h : Kept w)
    (hstep : (machine d).step w a = some w') :
    ∃ bs, (VblankTimer.machine d).Run Machine.free w.coarse bs w'.coarse := by
  cases a with
  | expire =>
    obtain ⟨hpos, ⟨⟩⟩ := Option.ite_none_right_eq_some.mp hstep
    obtain ⟨hflag, hrunning⟩ := h.armed hpos
    have hguard : w.coarse.armed = true ∧ w.coarse.callback = .inactive := by
      simp [World.coarse, hflag, hrunning]
    refine ⟨[.expire], .single trivial ((if_pos hguard).trans ?_)⟩
    simp [World.coarse, hrunning, Stage.callback]
  | handleVblank i =>
    obtain ⟨⟨hi, -, hlock⟩, ⟨⟩⟩ := Option.ite_none_right_eq_some.mp hstep
    obtain ⟨rfl, hrunning, -⟩ := h.alone hi
    have hguard : w.coarse.callback = .started ∧ ¬ VblankTimer.CoreLocks d w.coarse :=
      ⟨h.coarse_callback hi, fun hc ↦ hlock (coreLocks_coarse.mp hc)⟩
    refine ⟨[.handleVblank], .single trivial ((if_pos hguard).trans ?_)⟩
    simp [World.coarse, hrunning, Stage.callback]
  | vblankHandled i =>
    obtain ⟨hi, ⟨⟩⟩ := Option.ite_none_right_eq_some.mp hstep
    obtain ⟨rfl, hrunning, -⟩ := h.alone hi
    refine ⟨[.vblankHandled], .single trivial ((if_pos (h.coarse_callback hi)).trans ?_)⟩
    simp [World.coarse, hrunning, Stage.callback]
  | restart i =>
    obtain ⟨hi, ⟨⟩⟩ := Option.ite_none_right_eq_some.mp hstep
    obtain ⟨rfl, hrunning, -, hflag, -⟩ := h.alone hi
    refine ⟨[.restart], .single trivial ((if_pos (h.coarse_callback hi)).trans ?_)⟩
    simp [World.coarse, hrunning, enqueueHrtimer, hflag]
  | beginEnable =>
    obtain ⟨⟨hcore, hoff, hlock⟩, ⟨⟩⟩ := Option.ite_none_right_eq_some.mp hstep
    have hguard : w.coarse.core = .idle ∧ w.coarse.vblankOn = false ∧
        (d.underLock = true → w.coarse.callback ≠ .locked) :=
      ⟨coarse_core_idle.mpr hcore, hoff, fun hd ↦ coarse_callback_locked (hlock hd)⟩
    exact ⟨[.beginEnable], .single trivial (if_pos hguard)⟩
  | hrtimerInit =>
    obtain ⟨hcore, ⟨⟩⟩ := Option.ite_none_right_eq_some.mp hstep
    have hflag := (h.rests (h.core false (by rw [hcore]; rfl))).2.1
    have hsame : ({ hrtimerInit w with core := .initialised } : World).coarse = w.coarse := by
      simp [World.coarse, hrtimerInit, hflag, hcore, Core.coarse]
    exact ⟨[], hsame ▸ .nil _⟩
  | hrtimerStart =>
    obtain ⟨hcore, ⟨⟩⟩ := Option.ite_none_right_eq_some.mp hstep
    obtain ⟨-, hflag, -⟩ := h.rests (h.core false (by rw [hcore]; rfl))
    have hguard : w.coarse.core = .enabling := congrArg Core.coarse hcore
    refine ⟨[.callEnable], .single trivial ((if_pos hguard).trans ?_)⟩
    simp [World.coarse, VblankTimer.vkmsEnableVblank, hrtimerStart, hrtimerRemove, enqueueHrtimer,
      hflag, Core.coarse]
  | beginDisable =>
    obtain ⟨⟨hcore, hon, hlock⟩, ⟨⟩⟩ := Option.ite_none_right_eq_some.mp hstep
    have hguard : w.coarse.core = .idle ∧ w.coarse.vblankOn = true ∧
        (d.underLock = true → w.coarse.callback ≠ .locked) :=
      ⟨coarse_core_idle.mpr hcore, hon, fun hd ↦ coarse_callback_locked (hlock hd)⟩
    exact ⟨[.beginDisable], .single trivial (if_pos hguard)⟩
  | callDisable =>
    obtain ⟨hcore, ⟨⟩⟩ := Option.ite_none_right_eq_some.mp hstep
    have hguard : w.coarse.core = .disabling := congrArg Core.coarse hcore
    exact ⟨[.callDisable], .single trivial (if_pos hguard)⟩
  | cancelReturn =>
    obtain ⟨⟨hcore, hrunning⟩, ⟨⟩⟩ := Option.ite_none_right_eq_some.mp hstep
    obtain ⟨-, hflag, hstill⟩ := h.removed
    have hguard : w.coarse.core = .cancelling ∧ w.coarse.callback = .inactive :=
      ⟨congrArg Core.coarse hcore, by simp [World.coarse, hrunning]⟩
    refine ⟨[.cancelReturn], .single trivial ((if_pos hguard).trans ?_)⟩
    simp [World.coarse, VblankTimer.hrtimerCancelled, hflag, hstill, Core.coarse]
  | cancelWaited =>
    obtain ⟨⟨hcore, hrunning⟩, ⟨⟩⟩ := Option.ite_none_right_eq_some.mp hstep
    obtain ⟨-, hflag, -⟩ := h.removed
    have hfirst : w.running[0]? = some .unlocked := by rw [hrunning, List.getElem?_cons_zero]
    -- the coarser timer is restarted first, and cancelled all the same
    have hcancel : w.coarse.core = .cancelling ∧ Callback.inactive = .inactive :=
      ⟨congrArg Core.coarse hcore, rfl⟩
    refine ⟨[.restart, .cancelReturn], .cons trivial (if_pos (h.coarse_callback hfirst))
      (.single trivial ((if_pos hcancel).trans ?_))⟩
    simp [World.coarse, VblankTimer.hrtimerCancelled, hflag, Core.coarse]
  | finish =>
    obtain ⟨hcore, ⟨⟩⟩ := Option.ite_none_right_eq_some.mp hstep
    have hguard : w.coarse.core = .enabled ∨ w.coarse.core = .disabled :=
      hcore.imp (congrArg Core.coarse) (congrArg Core.coarse)
    exact ⟨[.finish], .single trivial (if_pos hguard)⟩

/-- **The timer refines the one of the coarser machine**, which has one flag for the queue and one
callback. -/
theorem simulation_vblankTimer (d : Driver) :
    (machine d).Simulation Machine.free (VblankTimer.machine d) Machine.free
      fun w v ↦ Kept w ∧ w.coarse = v := by
  rintro w _ a w' ⟨h, rfl⟩ - hstep
  obtain ⟨bs, hrun⟩ := h.coarse_run hstep
  exact ⟨bs, w'.coarse, hrun, h.step hstep, rfl⟩

end Vkms.TimerDiscipline
