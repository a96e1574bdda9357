import SampleDrivers.Lib.Transition

/-!
# The vblank timer of vkms and the lock it shares with the DRM core

A vblank interrupt is simulated by an hrtimer.  Its callback `vkms_vblank_simulate` calls
`drm_crtc_handle_vblank`, which takes the DRM vblank lock, and asks to be restarted.  The timer is
started by one driver callback and cancelled by another with `hrtimer_cancel`, which does not
return while the timer's callback is running on another CPU.

Two drivers of the repository do this from different callbacks:

* `vkms_drv.c` starts the timer in `.enable_vblank` and cancels it in `.disable_vblank`, which the
  DRM core calls with the vblank lock held;
* `vkms_drv_6.c` does it in `.atomic_enable` and `.atomic_disable`, which it calls without.

`machine d` interleaves the timer and the core for driver `d`, one state for each point where the
other party can move.  `exactGuard_not_deadlock` settles when a driver is free of the deadlock in
which the core waits for the callback and the callback for the core's lock (for `vkms_drv_6.c`,
always); `Deadlock.stuck` says that it is one, and `vkms6_cancelReturns` that the disable path of
`vkms_drv_6.c` can always go on.
-/

set_option autoImplicit false

namespace Vkms.VblankTimer

/-- The drivers with a vblank timer. -/
inductive Driver
  /-- `vkms_drv.c`. -/
  | vkms
  /-- `vkms_drv_6.c`. -/
  | vkms6
  deriving DecidableEq, Repr

/-- Whether the DRM core holds the vblank lock around the driver's enable and disable callbacks:
it does around `.enable_vblank` and `.disable_vblank`. -/
def Driver.underLock : Driver → Bool
  | .vkms => true
  | .vkms6 => false

/-- Where the timer's callback `vkms_vblank_simulate` is. -/
inductive Callback
  /-- Not running. -/
  | inactive
  /-- Running, before `drm_crtc_handle_vblank` has the lock. -/
  | started
  /-- Inside `drm_crtc_handle_vblank`, with the lock. -/
  | locked
  /-- The lock released, about to forward the timer and return `HRTIMER_RESTART`. -/
  | unlocked
  deriving DecidableEq, Repr

/-- Where the DRM core is in enabling or disabling vblank. -/
inductive Core
  /-- Not enabling or disabling. -/
  | idle
  /-- About to call the driver's enable callback. -/
  | enabling
  /-- The enable callback has returned. -/
  | enabled
  /-- About to call the driver's disable callback. -/
  | disabling
  /-- Inside `hrtimer_cancel`, called by the disable callback. -/
  | cancelling
  /-- The disable callback has returned. -/
  | disabled
  deriving DecidableEq, Repr

/-- The timer, its callback and the DRM core. -/
structure World where
  /-- The timer is queued and will expire. -/
  armed : Bool
  /-- The timer's callback. -/
  callback : Callback
  /-- The DRM core. -/
  core : Core
  /-- Vblank is on: the enable callback has been called, and no disable callback has returned
  since. -/
  vblankOn : Bool
  deriving DecidableEq, Repr

/-- After `vkms_init`: the timer has never been started. -/
def vkmsInit : World := ⟨false, .inactive, .idle, false⟩

/-! ## The driver -/

/-- The enable callback (`vkms_enable_vblank`, in `vkms_drv_6.c` `vkms_crtc_atomic_enable`):
initialise the timer, set its function and start it. -/
def vkmsEnableVblank (w : World) : World := { w with armed := true, vblankOn := true }

/-- The disable callback (`vkms_disable_vblank`, in `vkms_drv_6.c` `vkms_crtc_atomic_disable`) has
called `hrtimer_cancel`, which returns once the callback is not running and takes the timer off
the queue. -/
def hrtimerCancelled (w : World) : World := { w with armed := false, vblankOn := false }

/-! ## Every interleaving -/

/-- One step of the timer or of the core. -/
inductive Action
  /-- The timer expires: `vkms_vblank_simulate` starts. -/
  | expire
  /-- `drm_crtc_handle_vblank` gets the lock. -/
  | handleVblank
  /-- `drm_crtc_handle_vblank` releases it. -/
  | vblankHandled
  /-- The callback forwards the timer and returns `HRTIMER_RESTART`. -/
  | restart
  /-- The core decides to enable vblank and, for `vkms_drv.c`, takes the lock. -/
  | beginEnable
  /-- The core calls the enable callback. -/
  | callEnable
  /-- The core decides to disable vblank and, for `vkms_drv.c`, takes the lock. -/
  | beginDisable
  /-- The core calls the disable callback, which calls `hrtimer_cancel`. -/
  | callDisable
  /-- `hrtimer_cancel` returns. -/
  | cancelReturn
  /-- The core is done and releases the lock if it took it. -/
  | finish
  deriving DecidableEq, Repr

/-- The core holds the vblank lock. -/
def CoreLocks (d : Driver) (w : World) : Prop := d.underLock = true ∧ w.core ≠ .idle

instance (d : Driver) : DecidablePred (CoreLocks d) := fun _ ↦ inferInstanceAs (Decidable (_ ∧ _))

/-- The timer and the DRM core around driver `d`.  The core enables and disables alternately, and
waits for the lock where it needs it. -/
def machine (d : Driver) : Machine World Action where
  step w
    | .expire =>
      if w.armed = true ∧ w.callback = .inactive then
        some { w with armed := false, callback := .started }
      else none
    | .handleVblank =>
      if w.callback = .started ∧ ¬ CoreLocks d w then some { w with callback := .locked } else none
    | .vblankHandled =>
      if w.callback = .locked then some { w with callback := .unlocked } else none
    | .restart =>
      if w.callback = .unlocked then some { w with callback := .inactive, armed := true } else none
    | .beginEnable =>
      if w.core = .idle ∧ w.vblankOn = false ∧ (d.underLock = true → w.callback ≠ .locked) then
        some { w with core := .enabling }
      else none
    | .callEnable =>
      if w.core = .enabling then some { vkmsEnableVblank w with core := .enabled } else none
    | .beginDisable =>
      if w.core = .idle ∧ w.vblankOn = true ∧ (d.underLock = true → w.callback ≠ .locked) then
        some { w with core := .disabling }
      else none
    | .callDisable => if w.core = .disabling then some { w with core := .cancelling } else none
    | .cancelReturn =>
      if w.core = .cancelling ∧ w.callback = .inactive then
        some { hrtimerCancelled w with core := .disabled }
      else none
    | .finish =>
      if w.core = .enabled ∨ w.core = .disabled then some { w with core := .idle } else none

/-- The disable path waits in `hrtimer_cancel` for the running callback, and the callback waits
for the lock the disable path holds. -/
def Deadlock (d : Driver) (w : World) : Prop :=
  w.core = .cancelling ∧ w.callback = .started ∧ CoreLocks d w

/-- Nothing can happen in a deadlock: neither party has a step. -/
theorem Deadlock.stuck {d : Driver} {w : World} (h : Deadlock d w) (a : Action) :
    (machine d).step w a = none := by
  obtain ⟨hcore, hcb, hlock⟩ := h
  cases a <;> simp [machine, hcore, hcb, hlock]

/-! ## When the two wait for each other -/

/-- The disable path has begun and its `hrtimer_cancel` has not returned. -/
def Disabling (w : World) : Prop := w.core = .disabling ∨ w.core = .cancelling

/-- The timer's callback and a disable path that holds the lock keep out of each other's way: the
core does not take the lock to disable vblank while a callback has started but not got the lock,
and the timer does not expire between that and the return of `hrtimer_cancel`. -/
def Apart (d : Driver) (w : World) : Action → Prop
  | .beginDisable => d.underLock = true → w.callback ≠ .started
  | .expire => d.underLock = true → ¬ Disabling w
  | _ => True

/-- What holds in every run that keeps the two apart. -/
def Clear (d : Driver) (w : World) : Prop :=
  d.underLock = true → Disabling w → w.callback ≠ .started

theorem Clear.not_deadlock {d : Driver} {w : World} (h : Clear d w) : ¬ Deadlock d w :=
  fun hd ↦ h hd.2.2.1 (.inr hd.1) hd.2.1

/-- **A step that keeps the two apart keeps the disable path clear of the callback.** -/
theorem Clear.step {d : Driver} {w w' : World} {a : Action} (h : Clear d w) (hok : Apart d w a)
    (hstep : (machine d).step w a = some w') : Clear d w' := by
  cases a <;> simp only [machine, Option.ite_none_right_eq_some, Option.some_inj] at hstep <;>
    obtain ⟨hguard, rfl⟩ := hstep
  case expire => exact fun hlock hdis ↦ absurd hdis (hok hlock)
  case handleVblank | vblankHandled | restart => exact fun _ _ ↦ by simp
  case beginEnable | callEnable | cancelReturn | finish =>
    exact fun _ hdis ↦ absurd hdis (by simp [Disabling])
  case beginDisable => exact fun hlock _ ↦ hok hlock
  case callDisable => exact fun hlock _ ↦ h hlock (.inl hguard)

/-- A callback that has started while the disable path holds the lock ends in the deadlock. -/
theorem canReach_deadlock {d : Driver} {w : World} (hlock : d.underLock = true)
    (hdis : Disabling w) (hcb : w.callback = .started) :
    (machine d).CanReach (fun t ↦ ¬ ¬ Deadlock d t) w := by
  have hstuck : ∀ v : World, v.core = .cancelling → v.callback = .started →
      ¬ ¬ Deadlock d v := by
    intro v hcore hv
    exact not_not.mpr ⟨hcore, hv, hlock, by simp [hcore]⟩
  rcases hdis with hcore | hcore
  · have hcall : (machine d).step w .callDisable = some { w with core := .cancelling } := by
      simp [machine, hcore]
    exact .step hcall (.now (hstuck _ rfl hcb))
  · exact .now (hstuck _ hcore hcb)

/-- **Deadlock freedom.**  In every interleaving of ticks, enables and disables in which no
callback stands between its start and the lock when the disable path takes it, and none starts
until `hrtimer_cancel` has returned, the two parties never wait for each other; a step that breaks
this can always be continued into the deadlock.  A driver that is called without the lock asks for
nothing. -/
theorem exactGuard_not_deadlock (d : Driver) :
    (machine d).ExactGuard (· = vkmsInit) (fun w ↦ ¬ Deadlock d w) (Apart d) := by
  refine .of_invariant (I := Clear d) ?_ (fun _ _ _ hI hok hstep ↦ hI.step hok hstep)
    (fun _ h ↦ h.not_deadlock) ?_
  · rintro _ rfl
    exact fun _ hdis ↦ absurd hdis (by simp [Disabling, vkmsInit])
  · intro w a w' _ hstep hok
    cases a <;> try exact absurd trivial hok
    all_goals
      simp only [machine, Option.ite_none_right_eq_some, Option.some_inj] at hstep
      obtain ⟨-, rfl⟩ := hstep
      obtain ⟨hlock, hnot⟩ := Classical.not_imp.mp hok
    case beginDisable => exact canReach_deadlock hlock (.inl rfl) (not_not.mp hnot)
    case expire => exact canReach_deadlock hlock (not_not.mp hnot) rfl

/-- Without a guard the deadlock is reached: the timer is started, it expires, and before the
callback has the lock the core takes it to disable vblank. -/
theorem reaches_deadlock : ∃ w, (machine .vkms).exec vkmsInit
    [.beginEnable, .callEnable, .finish, .expire, .beginDisable, .callDisable] = some w ∧
      Deadlock .vkms w :=
  ⟨⟨false, .started, .cancelling, true⟩, rfl, rfl, rfl, rfl, by decide⟩

/-! ## vkms_drv_6.c -/

/-- Where the disable path of `vkms_drv_6.c` waits for the callback, the callback can finish and
`hrtimer_cancel` return. -/
theorem vkms6_cancelReturns {w : World} (h : w.core = .cancelling) :
    (machine .vkms6).CanReach (fun t ↦ t.core = .disabled) w := by
  obtain ⟨armed, callback, core, on⟩ := w
  obtain rfl : core = .cancelling := h
  have hinactive : ∀ b, (machine .vkms6).CanReach (fun t ↦ t.core = .disabled)
      ⟨b, .inactive, .cancelling, on⟩ := by
    intro b
    have hreturn : (machine .vkms6).step ⟨b, .inactive, .cancelling, on⟩ .cancelReturn =
        some ⟨false, .inactive, .disabled, false⟩ := rfl
    exact .step hreturn (.now rfl)
  have hunlocked : (machine .vkms6).CanReach (fun t ↦ t.core = .disabled)
      ⟨armed, .unlocked, .cancelling, on⟩ :=
    .step (a := .restart) rfl (hinactive true)
  have hlocked : (machine .vkms6).CanReach (fun t ↦ t.core = .disabled)
      ⟨armed, .locked, .cancelling, on⟩ :=
    .step (a := .vblankHandled) rfl hunlocked
  cases callback with
  | inactive => exact hinactive armed
  | started =>
    exact .step (a := .handleVblank) (by simp [machine, CoreLocks, Driver.underLock]) hlocked
  | locked => exact hlocked
  | unlocked => exact hunlocked

end Vkms.VblankTimer
