import Mathlib.Tactic.Common
import SampleDrivers.Vkms.VblankTimer

/-!
# Who frees the `vkms_device`

`vkms_init` allocates a `vkms_device`, whose first member is the `drm_device` the DRM core counts
references to and whose last is the vblank timer.  `vkms_exit` unregisters the device, drops the
driver's reference and then frees the allocation itself.

The DRM core, on the last reference, calls the driver's `release` callback if there is one and
otherwise frees the `drm_device` — which is the same address.  `vkms_driver` sets no `release`.

`deviceSafe_iff` is the outcome: the device is in order exactly as long as `vkms_exit` has not
run.  `Owned` says how it goes wrong: with no file open the allocation is freed twice by
`vkms_exit` itself, and with a file open it is freed while it is referenced and a second time at
the last close.
-/

set_option autoImplicit false

namespace Vkms.DeviceLifetime

/-- The allocation, the references to the `drm_device` inside it, and the timer inside it. -/
structure World where
  /-- The reference count of the `drm_device`. -/
  refCount : ℕ
  /-- Open files of the device; each holds a reference. -/
  opens : ℕ
  /-- The device is registered, so it can be opened. -/
  registered : Bool
  /-- How often the allocation has been passed to `kfree`. -/
  frees : ℕ
  /-- The allocation was freed while the `drm_device` had references. -/
  freedReferenced : Bool
  /-- The embedded timer and the core's use of it. -/
  timer : VblankTimer.World
  /-- `vkms_exit` has run. -/
  exited : Bool

/-- What the DRM core reads of `struct drm_driver` at the last reference. -/
structure DrmDriver where
  /-- The `release` callback, if the driver sets it. -/
  release : Option (World → World)

/-- `vkms_driver`. -/
def vkmsDriver : DrmDriver := ⟨none⟩

/-- `kfree` of the allocation, by whichever of its two addresses. -/
def kfree (w : World) : World :=
  { w with frees := w.frees + 1, freedReferenced := w.freedReferenced || decide (0 < w.refCount) }

/-- `drm_dev_unref`: the last reference runs the driver's `release`, or frees the device. -/
def drmDevUnref (driver : DrmDriver) (w : World) : World :=
  if w.refCount = 1 then (driver.release.getD kfree) { w with refCount := 0 }
  else { w with refCount := w.refCount - 1 }

/-- `drm_dev_unregister`: no new opens.  It does not disable vblank. -/
def drmDevUnregister (w : World) : World := { w with registered := false }

/-- After a `vkms_init` whose `kzalloc` succeeded: `drm_dev_init` set the count to one. -/
def vkmsInit : World :=
  { refCount := 1, opens := 0, registered := true, frees := 0, freedReferenced := false,
    timer := VblankTimer.vkmsInit, exited := false }

/-- `vkms_exit`. -/
def vkmsExit (w : World) : World :=
  { kfree (drmDevUnref vkmsDriver (drmDevUnregister w)) with exited := true }

/-- What happens to the device. -/
inductive Action
  /-- A process opens the device. -/
  | open
  /-- A process closes it. -/
  | close
  /-- A step of the timer or of the core enabling and disabling vblank. -/
  | vblank (a : VblankTimer.Action)
  /-- The module is removed. -/
  | exit

/-- The device under any sequence of opens, closes, vblank steps and one removal. -/
def machine : Machine World Action where
  step w
    | .open =>
      if w.registered = true then some { w with opens := w.opens + 1, refCount := w.refCount + 1 }
      else none
    | .close =>
      if 0 < w.opens then some (drmDevUnref vkmsDriver { w with opens := w.opens - 1 }) else none
    | .vblank a =>
      ((VblankTimer.machine .vkms).step w.timer a).map fun t ↦ { w with timer := t }
    | .exit => if w.exited = true then none else some (vkmsExit w)

/-- The allocation is freed once when the driver has gone, never while the `drm_device` is
referenced, and never with the timer armed. -/
structure DeviceSafe (w : World) : Prop where
  freed_once : w.frees = if w.exited = true then 1 else 0
  unreferenced : w.freedReferenced = false
  disarmed : 0 < w.frees → w.timer.armed = false

/-- The references and frees in every state of every run. -/
structure Owned (w : World) : Prop where
  /-- The driver holds a reference until it exits, every open file holds one. -/
  refCount_eq : w.refCount = w.opens + if w.exited = true then 0 else 1
  /-- The device can be opened until the driver exits. -/
  registered_iff : w.registered = true ↔ w.exited = false
  /-- Before the exit nothing is freed. -/
  running : w.exited = false → w.frees = 0 ∧ w.freedReferenced = false
  /-- After the exit, with files open, the allocation is already freed. -/
  exited_open : w.exited = true → 0 < w.opens → w.frees = 1 ∧ w.freedReferenced = true
  /-- After the exit and the last close it is freed twice. -/
  exited_closed : w.exited = true → w.opens = 0 → w.frees = 2

theorem owned_vkmsInit : Owned vkmsInit := by
  constructor <;> simp [vkmsInit]

/-- A close before the exit leaves the driver's reference. -/
theorem Owned.close_running {w : World} (h : Owned w) (hexited : w.exited = false)
    (hpos : 0 < w.opens) : Owned (drmDevUnref vkmsDriver { w with opens := w.opens - 1 }) := by
  have hrefs : w.refCount = w.opens + 1 := by simpa [hexited] using h.refCount_eq
  rw [drmDevUnref, if_neg (show w.refCount ≠ 1 by omega)]
  refine ⟨?_, h.registered_iff, h.running, fun hx ↦ ?_, fun hx ↦ ?_⟩
  · rw [if_neg (by simp [hexited])]
    show w.refCount - 1 = w.opens - 1 + 1
    omega
  · exact absurd hx (by simp [hexited])
  · exact absurd hx (by simp [hexited])

/-- The last close after the exit frees the device a second time. -/
theorem Owned.close_exited {w : World} (h : Owned w) (hexited : w.exited = true)
    (hpos : 0 < w.opens) : Owned (drmDevUnref vkmsDriver { w with opens := w.opens - 1 }) := by
  have hrefs : w.refCount = w.opens := by simpa [hexited] using h.refCount_eq
  obtain ⟨hone, href⟩ := h.exited_open hexited hpos
  rw [drmDevUnref]
  split
  · rename_i hlast
    have hopens : w.opens = 1 := hrefs.symm.trans hlast
    refine ⟨?_, h.registered_iff, fun hx ↦ ?_, fun _ hx ↦ ?_, fun _ _ ↦ ?_⟩
    · simp [vkmsDriver, kfree, hexited, hopens]
    · exact absurd hx (by simp [vkmsDriver, kfree, hexited])
    · exact absurd hx (by simp [vkmsDriver, kfree, hopens])
    · simp [vkmsDriver, kfree, hone]
  · rename_i hmany
    refine ⟨?_, h.registered_iff, h.running, fun _ _ ↦ ⟨hone, href⟩, fun _ hx ↦ ?_⟩
    · simp [hexited, hrefs]
    · exact absurd hx (by simp only at hmany ⊢; omega)

/-- `vkms_exit` frees the device twice when no file is open, and once too early when one is. -/
theorem Owned.exit {w : World} (h : Owned w) (hexited : w.exited = false) :
    Owned (vkmsExit w) := by
  have hrefs : w.refCount = w.opens + 1 := by simpa [hexited] using h.refCount_eq
  obtain ⟨hfrees, href⟩ := h.running hexited
  rw [vkmsExit, drmDevUnregister, drmDevUnref]
  split
  · rename_i hlast
    have hopens : w.opens = 0 := by simp only at hlast; omega
    refine ⟨?_, ?_, fun hx ↦ ?_, fun _ hx ↦ ?_, fun _ _ ↦ ?_⟩
    · simp [vkmsDriver, kfree, hopens]
    · simp [vkmsDriver, kfree]
    · exact absurd hx (by simp)
    · exact absurd hx (by simp [vkmsDriver, kfree, hopens])
    · simp [vkmsDriver, kfree, hfrees]
  · rename_i hmany
    have hopens : 0 < w.opens := by simp only at hmany; omega
    refine ⟨?_, ?_, fun hx ↦ ?_, fun _ _ ↦ ⟨?_, ?_⟩, fun _ hx ↦ ?_⟩
    · simp [kfree, hrefs]
    · simp [kfree]
    · exact absurd hx (by simp)
    · simp [kfree, hfrees]
    · simp [kfree, hrefs, hopens]
    · exact absurd hx (Nat.ne_of_gt hopens)

/-- **Every step keeps the account of references and frees.** -/
theorem Owned.step {w w' : World} {a : Action} (h : Owned w) (hstep : machine.step w a = some w') :
    Owned w' := by
  cases a with
  | «open» =>
    simp only [machine, Option.ite_none_right_eq_some, Option.some_inj] at hstep
    obtain ⟨hregistered, rfl⟩ := hstep
    have hexited := h.registered_iff.mp hregistered
    have hrefs := h.refCount_eq
    refine ⟨?_, h.registered_iff, h.running, fun hx ↦ ?_, fun hx ↦ ?_⟩
    · rw [if_neg (by simp [hexited])] at hrefs ⊢
      exact congrArg (· + 1) hrefs
    · exact absurd hx (by simp [hexited])
    · exact absurd hx (by simp [hexited])
  | close =>
    simp only [machine, Option.ite_none_right_eq_some, Option.some_inj] at hstep
    obtain ⟨hpos, rfl⟩ := hstep
    rcases Bool.eq_false_or_eq_true w.exited with hexited | hexited
    · exact h.close_exited hexited hpos
    · exact h.close_running hexited hpos
  | vblank a =>
    simp only [machine, Option.map_eq_some_iff] at hstep
    obtain ⟨t, -, rfl⟩ := hstep
    exact ⟨h.refCount_eq, h.registered_iff, h.running, h.exited_open, h.exited_closed⟩
  | exit =>
    simp only [machine, Option.ite_none_left_eq_some, Option.some_inj] at hstep
    obtain ⟨hexited, rfl⟩ := hstep
    exact h.exit (by simpa using hexited)

/-- **The lifetime of the `vkms_device`.**  In every run of opens, closes, enables, disables,
timer steps and the removal of the module, the device is freed correctly exactly as long as it is
not freed at all: once `vkms_exit` has run, it never is. -/
theorem deviceSafe_iff {as : List Action} {w : World}
    (hrun : machine.Run Machine.free vkmsInit as w) : DeviceSafe w ↔ w.exited = false := by
  have h : Owned w := hrun.invariant (fun _ _ _ hI _ hstep ↦ hI.step hstep) owned_vkmsInit
  constructor
  · intro hsafe
    by_contra hexited
    rw [Bool.not_eq_false] at hexited
    have hone := hsafe.freed_once
    rw [if_pos hexited] at hone
    rcases Nat.eq_zero_or_pos w.opens with h₀ | hpos
    · exact absurd (h.exited_closed hexited h₀) (by omega)
    · exact absurd (h.exited_open hexited hpos).2 (by simp [hsafe.unreferenced])
  · intro hexited
    obtain ⟨hfrees, href⟩ := h.running hexited
    exact ⟨by simp [hfrees, hexited], href, fun hpos ↦ absurd hfrees (Nat.ne_of_gt hpos)⟩

/-- Loading the module, opening and closing the device once and removing the module. -/
theorem deviceSafe_iff_openClose :
    ¬ DeviceSafe (vkmsExit vkmsInit) := by
  have hrun : machine.Run Machine.free vkmsInit [.open, .close, .exit] (vkmsExit vkmsInit) :=
    Machine.exec_eq_some_iff.mp rfl
  exact fun h ↦ absurd ((deviceSafe_iff hrun).mp h) (by simp [vkmsExit])

/-- Removing the module right after loading it frees the device twice, and with vblank on the
timer stays armed. -/
theorem vkmsExit_unsafe :
    (vkmsExit vkmsInit).frees = 2 ∧
      ∃ w, machine.exec vkmsInit [.vblank .beginEnable, .vblank .callEnable, .exit] = some w ∧
        0 < w.frees ∧ w.timer.armed = true :=
  ⟨rfl, _, rfl, by decide, rfl⟩

end Vkms.DeviceLifetime
