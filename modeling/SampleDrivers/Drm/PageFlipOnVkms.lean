import SampleDrivers.Drm.PageFlip
import SampleDrivers.Vkms.FlipEvents

/-!
# modeset-page-flip on vkms

`PageFlip` takes the kernel for what the program may expect of it: a flip is taken or refused at
once, and completed at some time.  Here the program runs on the drivers themselves.  It is in an
ioctl while the workers go on with the commits before, its ioctl may wait for one of them or be
interrupted, and it may be told of a flip whose worker is not done with it.

The program does not look at what `drmModeSetCrtc` and `drmModePageFlip` return.  On a driver whose
encoder does not go with the CRTC both are refused, and it goes on without a screen.

* `System`, `machine d` — the program, and the CRTC under driver `d`.
* `implements_pageFlip` — to the program, this is `PageFlip.machine`.
* `flips_inTurn` — so the flips are as they are meant to be; or there are none.
-/

set_option autoImplicit false

namespace Drm.PageFlipOnVkms

open Kernel
open Vkms.FlipEvents (Driver World Request Follows)

/-- The program and the CRTC.  A buffer is named by its index in `buf`. -/
structure System where
  point : PageFlip.Point
  /-- The program is in an ioctl. -/
  calling : Bool
  /-- The static variable of the handler. -/
  i : ℕ
  terminate : Bool
  world : World ℕ Unit
  /-- The flip events that were not read yet. -/
  queue : ℕ
  /-- The calls of `drmModePageFlip` that have returned. -/
  requests : List PageFlip.Request
  deriving DecidableEq, Repr

/-- What the program is about to ask for. -/
def System.request (s : System) : Option (Request ℕ Unit) :=
  match s.point with
  | .setCrtc => some (.setConfig 0)
  | .firstFlip => some (.pageFlip 0 (some ()))
  | .toggled _ => some (.pageFlip s.i (some ()))
  | _ => none

/-- Where the program is after its ioctl. -/
def afterCall : PageFlip.Point → PageFlip.Point
  | .setCrtc => .firstFlip
  | .firstFlip => .loop
  | .toggled left => .asleep left
  | point => point

namespace System

/-- The driver is loaded, and the program has its buffers. -/
def begin : System := ⟨.setCrtc, false, 0, false, .vkmsInit, 0, []⟩

/-- The buffer on the screen. -/
def onScreen (s : System) : Option ℕ := s.world.done.getLast?.map Request.fb

/-- What an ioctl returns, if it returns now. -/
def returns (d : Driver) (w : World ℕ Unit) : Vkms.FlipEvents.Action ℕ Unit → Option ℤ
  | .ask r =>
    match w.error d r with
    | some e => some e
    | none => if d.atomic then none else some 0
  | .swapState =>
    match w.ioctl with
    | .checked r => if r.blocking then none else some 0
    | _ => none
  | .unlock => some 0
  | _ => none

/-- The program goes on after its ioctl. -/
def returned (s : System) (onScreen : Option ℕ) (ret : ℤ) : System :=
  { s with
    calling := false
    point := afterCall s.point
    requests := match s.request with
      | some (.pageFlip b _) => s.requests ++ [⟨b, onScreen, ret⟩]
      | _ => s.requests }

/-- The program is in an ioctl after the action: a call begins one, and one that was interrupted is
called again. -/
def stillCalling (s : System) : Vkms.FlipEvents.Action ℕ Unit → Bool
  | .ask _ => true
  | .interrupted => false
  | _ => s.calling

/-- A step of the CRTC, of which the program may get an event, or its ioctl return. -/
def crtc (d : Driver) (s : System) (a : Vkms.FlipEvents.Action ℕ Unit) : Option System :=
  ((Vkms.FlipEvents.machine d).step s.world a).map fun w ↦
    let s' := { s with
      world := w
      calling := s.stillCalling a
      queue := s.queue + (s.world.observe d a).count (.event ()) }
    match returns d s.world a with
    | some ret => s'.returned s.onScreen ret
    | none => s'

/-- The next step of the program, unless it is reading or in an ioctl. -/
def next (s : System) : Option System :=
  match s.point with
  | .loop => some { s with point := if s.terminate then .exited else .read }
  | .handler left => some { s with i := s.i ^^^ 1, point := .toggled left }
  | .asleep 0 => some { s with point := .loop }
  | .asleep (left + 1) => some { s with point := .handler left }
  | _ => none

end System

/-- A step of the program, of the CRTC, or of the user. -/
inductive Action
  /-- The program goes on. -/
  | next
  /-- The program calls an ioctl. -/
  | call
  /-- A worker goes on, or the ioctl the program is in. -/
  | crtc (a : Vkms.FlipEvents.Action ℕ Unit)
  /-- `read` returns one event and `left` more. -/
  | readEvents (left : ℕ)
  /-- `read` fails, and `drmHandleEvent` returns. -/
  | readFails
  /-- `SIGINT`. -/
  | sigint
  deriving DecidableEq, Repr

/-- The program, the CRTC and the user, each at its own pace. -/
def machine (d : Driver) : Machine System Action where
  step s
    | .next => s.next
    | .call => if s.calling then none else s.request.bind fun r ↦ s.crtc d (.ask r)
    | .crtc (.ask _) => none
    | .crtc a => s.crtc d a
    | .readEvents left =>
      if s.point = .read ∧ left < s.queue then
        some { s with queue := s.queue - (left + 1), point := .handler left }
      else none
    | .readFails => if s.point = .read then some { s with point := .loop } else none
    | .sigint => some { s with terminate := true }

/-- What an action is to the program on an ideal kernel. -/
def System.meaning (d : Driver) (s : System) : Action → List PageFlip.Action
  | .next => [.next]
  | .call =>
    s.request.elim [] fun r ↦
      if (s.world.error d r).isSome then [.next]
      else if d.atomic then []
      else if r.blocking then [.next] else [.next, .complete]
  | .crtc .swapState =>
    match s.world.ioctl with
    | .checked r => if r.blocking then [] else [.next]
    | _ => []
  | .crtc (.flushSend _) => if s.point = .setCrtc then [] else [.complete]
  | .crtc .unlock => [.next]
  | .crtc _ => []
  | .readEvents left => [.readEvents left]
  | .readFails => [.readFails]
  | .sigint => [.sigint]

/-- The program on an ideal kernel, which knows of a mode setting when it is done. -/
def System.view (s : System) : PageFlip.State where
  point := s.point
  i := s.i
  terminate := s.terminate
  onScreen := if s.point = .setCrtc then none else s.onScreen
  pending := if s.point = .setCrtc then none else s.world.inFlight.map Request.fb
  queue := s.queue
  completed := s.world.done.tail.map Request.fb
  requests := s.requests

/-! ## What every step keeps -/

/-- The CRTC with the program's mode setting and flips, and the ioctl it is in. -/
structure Kept (d : Driver) (s : System) (t : SingleFlight (Request ℕ Unit)) : Prop where
  follows : Follows d s.world t
  inOrder : t.InOrder
  idle : s.calling = false → s.world.ioctl = .none
  calling : s.calling = true → ∃ r, s.request = some r ∧
    (s.world.ioctl = .checked r ∨ r.blocking = true ∧ s.world.ioctl = .tail)
  /-- The mode setting has come to its commit, or not. -/
  before : s.point = .setCrtc →
    t.accepted = if s.world.ioctl = .tail then [.setConfig 0] else []
  after : s.point ≠ .setCrtc →
    (∃ gs, t.finished = .setConfig 0 :: gs) ∧ ∀ r ∈ t.accepted.tail, r.event = some ()

/-- The view, as the server that takes one request at a time has it. -/
def System.ideal (s : System) (t : SingleFlight (Request ℕ Unit)) : PageFlip.State where
  point := s.point
  i := s.i
  terminate := s.terminate
  onScreen := if s.point = .setCrtc then none else t.finished.getLast?.map Request.fb
  pending := if s.point = .setCrtc then none else t.inFlight.map Request.fb
  queue := s.queue
  completed := t.finished.tail.map Request.fb
  requests := s.requests

namespace Kept

variable {d : Driver} {s s' : System} {t : SingleFlight (Request ℕ Unit)}

theorem begin (d : Driver) : Kept d .begin .empty where
  follows := .vkmsInit d
  inOrder := rfl
  idle _ := rfl
  calling h := by cases h
  before _ := rfl
  after h := absurd rfl h

/-- What the program asks for is its mode setting, or a flip. -/
theorem request_cases {r : Request ℕ Unit} (h : s.request = some r) :
    s.point = .setCrtc ∧ r = .setConfig 0 ∨
      ∃ b, r = .pageFlip b (some ()) ∧ s.point ≠ .setCrtc ∧ afterCall s.point ≠ .setCrtc ∧
        ∀ p : PageFlip.State, p.point = s.point → p.i = s.i →
          p.next = some { p.pageFlip b with point := afterCall s.point } := by
  unfold System.request at h
  split at h
  · rename_i hpoint
    exact .inl ⟨hpoint, (Option.some_inj.mp h).symm⟩
  · rename_i hpoint
    refine .inr ⟨0, (Option.some_inj.mp h).symm, by simp [hpoint], by simp [hpoint, afterCall], ?_⟩
    intro p hp hi
    rw [PageFlip.State.next, hp, hpoint]
    rfl
  · rename_i left hpoint
    refine .inr ⟨s.i, (Option.some_inj.mp h).symm, by simp [hpoint], by simp [hpoint, afterCall],
      ?_⟩
    intro p hp hi
    rw [PageFlip.State.next, hp, hpoint, hi]
    rfl
  · cases h

/-- The request that was let through is the program's. -/
theorem checked (h : Kept d s t) {r : Request ℕ Unit} (hioctl : s.world.ioctl = .checked r) :
    s.calling = true ∧ s.request = some r := by
  rcases hcalling : s.calling with _ | _
  · exact absurd (hioctl.symm.trans (h.idle hcalling)) (by simp)
  · obtain ⟨r', hr', hchecked | ⟨-, htail⟩⟩ := h.calling hcalling
    · rw [hioctl] at hchecked
      cases hchecked
      exact ⟨rfl, hr'⟩
    · exact absurd (hioctl.symm.trans htail) (by simp)

theorem view_eq (h : Kept d s t) : s.view = s.ideal t := by
  rw [System.view, System.onScreen, h.follows.done_eq h.inOrder, h.follows.inFlight]
  rfl

theorem onScreen_eq (h : Kept d s t) : s.onScreen = t.finished.getLast?.map Request.fb := by
  rw [System.onScreen, h.follows.done_eq h.inOrder]

/-- The server finishes a flip where the ideal kernel completes it. -/
theorem complete_flip {r : Request ℕ Unit} {gs : List (Request ℕ Unit)}
    (hpoint : s.point ≠ .setCrtc) (hr : t.inFlight = some r)
    (hgs : t.finished = .setConfig 0 :: gs) :
    PageFlip.machine.step (s.ideal t) .complete =
      some ({ s with queue := s.queue + 1 }.ideal ⟨t.accepted, t.finished ++ [r], none⟩) := by
  simp only [PageFlip.machine, System.ideal, hpoint, hr, hgs, if_false, Option.map_some,
    List.cons_append, List.tail_cons, List.map_append, List.map_singleton]
  rw [← List.cons_append, List.getLast?_concat]
  rfl

/-- What a flip does that the ioctl returns from. -/
theorem returned_flip {b : ℕ} (hreq : s.request = some (.pageFlip b (some ())))
    (onScreen : Option ℕ) (ret : ℤ) :
    s.returned onScreen ret = { s with
      calling := false
      point := afterCall s.point
      requests := s.requests ++ [⟨b, onScreen, ret⟩] } := by
  rw [System.returned, hreq]

/-- The ideal kernel takes a flip where the server takes it. -/
theorem next_flip (h : Kept d s t) {b : ℕ} (hreq : s.request = some (.pageFlip b (some ())))
    (hnone : t.inFlight = none) :
    PageFlip.machine.step (s.ideal t) .next =
      some ((s.returned s.onScreen 0).ideal
        ⟨t.accepted ++ [.pageFlip b (some ())], t.finished, some (.pageFlip b (some ()))⟩) := by
  obtain ⟨-, hr⟩ | ⟨b', hb', hpoint, hafter, hflip⟩ := request_cases hreq
  · cases hr
  cases hb'
  have hpending : (s.ideal t).pending = none := by simp [System.ideal, hnone]
  refine (hflip (s.ideal t) rfl rfl).trans (congrArg some ?_)
  rw [PageFlip.pageFlip_of_none b hpending, returned_flip hreq, h.onScreen_eq]
  simp only [System.ideal, hpoint, hafter, if_false]
  rfl

/-- The ideal kernel refuses a flip where the driver refuses it. -/
theorem next_refused (h : Kept d s t) {b : ℕ} (hreq : s.request = some (.pageFlip b (some ())))
    (hflight : t.inFlight.isSome) :
    PageFlip.machine.step (s.ideal t) .next =
      some ((s.returned s.onScreen (-EBUSY)).ideal t) := by
  obtain ⟨-, hr⟩ | ⟨b', hb', hpoint, hafter, hflip⟩ := request_cases hreq
  · cases hr
  cases hb'
  have hpending : (s.ideal t).pending.isSome = true := by
    simpa [System.ideal, hpoint] using hflight
  refine (hflip (s.ideal t) rfl rfl).trans (congrArg some ?_)
  rw [PageFlip.State.pageFlip, if_pos hpending, returned_flip hreq, h.onScreen_eq]
  simp only [System.ideal, hpoint, hafter, if_false]

/-- A worker does something that is nothing to the program. -/
theorem setWorld (h : Kept d s t) {w : World ℕ Unit} (hw : Follows d w t)
    (hioctl : w.ioctl = s.world.ioctl) : Kept d { s with world := w } t :=
  { h with
    follows := hw
    idle := hioctl ▸ h.idle
    calling := hioctl ▸ h.calling
    before := hioctl ▸ h.before }

/-- The program goes on without an ioctl. -/
theorem move (h : Kept d s t) (hreq : s.request = none) {point : PageFlip.Point}
    (hpoint : point ≠ .setCrtc) (i queue : ℕ) :
    Kept d { s with point := point, i := i, queue := queue } t := by
  have hnot : s.calling = false := by
    rcases hcalling : s.calling with _ | _
    · rfl
    · obtain ⟨r, hr, -⟩ := h.calling hcalling
      exact absurd (hreq.symm.trans hr) (by simp)
  have hold : s.point ≠ .setCrtc := by
    intro hold
    rw [System.request, hold] at hreq
    cases hreq
  exact ⟨h.follows, h.inOrder, h.idle, fun hcalling ↦ absurd (hnot.symm.trans hcalling) (by simp),
    fun hnew ↦ absurd hnew hpoint, fun _ ↦ h.after hold⟩

/-- The event of a flip comes, and the flip is complete. -/
theorem flushSend (h : Kept d s t) {i : ℕ} (hstep : s.crtc d (.flushSend i) = some s') :
    ∃ t', PageFlip.machine.Run Machine.free (s.ideal t) (s.meaning d (.crtc (.flushSend i)))
      (s'.ideal t') ∧ Kept d s' t' := by
  obtain ⟨w, hw, hs'⟩ := Option.map_eq_some_iff.mp hstep
  obtain ⟨r, hr, hevent, hnext⟩ := h.follows.flushSend hw
  obtain rfl : s' = { s with world := w, queue := s.queue + r.event.toList.length } := by
    rw [← hs', World.observe, hevent]
    rcases r.event with _ | ⟨⟩ <;> rfl
  have hioctl : w.ioctl = s.world.ioctl := by
    obtain ⟨w₁, hadv, rfl⟩ := Option.map_eq_some_iff.mp hw
    rw [← World.ioctl_of_advance hadv]
    split <;> rfl
  have haccepted : t.accepted = t.finished ++ [r] := by rw [h.inOrder, hr]; rfl
  refine ⟨⟨t.accepted, t.finished ++ [r], none⟩, ?_, hnext, ?_, hioctl ▸ h.idle,
    hioctl ▸ h.calling, hioctl ▸ h.before, fun hpoint ↦ ?_⟩
  · rw [System.meaning]
    split
    · rename_i hpoint
      have hbefore := h.before hpoint
      rw [haccepted] at hbefore
      have honly : t.finished = [] ∧ r = .setConfig 0 := by
        split at hbefore
        · rcases List.append_eq_singleton_iff.mp hbefore with ⟨hnil, hr'⟩ | ⟨-, hnil⟩
          · exact ⟨hnil, List.singleton_inj.mp hr'⟩
          · cases hnil
        · exact absurd hbefore (by simp)
      rw [System.ideal, System.ideal, honly.1, honly.2]
      simp only [hpoint]
      exact .nil _
    · rename_i hpoint
      obtain ⟨⟨gs, hgs⟩, hevents⟩ := h.after hpoint
      have hsome : r.event = some () := by
        refine hevents r ?_
        rw [haccepted, hgs]
        exact List.mem_append_right gs (List.mem_singleton_self r)
      rw [hsome]
      exact .single trivial (complete_flip hpoint hr hgs)
  · rw [SingleFlight.InOrder, haccepted, Option.toList_none, List.append_nil]
  · obtain ⟨⟨gs, hgs⟩, hevents⟩ := h.after hpoint
    exact ⟨⟨gs ++ [r], by rw [hgs, List.cons_append]⟩, hevents⟩

/-- The program goes on after its mode setting. -/
theorem afterSetConfig {w : World ℕ Unit} {t' : SingleFlight (Request ℕ Unit)}
    (hpoint : s.point = .setCrtc) (hw : Follows d w t') (hioctl : w.ioctl = .none) (queue : ℕ)
    (onScreen : Option ℕ) (ret : ℤ) (hfinished : t'.finished = [.setConfig 0])
    (hnone : t'.inFlight = none) (ht' : t'.InOrder) :
    Kept d ({ s with world := w, queue := queue }.returned onScreen ret) t' := by
  have haccepted : t'.accepted.tail = [] := by
    rw [ht', hnone, hfinished]
    rfl
  refine ⟨hw, ht', fun _ ↦ hioctl, fun hcalling ↦ absurd hcalling Bool.false_ne_true,
    fun hnew ↦ ?_, fun _ ↦ ⟨⟨[], hfinished⟩, by simp [haccepted]⟩⟩
  simp [System.returned, hpoint, afterCall] at hnew

/-- The ideal kernel sets the mode at once. -/
theorem next_setConfig {t' : SingleFlight (Request ℕ Unit)} (hpoint : s.point = .setCrtc)
    (hfinished : t.finished.tail = []) (hfinished' : t'.finished = [.setConfig 0])
    (hnone : t'.inFlight = none) (onScreen : Option ℕ) (ret : ℤ) :
    PageFlip.machine.step (s.ideal t) .next = some ((s.returned onScreen ret).ideal t') := by
  change (s.ideal t).next = _
  rw [PageFlip.State.next]
  simp [System.ideal, System.returned, System.request, hpoint, afterCall, hfinished, hfinished',
    hnone, Request.fb]

/-- The program goes on after a flip. -/
theorem afterFlip (h : Kept d s t) {w : World ℕ Unit} {t' : SingleFlight (Request ℕ Unit)} {b : ℕ}
    (hreq : s.request = some (.pageFlip b (some ()))) (hw : Follows d w t') (ht' : t'.InOrder)
    (hioctl : w.ioctl = .none) (queue : ℕ) (onScreen : Option ℕ) (ret : ℤ)
    (haccepted : t'.accepted = t.accepted ∨ t'.accepted = t.accepted ++ [.pageFlip b (some ())])
    (hfinished : t.finished <+: t'.finished) :
    Kept d ({ s with world := w, queue := queue }.returned onScreen ret) t' := by
  obtain ⟨-, hr⟩ | ⟨b', hb', hpoint, hafter, -⟩ := request_cases hreq
  · cases hr
  cases hb'
  refine ⟨hw, ht', fun _ ↦ hioctl, fun hcalling ↦ absurd hcalling (by simp [System.returned]),
    fun hnew ↦ absurd hnew hafter, fun _ ↦ ?_⟩
  obtain ⟨⟨gs, hgs⟩, hevents⟩ := h.after hpoint
  obtain ⟨hs, hhs⟩ := hfinished
  refine ⟨⟨gs ++ hs, by rw [← hhs, hgs, List.cons_append]⟩, ?_⟩
  rcases haccepted with haccepted | haccepted
  · rwa [haccepted]
  · have hcons : t.accepted = .setConfig 0 :: (gs ++ t.inFlight.toList) := by
      rw [h.inOrder, hgs, List.cons_append]
    intro r hr
    rw [haccepted, hcons, List.cons_append, List.tail_cons] at hr
    rcases List.mem_append.mp hr with hr | hr
    · exact hevents r (by rwa [hcons, List.tail_cons])
    · rw [List.mem_singleton.mp hr]
      rfl

/-- The swap of a flip is where the flip is asked for; that of a mode setting is not noticed. -/
theorem swapState (h : Kept d s t) (hstep : s.crtc d .swapState = some s') :
    ∃ t', PageFlip.machine.Run Machine.free (s.ideal t) (s.meaning d (.crtc .swapState))
      (s'.ideal t') ∧ Kept d s' t' := by
  obtain ⟨w, hw, hs'⟩ := Option.map_eq_some_iff.mp hstep
  obtain ⟨r, hioctl, hnewest, rfl⟩ := World.swapState_eq_some hw
  obtain ⟨hcalling, hreq⟩ := h.checked hioctl
  obtain ⟨htakes, hnext⟩ := h.follows.swapState hioctl hnewest
  have hnone := (SingleFlight.takes_iff.mp htakes).1
  have hdone : t.accepted = t.finished := by
    rw [h.inOrder, hnone, Option.toList_none, List.append_nil]
  have hinOrder : SingleFlight.InOrder ⟨t.accepted ++ [r], t.finished, some r⟩ := by
    rw [SingleFlight.InOrder, hdone]
    rfl
  refine ⟨⟨t.accepted ++ [r], t.finished, some r⟩, ?_⟩
  simp only [System.returns, hioctl] at hs'
  simp only [System.meaning, hioctl]
  rcases request_cases hreq with ⟨hpoint, rfl⟩ | ⟨b, rfl, -⟩
  · have hnil := h.before hpoint
    rw [hioctl, if_neg (by simp)] at hnil
    subst hs'
    refine ⟨?_, hnext, hinOrder, fun hidle ↦ absurd (hcalling.symm.trans hidle) (by simp),
      fun _ ↦ ⟨_, hreq, .inr ⟨rfl, rfl⟩⟩, fun _ ↦ ?_, fun hnew ↦ absurd hpoint hnew⟩
    · simp only [System.ideal, hpoint, if_true]
      exact .nil _
    · rw [hnil]
      rfl
  · obtain rfl := hs'
    exact ⟨.single trivial (h.next_flip hreq hnone),
      h.afterFlip hreq hnext hinOrder rfl s.queue _ 0 (.inr rfl) (List.prefix_refl _)⟩

/-- A call that is interrupted is called again. -/
theorem interrupted (h : Kept d s t) (hstep : s.crtc d .interrupted = some s') :
    s'.ideal t = s.ideal t ∧ Kept d s' t := by
  obtain ⟨w, hw, rfl⟩ := Option.map_eq_some_iff.mp hstep
  obtain ⟨⟨r, hioctl⟩, rfl⟩ := World.interrupted_eq_some hw
  have hatomic := h.follows.atomic_of_ioctl hioctl (by simp)
  refine ⟨rfl, h.follows.setIoctl hatomic (by simp), h.inOrder, fun _ ↦ rfl,
    fun hcalling ↦ absurd hcalling Bool.false_ne_true, fun hpoint ↦ ?_, h.after⟩
  have hbefore := h.before hpoint
  rwa [hioctl, if_neg (by simp)] at hbefore

/-- The mode setting returns. -/
theorem unlock (h : Kept d s t) (hstep : s.crtc d .unlock = some s') :
    PageFlip.machine.step (s.ideal t) .next = some (s'.ideal t) ∧ Kept d s' t := by
  obtain ⟨w, hw, rfl⟩ := Option.map_eq_some_iff.mp hstep
  obtain ⟨hioctl, hnewest, rfl⟩ := World.unlock_eq_some hw
  have hatomic := h.follows.atomic_of_ioctl hioctl (by simp)
  have hcalling : s.calling = true := by
    rcases hcalling : s.calling with _ | _
    · exact absurd (hioctl.symm.trans (h.idle hcalling)) (by simp)
    · rfl
  obtain ⟨r, hreq, hchecked | ⟨hblocking, -⟩⟩ := h.calling hcalling
  · exact absurd (hioctl.symm.trans hchecked) (by simp)
  obtain ⟨hpoint, rfl⟩ | ⟨b, rfl, -⟩ := request_cases hreq
  · have hnone : t.inFlight = none :=
      h.follows.inFlight.symm.trans (h.follows.settled hnewest (by simp)).2
    have hbefore := h.before hpoint
    rw [hioctl, if_pos rfl, h.inOrder, hnone, Option.toList_none, List.append_nil] at hbefore
    exact ⟨next_setConfig hpoint (by rw [hbefore]; rfl) hbefore hnone _ 0,
      afterSetConfig hpoint (h.follows.setIoctl hatomic (by simp)) rfl _ _ 0 hbefore hnone
        h.inOrder⟩
  · cases hblocking

/-- Where the encoder goes with the CRTC, only a flip is refused, and only while another is under
way. -/
theorem of_error (h : Kept d s t) (hok : d.encoderCrtcOk = true) {r : Request ℕ Unit} {e : ℤ}
    (hreq : s.request = some r) (he : s.world.error d r = some e) :
    e = -EBUSY ∧ t.inFlight.isSome ∧ ∃ b, r = .pageFlip b (some ()) := by
  have htakes := h.follows.not_takes he
  obtain ⟨-, rfl⟩ := World.ask_of_error he
  rcases request_cases hreq with ⟨-, rfl⟩ | ⟨b, rfl, hpoint, -⟩
  · have herror : s.world.error d (.setConfig 0) = none :=
      World.error_eq_none_iff.mpr ⟨by rw [World.coreError, if_pos hok], fun _ ↦ rfl⟩
    exact absurd (he.symm.trans herror) (by simp)
  · obtain ⟨⟨gs, hgs⟩, -⟩ := h.after hpoint
    have hadmits : Vkms.FlipEvents.admits d t.accepted (.pageFlip b (some ())) = true := by
      rw [h.inOrder, hgs]
      rfl
    rw [SingleFlight.takes, hadmits, Bool.and_true] at htakes
    exact ⟨rfl, by rwa [← Option.isNone_eq_false_iff], b, rfl⟩

section

variable {r : Request ℕ Unit}

/-- What a call finds: the lock is free, and the driver gets the request. -/
theorem crtc_ask (h : Kept d s t) (hcalling : s.calling = false)
    (hstep : s.crtc d (.ask r) = some s') :
    let asked := { s with
      world := s.world.ask d r
      calling := true
      queue := s.queue + (s.world.observe d (.ask r)).count (Vkms.FlipEvents.Shown.event ()) }
    s.world.ioctl = .none ∧ s' =
      match System.returns d s.world (.ask r) with
      | some ret => asked.returned s.onScreen ret
      | none => asked := by
  have hioctl := h.idle hcalling
  obtain ⟨w, hw, hs'⟩ := Option.map_eq_some_iff.mp hstep
  simp only [Vkms.FlipEvents.machine, hioctl, Option.some_inj] at hw
  subst hw
  exact ⟨hioctl, hs'.symm⟩

/-- A call that is refused returns at once. -/
theorem call_refused (h : Kept d s t) (hok : d.encoderCrtcOk = true) {e : ℤ}
    (hcalling : s.calling = false) (hreq : s.request = some r)
    (herror : s.world.error d r = some e) (hstep : s.crtc d (.ask r) = some s') :
    PageFlip.machine.step (s.ideal t) .next = some (s'.ideal t) ∧ Kept d s' t := by
  obtain ⟨hioctl, rfl⟩ := h.crtc_ask hcalling hstep
  obtain ⟨rfl, hflight, b, rfl⟩ := h.of_error hok hreq herror
  obtain ⟨hsame, -⟩ := World.ask_of_error herror
  simp only [System.returns, World.observe, herror, hsame]
  exact ⟨h.next_refused hreq hflight,
    h.afterFlip hreq h.follows h.inOrder hioctl _ _ _ (.inl rfl) (List.prefix_refl _)⟩

/-- A driver that is not atomic is done with a call at once. -/
theorem call_legacy (h : Kept d s t) (hatomic : d.atomic = false) (hcalling : s.calling = false)
    (hreq : s.request = some r) (herror : s.world.error d r = none)
    (hstep : s.crtc d (.ask r) = some s') :
    ∃ t', PageFlip.machine.Run Machine.free (s.ideal t)
        (if r.blocking then [.next] else [.next, .complete]) (s'.ideal t') ∧ Kept d s' t' := by
  obtain ⟨hioctl, rfl⟩ := h.crtc_ask hcalling hstep
  obtain ⟨htakes, hnext⟩ := h.follows.legacyAsk hatomic herror
  have hnone := (SingleFlight.takes_iff.mp htakes).1
  have hinOrder : SingleFlight.InOrder ⟨t.accepted ++ [r], t.finished ++ [r], none⟩ := by
    rw [SingleFlight.InOrder, h.inOrder, hnone]
    simp
  have hioctl' : (s.world.legacy r).ioctl = .none := by
    rcases r with fb | ⟨fb, _ | e⟩ <;> exact hioctl
  simp only [System.returns, World.observe, herror, World.ask_of_none herror, hatomic,
    Bool.false_eq_true, if_false]
  refine ⟨⟨t.accepted ++ [r], t.finished ++ [r], none⟩, ?_⟩
  rcases request_cases hreq with ⟨hpoint, rfl⟩ | ⟨b, rfl, hpoint, hafter, -⟩
  · have hnil := h.before hpoint
    rw [hioctl, if_neg (by simp), h.inOrder, List.append_eq_nil_iff] at hnil
    have hfinished : t.finished ++ [Request.setConfig 0] = [.setConfig 0] := by
      rw [hnil.1]
      rfl
    exact ⟨.single trivial (next_setConfig hpoint (by rw [hnil.1]; rfl) hfinished rfl _ 0),
      afterSetConfig hpoint hnext hioctl' _ _ 0 hfinished rfl hinOrder⟩
  · obtain ⟨⟨gs, hgs⟩, -⟩ := h.after hpoint
    exact ⟨.cons trivial (h.next_flip hreq hnone)
        (.single trivial (complete_flip hafter rfl hgs)),
      h.afterFlip hreq hnext hinOrder hioctl' _ _ 0 (.inr rfl) (List.prefix_append ..)⟩

/-- An atomic driver lets a call through, which then waits. -/
theorem call_checked (h : Kept d s t) (hatomic : d.atomic = true) (hcalling : s.calling = false)
    (hreq : s.request = some r) (herror : s.world.error d r = none)
    (hstep : s.crtc d (.ask r) = some s') : s'.ideal t = s.ideal t ∧ Kept d s' t := by
  obtain ⟨hioctl, rfl⟩ := h.crtc_ask hcalling hstep
  simp only [System.returns, World.observe, herror, World.ask_of_none herror, hatomic, if_true]
  refine ⟨rfl, h.follows.setIoctl hatomic ?_, h.inOrder, fun hidle ↦ absurd hidle (by simp),
    fun _ ↦ ⟨r, hreq, .inl rfl⟩, fun hpoint ↦ ?_, h.after⟩
  · intro r' hr'
    cases hr'
    exact herror
  · have hbefore := h.before hpoint
    rwa [hioctl] at hbefore

/-- **A call of the program.** -/
theorem call (h : Kept d s t) (hok : d.encoderCrtcOk = true) (hcalling : s.calling = false)
    (hreq : s.request = some r) (hstep : s.crtc d (.ask r) = some s') :
    ∃ t', PageFlip.machine.Run Machine.free (s.ideal t) (s.meaning d .call) (s'.ideal t') ∧
      Kept d s' t' := by
  simp only [System.meaning, hreq, Option.elim_some]
  rcases herror : s.world.error d r with _ | e
  · rw [Option.isSome_none, if_neg Bool.false_ne_true]
    rcases hatomic : d.atomic with _ | _
    · rw [if_neg Bool.false_ne_true]
      exact h.call_legacy hatomic hcalling hreq herror hstep
    · obtain ⟨hideal, hkept⟩ := h.call_checked hatomic hcalling hreq herror hstep
      exact ⟨t, hideal ▸ .nil _, hkept⟩
  · obtain ⟨hnext, hkept⟩ := h.call_refused hok hcalling hreq herror hstep
    exact ⟨t, .single trivial hnext, hkept⟩

end

/-- A step of the program that is no ioctl. -/
theorem next (h : Kept d s t) (hstep : s.next = some s') :
    PageFlip.machine.step (s.ideal t) .next = some (s'.ideal t) ∧ Kept d s' t := by
  change (s.ideal t).next = _ ∧ _
  unfold System.next at hstep
  split at hstep
  · rename_i hpoint
    obtain rfl := Option.some_inj.mp hstep
    have hreq : s.request = none := by rw [System.request, hpoint]
    refine ⟨?_, h.move hreq (by split <;> simp) _ _⟩
    rcases hterminate : s.terminate with _ | _ <;>
      simp [PageFlip.State.next, System.ideal, hpoint, hterminate]
  · rename_i left hpoint
    obtain rfl := Option.some_inj.mp hstep
    have hreq : s.request = none := by rw [System.request, hpoint]
    refine ⟨?_, h.move hreq (by simp) _ _⟩
    simp [PageFlip.State.next, System.ideal, hpoint]
  · rename_i hpoint
    obtain rfl := Option.some_inj.mp hstep
    have hreq : s.request = none := by rw [System.request, hpoint]
    refine ⟨?_, h.move hreq (by simp) _ _⟩
    simp [PageFlip.State.next, System.ideal, hpoint]
  · rename_i left hpoint
    obtain rfl := Option.some_inj.mp hstep
    have hreq : s.request = none := by rw [System.request, hpoint]
    refine ⟨?_, h.move hreq (by simp) _ _⟩
    simp [PageFlip.State.next, System.ideal, hpoint]
  · cases hstep

/-- A worker goes on, and the program does not notice. -/
theorem worker (h : Kept d s t) {w : World ℕ Unit} {stage stage' : Vkms.FlipEvents.Stage} {i : ℕ}
    {w₁ : World ℕ Unit} (hadv : s.world.advance i stage stage' = some w₁)
    (hioctl : w.ioctl = w₁.ioctl) (hw : Follows d w t) :
    Kept d { s with world := w } t :=
  h.setWorld hw (hioctl.trans (World.ioctl_of_advance hadv))

/-- **One step.**  It is what it means to the program on an ideal kernel. -/
theorem step {a : Action} (h : Kept d s t) (hok : d.encoderCrtcOk = true)
    (hstep : (machine d).step s a = some s') :
    ∃ t', PageFlip.machine.Run Machine.free (s.ideal t) (s.meaning d a) (s'.ideal t') ∧
      Kept d s' t' := by
  rcases a with _ | _ | a | left | _ | _
  · obtain ⟨hnext, hkept⟩ := h.next hstep
    exact ⟨t, .single trivial hnext, hkept⟩
  · obtain ⟨hcalling, hsome⟩ := Option.ite_none_left_eq_some.mp hstep
    obtain ⟨r, hreq, hcrtc⟩ := Option.bind_eq_some_iff.mp hsome
    exact h.call hok (Bool.eq_false_iff.mpr hcalling) hreq hcrtc
  · rcases a with r | _ | _ | i | i | i | i | i | _
    · cases hstep
    · obtain ⟨hideal, hkept⟩ := h.interrupted hstep
      exact ⟨t, hideal ▸ .nil _, hkept⟩
    · exact h.swapState hstep
    · obtain ⟨w, hw, rfl⟩ := Option.map_eq_some_iff.mp hstep
      exact ⟨t, .nil _, h.worker hw rfl (h.follows.flushTest hw)⟩
    · exact h.flushSend hstep
    · obtain ⟨w, hw, rfl⟩ := Option.map_eq_some_iff.mp hstep
      obtain ⟨w₁, hadv, hw₁⟩ := Option.map_eq_some_iff.mp hw
      exact ⟨t, .nil _, h.worker hadv (hw₁ ▸ rfl) (h.follows.flushClear hw)⟩
    · obtain ⟨w, hw, rfl⟩ := Option.map_eq_some_iff.mp hstep
      obtain ⟨w₁, hadv, hw₁⟩ := Option.map_eq_some_iff.mp hw
      exact ⟨t, .nil _, h.worker hadv (hw₁ ▸ rfl) (h.follows.commitHwDone hw)⟩
    · obtain ⟨w, hw, rfl⟩ := Option.map_eq_some_iff.mp hstep
      exact ⟨t, .nil _, h.worker hw rfl (h.follows.cleanup hw)⟩
    · obtain ⟨hnext, hkept⟩ := h.unlock hstep
      exact ⟨t, .single trivial hnext, hkept⟩
  · obtain ⟨⟨hpoint, hleft⟩, hsome⟩ := Option.ite_none_right_eq_some.mp hstep
    obtain rfl := Option.some_inj.mp hsome
    have hreq : s.request = none := by rw [System.request, hpoint]
    refine ⟨t, .single trivial ?_, h.move hreq (by simp) s.i _⟩
    simp [PageFlip.machine, System.ideal, hpoint, hleft]
  · obtain ⟨hpoint, hsome⟩ := Option.ite_none_right_eq_some.mp hstep
    obtain rfl := Option.some_inj.mp hsome
    have hreq : s.request = none := by rw [System.request, hpoint]
    refine ⟨t, .single trivial ?_, h.move hreq (by simp) s.i s.queue⟩
    simp [PageFlip.machine, System.ideal, hpoint]
  · obtain rfl := Option.some_inj.mp hstep
    exact ⟨t, .single trivial rfl, { h with }⟩

end Kept

/-! ## Without a screen -/

/-- The program goes on though its mode setting and its flip were refused. -/
structure Dark (s : System) : Prop where
  world : s.world = .vkmsInit
  calling : s.calling = false
  queue : s.queue = 0
  requests : s.point ∈ [.setCrtc, .firstFlip] ∧ s.requests = [] ∨
    s.point ∈ [.loop, .read, .exited] ∧ s.requests = [⟨0, none, -EBUSY⟩]

namespace Dark

variable {d : Driver} {s s' : System}

theorem begin : Dark .begin := ⟨rfl, rfl, rfl, .inl ⟨by decide, rfl⟩⟩

/-- Nothing can happen on the CRTC. -/
theorem crtc_eq_none (h : Dark s) {a : Vkms.FlipEvents.Action ℕ Unit}
    (ha : ∀ r, a ≠ .ask r) : s.crtc d a = none := by
  rw [System.crtc, h.world, Option.map_eq_none_iff]
  rcases a with r | _ | _ | i | i | i | i | i | _
  · exact absurd rfl (ha r)
  all_goals rfl

/-- The program gets on from one point to another. -/
theorem move (h : Dark s) {point : PageFlip.Point} (hold : s.point ∈ [.loop, .read, .exited])
    (hnew : point ∈ [.loop, .read, .exited]) : Dark { s with point := point } := by
  refine ⟨h.world, h.calling, h.queue, .inr ⟨hnew, ?_⟩⟩
  rcases h.requests with ⟨hpoint, -⟩ | ⟨-, hrequests⟩
  · rcases List.mem_pair.mp hpoint with hpoint | hpoint <;> simp [hpoint] at hold
  · exact hrequests

/-- What the program asks for is refused, and it goes on. -/
theorem call (h : Dark s) (hnot : d.encoderCrtcOk = false) {r : Request ℕ Unit}
    (hreq : s.request = some r) (hstep : s.crtc d (.ask r) = some s') : Dark s' := by
  have hrefused : (World.vkmsInit : World ℕ Unit).error d r = some (-r.errno) := by
    rcases r with fb | ⟨fb, event⟩
    · simp [World.error, World.coreError, hnot, Request.errno]
    · rfl
  obtain ⟨hsame, -⟩ := World.ask_of_error hrefused
  have honScreen : s.onScreen = none := by rw [System.onScreen, h.world]; rfl
  rw [System.crtc, h.world] at hstep
  obtain ⟨w, hw, hs'⟩ := Option.map_eq_some_iff.mp hstep
  obtain rfl : World.vkmsInit = w := hsame.symm.trans (Option.some_inj.mp hw)
  simp only [World.observe, System.returns, hrefused] at hs'
  subst hs'
  rcases h.requests with ⟨hpoint, hrequests⟩ | ⟨hpoint, -⟩
  · rcases List.mem_pair.mp hpoint with hpoint | hpoint
    all_goals
      refine ⟨rfl, rfl, h.queue, ?_⟩
      rw [System.request, hpoint] at hreq
      obtain rfl := Option.some_inj.mp hreq
    · exact .inl (by simp [System.returned, System.request, hpoint, afterCall, hrequests])
    · exact .inr (by
        simp [System.returned, System.request, hpoint, afterCall, hrequests, honScreen,
          Request.errno])
  · have hnone : s.request = none := by
      rw [System.request]
      split <;> rename_i hat
      · simp [hat] at hpoint
      · simp [hat] at hpoint
      · simp [hat] at hpoint
      · rfl
    exact absurd (hnone.symm.trans hreq) (by simp)

theorem next (h : Dark s) (hstep : s.next = some s') : Dark s' := by
  unfold System.next at hstep
  split at hstep
  case h_1 hpoint =>
    obtain rfl := Option.some_inj.mp hstep
    exact h.move (by simp [hpoint]) (by split <;> simp)
  case h_5 => cases hstep
  all_goals
    rename_i hpoint
    rcases h.requests with ⟨hat, -⟩ | ⟨hat, -⟩ <;> simp [hpoint] at hat

theorem step {a : Action} (h : Dark s) (hnot : d.encoderCrtcOk = false)
    (hstep : (machine d).step s a = some s') : Dark s' := by
  rcases a with _ | _ | a | left | _ | _
  · exact h.next hstep
  · obtain ⟨-, hsome⟩ := Option.ite_none_left_eq_some.mp hstep
    obtain ⟨r, hreq, hcrtc⟩ := Option.bind_eq_some_iff.mp hsome
    exact h.call hnot hreq hcrtc
  · rcases a with r | _ | _ | i | i | i | i | i | _
    · cases hstep
    all_goals exact absurd ((h.crtc_eq_none (by simp)).symm.trans hstep) (by simp)
  · obtain ⟨⟨-, hleft⟩, -⟩ := Option.ite_none_right_eq_some.mp hstep
    exact absurd (h.queue ▸ hleft) (Nat.not_lt_zero left)
  · obtain ⟨hpoint, hsome⟩ := Option.ite_none_right_eq_some.mp hstep
    obtain rfl := Option.some_inj.mp hsome
    exact h.move (by simp [hpoint]) (by simp)
  · obtain rfl := Option.some_inj.mp hstep
    exact { h with }

end Dark

/-! ## Every run -/

/-- The program on a driver is where the program on an ideal kernel is. -/
def Sees (d : Driver) (s : System) (p : PageFlip.State) : Prop := ∃ t, Kept d s t ∧ p = s.ideal t

/-- **A driver whose encoder goes with the CRTC is as good as an ideal kernel.** -/
theorem implements_pageFlip {d : Driver} (hok : d.encoderCrtcOk = true) :
    (machine d).Implements Machine.free (fun _ _ ↦ ([] : List ℕ)) PageFlip.machine Machine.free
      (fun _ _ ↦ []) (System.meaning d) (Sees d) := by
  rintro s p a s' ⟨t, h, rfl⟩ - hstep
  obtain ⟨t', hrun, hkept⟩ := h.step hok hstep
  exact ⟨_, hrun, ⟨t', hkept, rfl⟩, Machine.outputs_eq_nil (by simp) _⟩

/-- **The page flips on vkms.**  However the workers of the driver, the ioctls of the program and
the user get in each other's way: if the encoder goes with the CRTC, as it does in `vkms_drv.c`, a
flip is pending or its event waits to be answered, but never two of these; the driver refuses none,
though it sends the event of a flip before it is through with it; every flip but the first is to
the buffer that is not on the screen; and the buffers come onto it in turn.  In the other two
drivers the mode setting and the only flip are refused, and there is nothing on the screen. -/
theorem flips_inTurn {d : Driver} {as : List Action} {s : System}
    (hrun : (machine d).Run Machine.free .begin as s) :
    (d.encoderCrtcOk = true → PageFlip.InTurn s.view) ∧ (d.encoderCrtcOk = false → Dark s) := by
  refine ⟨fun hok ↦ ?_, fun hnot ↦ ?_⟩
  · obtain ⟨p, hideal, ⟨t, h, rfl⟩, -⟩ :=
      (implements_pageFlip hok).run hrun ⟨.empty, .begin d, rfl⟩
    rw [h.view_eq]
    have hkept : PageFlip.Before (s.ideal t) ∨ PageFlip.After (s.ideal t) := by
      refine hideal.invariant (I := fun p ↦ PageFlip.Before p ∨ PageFlip.After p)
        (fun p a p' hp _ hstep ↦ ?_) (.inl ⟨.inl rfl, rfl, rfl, rfl, rfl, rfl⟩)
      rcases hp with hp | hp
      · exact hp.step hstep
      · exact .inr (hp.step hstep)
    rcases hkept with hp | hp
    · exact hp.inTurn
    · exact hp.inTurn
  · exact hrun.invariant (fun s a s' h _ hstep ↦ h.step hnot hstep) .begin

/-- The first flip's event is handled before its worker has cleared it, and the call for the next is
interrupted, and made again. -/
def nextWhileFlushing : List Action :=
  [.call, .crtc .swapState, .crtc (.flushTest 0), .crtc (.flushSend 0), .crtc (.flushClear 0),
    .crtc (.commitHwDone 0), .crtc (.cleanup 0), .crtc .unlock, .call, .crtc .swapState,
    .crtc (.flushTest 1), .next, .crtc (.flushSend 1), .readEvents 0, .next, .call, .sigint,
    .crtc .interrupted, .crtc (.flushClear 1), .call, .crtc (.commitHwDone 1), .crtc .swapState]

theorem flips_inTurn_nextWhileFlushing :
    (∃ s, (machine .vkms).exec .begin nextWhileFlushing = some s ∧
      s.requests = [⟨0, some 0, 0⟩, ⟨1, some 0, 0⟩] ∧ PageFlip.InTurn s.view) ∧
    ∃ s, (machine .vkms5).exec .begin [.call, .call, .next, .sigint] = some s ∧
      s.requests = [⟨0, none, -EBUSY⟩] ∧ Dark s := by
  have hexec : (machine .vkms).exec .begin nextWhileFlushing = some _ := rfl
  have hexec' : (machine .vkms5).exec .begin [.call, .call, .next, .sigint] = some _ := rfl
  exact ⟨⟨_, hexec, rfl, (flips_inTurn (Machine.exec_eq_some_iff.mp hexec)).1 rfl⟩,
    ⟨_, hexec', rfl, (flips_inTurn (Machine.exec_eq_some_iff.mp hexec')).2 rfl⟩⟩

end Drm.PageFlipOnVkms
