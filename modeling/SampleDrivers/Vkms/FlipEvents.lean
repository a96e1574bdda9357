import SampleDrivers.Kernel.Basic
import SampleDrivers.Lib.SingleFlight

/-!
# The events of page flips on vkms

A process that flips to another buffer may ask for an event, which it is sent when the flip is done.
`vkms_drv_5.c` sends it at once, from its `.page_flip`.  `vkms_drv_6.c` and `vkms_drv.c` leave
`.page_flip` to the DRM core, which makes a commit of it, swaps the state of the CRTC, and lets a
worker do the rest while the processes go on.  The worker calls `vkms_crtc_atomic_flush`, which
sends the event it finds in the state of the CRTC, drops the lock, and only then clears the event.

* `World`, `machine d` — the CRTC under driver `d`, with any number of processes and workers: one
  action for each point where another thread can get in.
* `implements_singleFlight` — what a server does that takes one request at a time.
* `events_inOrder` — the events of the accepted requests are sent once each, in order, and none is
  cleared that was not sent.
* `events_arrive` — none is kept back.

## What the DRM core does

The core is not here, and this is what the drivers are taken to rely on:

* Of the ioctls that set a mode or flip, one at a time has the lock of the CRTC.  A mode setting is
  answered `-EINVAL` unless the encoder goes with the CRTC (`drm_encoder_crtc_ok`), which of the
  three drivers only `vkms_drv.c` says it does; a flip is answered `-EBUSY` while the plane has no
  buffer.  Sizes, formats and modes are taken to be right, and there is memory and room for events.
* `drm_atomic_helper_setup_commit` answers `-EBUSY` to a flip while the newest commit has not sent
  its event, and gives every commit an event, also one that no process asked for.
* `drm_atomic_helper_swap_state` waits until the commit before has come to
  `drm_atomic_helper_commit_hw_done`, and a signal may end the wait.
* The rest of a commit is done by the ioctl itself for a mode setting, and by a worker for a flip.
-/

set_option autoImplicit false

namespace Vkms.FlipEvents

open Kernel

/-- The drivers with page flips. -/
inductive Driver
  /-- `vkms_drv_5.c`. -/
  | vkms5
  /-- `vkms_drv_6.c`. -/
  | vkms6
  /-- `vkms_drv.c`. -/
  | vkms
  deriving DecidableEq, Repr

/-- `DRIVER_ATOMIC` is one of the features, and `.page_flip` is `drm_atomic_helper_page_flip`. -/
def Driver.atomic : Driver → Bool
  | .vkms5 => false
  | .vkms6 | .vkms => true

/-- `encoder->possible_crtcs`, which is zero where nobody sets it. -/
def Driver.possibleCrtcs : Driver → ℕ
  | .vkms5 | .vkms6 => 0
  | .vkms => 1

/-- `drm_encoder_crtc_ok`: the encoder goes with the CRTC, which has index 0. -/
def Driver.encoderCrtcOk (d : Driver) : Bool := d.possibleCrtcs.testBit 0

/-- What a process asks of the CRTC. -/
inductive Request (β ε : Type)
  /-- Show a buffer, and return when that is done. -/
  | setConfig (fb : β)
  /-- Flip to a buffer, with an event if the process wants one. -/
  | pageFlip (fb : β) (event : Option ε)
  deriving DecidableEq, Repr

/-- `struct drm_pending_vblank_event`. -/
structure PendingEvent (ε : Type) where
  /-- The commit whose `flip_done` is completed when the event is sent. -/
  completion : Option ℕ
  /-- The event for the process; a commit nobody wants one of has an event all the same. -/
  event : Option ε
  deriving DecidableEq, Repr

/-- How far the worker of a commit is. -/
inductive Stage
  /-- Before `vkms_crtc_atomic_flush`. -/
  | queued
  /-- After `if (crtc->state->event)`. -/
  | flushing
  /-- After `drm_crtc_send_vblank_event`. -/
  | sent
  /-- `vkms_crtc_atomic_flush` has returned. -/
  | flushed
  /-- After `drm_atomic_helper_commit_hw_done`. -/
  | hwDone
  /-- After the commit's cleanup. -/
  | cleaned
  deriving DecidableEq, Repr

/-- `struct drm_crtc_commit`. -/
structure Commit (β ε : Type) where
  request : Request β ε
  /-- `flip_done` is completed. -/
  flipDone : Bool
  stage : Stage
  deriving DecidableEq, Repr

/-- The ioctl that has the lock of the CRTC. -/
inductive Ioctl (β ε : Type)
  /-- There is none. -/
  | none
  /-- It has been let through, and waits for the commit before it. -/
  | checked (r : Request β ε)
  /-- It has swapped the state, and does the work of its commit itself. -/
  | tail
  deriving DecidableEq, Repr

/-- The CRTC, the commits in the order of their swaps, and what has come of the requests. -/
structure World (β ε : Type) where
  /-- The buffer of the primary plane. -/
  fb : Option β
  /-- `crtc->state->event`. -/
  event : Option (PendingEvent ε)
  commits : List (Commit β ε)
  ioctl : Ioctl β ε
  /-- The requests that were not refused. -/
  accepted : List (Request β ε)
  /-- The events sent to processes. -/
  sent : List ε
  /-- `drm_crtc_send_vblank_event` was called with `NULL`. -/
  fault : Bool
  /-- `drm_atomic_helper_commit_hw_done` has found an event. -/
  warned : Bool
  deriving DecidableEq, Repr

variable {β ε : Type}

namespace Request

def fb : Request β ε → β
  | .setConfig fb | .pageFlip fb _ => fb

def event : Request β ε → Option ε
  | .setConfig _ => none
  | .pageFlip _ event => event

/-- The ioctl does the work of the commit itself. -/
def blocking : Request β ε → Bool
  | .setConfig _ => true
  | .pageFlip _ _ => false

/-- What the ioctl returns if the request is refused. -/
def errno : Request β ε → ℤ
  | .setConfig _ => EINVAL
  | .pageFlip _ _ => EBUSY

end Request

/-- The worker gets on. -/
def Commit.at (c : Commit β ε) (stage : Stage) : Commit β ε := { c with stage := stage }

/-- `complete_all(&commit->flip_done)`. -/
def Commit.completed (c : Commit β ε) : Commit β ε := { c with flipDone := true }

/-- The request, until its event is sent. -/
def Commit.inFlight (c : Commit β ε) : Option (Request β ε) :=
  if c.flipDone then none else some c.request

namespace World

/-- After `vkms_init`. -/
def vkmsInit : World β ε := ⟨none, none, [], .none, [], [], false, false⟩

/-- `drm_crtc_send_vblank_event`. -/
def drmCrtcSendVblankEvent (w : World β ε) (p : PendingEvent ε) : World β ε :=
  { w with
    sent := w.sent ++ p.event.toList
    commits := match p.completion with
      | none => w.commits
      | some i => w.commits.modify i Commit.completed }

/-! ## vkms_drv_5.c -/

/-- `vkms_crtc_page_flip`. -/
def vkmsCrtcPageFlip (w : World β ε) (fb : β) (event : Option ε) : World β ε :=
  let w := { w with fb := some fb }
  match event with
  | some e => w.drmCrtcSendVblankEvent ⟨none, some e⟩
  | none => w

/-- An ioctl of a driver that is not atomic. -/
def legacy (w : World β ε) (r : Request β ε) : World β ε :=
  let w := { w with accepted := w.accepted ++ [r] }
  match r with
  | .setConfig fb => { w with fb := some fb }
  | .pageFlip fb event => w.vkmsCrtcPageFlip fb event

/-! ## vkms_drv_6.c and vkms_drv.c -/

/-- The newest commit has not sent its event. -/
def busy (w : World β ε) : Bool := w.commits.getLast?.any fun c ↦ !c.flipDone

/-- The request is refused. -/
def refuses (w : World β ε) (r : Request β ε) : Bool := !r.blocking && w.busy

/-- `drm_atomic_helper_setup_commit` lets the request through, or returns `-EBUSY`. -/
def setupCommit (w : World β ε) (r : Request β ε) : World β ε :=
  if w.refuses r then w else { w with ioctl := .checked r }

/-- What the DRM core answers before a driver has to do with the request. -/
def coreError (d : Driver) (w : World β ε) : Request β ε → Option ℤ
  | .setConfig _ => if d.encoderCrtcOk then none else some (-EINVAL)
  | .pageFlip _ _ => if w.fb.isSome then none else some (-EBUSY)

/-- What a request is answered that is refused. -/
def error (d : Driver) (w : World β ε) (r : Request β ε) : Option ℤ :=
  (w.coreError d r).or (if d.atomic && w.refuses r then some (-EBUSY) else none)

/-- An ioctl that has got the lock. -/
def ask (d : Driver) (w : World β ε) (r : Request β ε) : World β ε :=
  if (w.coreError d r).isSome then w else if d.atomic then w.setupCommit r else w.legacy r

/-- The newest commit has got as far as this. -/
def newestAt (w : World β ε) (stages : List Stage) : Bool :=
  w.commits.getLast?.all fun c ↦ c.stage ∈ stages

/-- `drm_atomic_helper_swap_state`, and a worker gets the commit, unless the ioctl blocks. -/
def swapState (w : World β ε) (r : Request β ε) : World β ε :=
  { w with
    fb := some r.fb
    event := some ⟨some w.commits.length, r.event⟩
    commits := w.commits ++ [⟨r, false, .queued⟩]
    ioctl := if r.blocking then .tail else .none
    accepted := w.accepted ++ [r] }

/-- The worker of commit `i` gets from one stage to another. -/
def advance (w : World β ε) (i : ℕ) (stage stage' : Stage) : Option (World β ε) :=
  if w.commits[i]?.any fun c ↦ c.stage = stage then
    some { w with commits := w.commits.modify i fun c ↦ c.at stage' }
  else none

/-- `vkms_crtc_atomic_flush`: `if (crtc->state->event)`. -/
def flushTest (w : World β ε) (i : ℕ) : Option (World β ε) :=
  w.advance i .queued (if w.event.isSome then .flushing else .flushed)

/-- `vkms_crtc_atomic_flush`: `drm_crtc_send_vblank_event(crtc, crtc->state->event)`, with the
lock. -/
def flushSend (w : World β ε) (i : ℕ) : Option (World β ε) :=
  (w.advance i .flushing .sent).map fun w ↦
    match w.event with
    | some p => w.drmCrtcSendVblankEvent p
    | none => { w with fault := true }

/-- `vkms_crtc_atomic_flush`: `crtc->state->event = NULL`, without the lock. -/
def flushClear (w : World β ε) (i : ℕ) : Option (World β ε) :=
  (w.advance i .sent .flushed).map fun w ↦ { w with event := none }

/-- `drm_atomic_helper_commit_hw_done`. -/
def commitHwDone (w : World β ε) (i : ℕ) : Option (World β ε) :=
  (w.advance i .flushed .hwDone).map fun w ↦ { w with warned := w.warned || w.event.isSome }

/-- The request whose event has not been sent. -/
def inFlight (w : World β ε) : Option (Request β ε) := w.commits.getLast?.bind Commit.inFlight

/-- The requests that are done. -/
def done (w : World β ε) : List (Request β ε) :=
  if w.inFlight.isSome then w.accepted.dropLast else w.accepted

end World

/-! ## Every interleaving -/

/-- What a thread does. -/
inductive Action (β ε : Type)
  /-- A process calls an ioctl, which gets the lock of the CRTC. -/
  | ask (r : Request β ε)
  /-- A signal comes while the ioctl waits, and it returns with an error. -/
  | interrupted
  /-- The commit before it is done, and the ioctl swaps the state. -/
  | swapState
  /-- The worker of commit `i` begins with `vkms_crtc_atomic_flush`. -/
  | flushTest (i : ℕ)
  | flushSend (i : ℕ)
  | flushClear (i : ℕ)
  | commitHwDone (i : ℕ)
  | cleanup (i : ℕ)
  /-- The ioctl that did the work itself returns. -/
  | unlock
  deriving DecidableEq, Repr

/-- The CRTC under a driver, with all that can happen in any order. -/
def machine (d : Driver) : Machine (World β ε) (Action β ε) where
  step w
    | .ask r =>
      match w.ioctl with
      | .none => some (w.ask d r)
      | _ => none
    | .interrupted =>
      match w.ioctl with
      | .checked _ => some { w with ioctl := .none }
      | _ => none
    | .swapState =>
      match w.ioctl with
      | .checked r => if w.newestAt [.hwDone, .cleaned] then some (w.swapState r) else none
      | _ => none
    | .flushTest i => w.flushTest i
    | .flushSend i => w.flushSend i
    | .flushClear i => w.flushClear i
    | .commitHwDone i => w.commitHwDone i
    | .cleanup i => w.advance i .hwDone .cleaned
    | .unlock =>
      match w.ioctl with
      | .tail => if w.newestAt [.cleaned] then some { w with ioctl := .none } else none
      | _ => none

/-- What the processes get to see: a refusal, or an event. -/
inductive Shown (ε : Type)
  | error (e : ℤ)
  | event (e : ε)
  deriving DecidableEq, Repr

/-- What an action shows. -/
def World.observe (d : Driver) (w : World β ε) : Action β ε → List (Shown ε)
  | .ask r =>
    match w.error d r with
    | some e => [.error e]
    | none => if d.atomic then [] else r.event.toList.map .event
  | .flushSend _ => (w.event.bind PendingEvent.event).toList.map .event
  | _ => []

/-- What an action means to a server that takes one request at a time. -/
def World.meaning (d : Driver) (w : World β ε) : Action β ε → List (SingleFlight.Op (Request β ε))
  | .ask r =>
    if (w.error d r).isSome then [.ask r] else if d.atomic then [] else [.ask r, .finish]
  | .swapState =>
    match w.ioctl with
    | .checked r => [.ask r]
    | _ => []
  | .flushSend _ => [.finish]
  | _ => []

/-- What that server admits: a mode setting if the encoder goes with the CRTC, and a flip once it
has accepted something. -/
def admits (d : Driver) (accepted : List (Request β ε)) : Request β ε → Bool
  | .setConfig _ => d.encoderCrtcOk
  | .pageFlip _ _ => !accepted.isEmpty

/-- What that server shows. -/
def answers (d : Driver) (t : SingleFlight (Request β ε)) :
    SingleFlight.Op (Request β ε) → List (Shown ε)
  | .ask r => if t.takes (admits d) r then [] else [.error (-r.errno)]
  | .finish => (t.inFlight.bind Request.event).toList.map .event

/-! ## The newest commit -/

theorem modify_concat (cs : List (Commit β ε)) (c : Commit β ε)
    (f : Commit β ε → Commit β ε) : (cs ++ [c]).modify cs.length f = cs ++ [f c] := by
  induction cs with
  | nil => rfl
  | cons c' cs ih => rw [List.cons_append, List.length_cons, List.modify_succ_cons, ih]; rfl

theorem modify_concat_of_lt {cs : List (Commit β ε)} {i : ℕ} (h : i < cs.length)
    (c : Commit β ε) (f : Commit β ε → Commit β ε) :
    (cs ++ [c]).modify i f = cs.modify i f ++ [c] := by
  induction cs generalizing i with
  | nil => exact absurd h (Nat.not_lt_zero i)
  | cons c' cs ih =>
    rcases i with _ | i
    · rfl
    · rw [List.cons_append, List.modify_succ_cons, ih (Nat.lt_of_succ_lt_succ h)]
      rfl

theorem getElem?_concat_eq_some {cs : List (Commit β ε)} {c c₀ : Commit β ε} {i : ℕ}
    (h : (cs ++ [c])[i]? = some c₀) : cs[i]? = some c₀ ∨ i = cs.length ∧ c = c₀ := by
  rcases Nat.lt_or_ge i cs.length with hlt | hge
  · exact .inl (by rwa [List.getElem?_append_left hlt] at h)
  · obtain ⟨hlt, -⟩ := List.getElem?_eq_some_iff.mp h
    obtain rfl : i = cs.length := by
      rw [List.length_append, List.length_singleton] at hlt
      omega
    rw [List.getElem?_concat_length, Option.some_inj] at h
    exact .inr ⟨rfl, h⟩

/-- The event is sent and cleared. -/
def Commit.Settled (c : Commit β ε) : Prop :=
  c.flipDone = true ∧ (c.stage = .hwDone ∨ c.stage = .cleaned)

/-- Where the event of the newest commit is, which has number `n`. -/
def Commit.Holds (c : Commit β ε) (n : ℕ) (event : Option (PendingEvent ε)) : Prop :=
  match c.stage with
  | .queued | .flushing => c.flipDone = false ∧ event = some ⟨some n, c.request.event⟩
  | .sent => c.flipDone = true ∧ event.isSome
  | .flushed | .hwDone | .cleaned => c.flipDone = true ∧ event = none

/-- All commits but the newest are settled. -/
inductive Tail : List (Commit β ε) → Option (PendingEvent ε) → Prop
  | nil : Tail [] none
  | concat {cs : List (Commit β ε)} {c : Commit β ε} {event : Option (PendingEvent ε)}
      (hsettled : ∀ c' ∈ cs, c'.Settled) (hnewest : c.Holds cs.length event) :
      Tail (cs ++ [c]) event

theorem Tail.cases_concat {l : List (Commit β ε)} {event : Option (PendingEvent ε)}
    (h : Tail l event) : l = [] ∨
      ∃ cs c, l = cs ++ [c] ∧ (∀ c' ∈ cs, c'.Settled) ∧ c.Holds cs.length event := by
  rcases h with _ | ⟨hsettled, hnewest⟩
  · exact .inl rfl
  · exact .inr ⟨_, _, rfl, hsettled, hnewest⟩

section

variable {w w' : World β ε} {i : ℕ} {stage stage' : Stage}

theorem World.advance_eq_some_iff : w.advance i stage stage' = some w' ↔
    (∃ c, w.commits[i]? = some c ∧ c.stage = stage) ∧
      { w with commits := w.commits.modify i fun c ↦ c.at stage' } = w' := by
  rw [World.advance, Option.ite_none_right_eq_some, Option.some_inj, Option.any_eq_true]
  simp only [decide_eq_true_eq]

theorem World.swapState_eq_some {d : Driver} (h : (machine d).step w .swapState = some w') :
    ∃ r, w.ioctl = .checked r ∧ w.newestAt [.hwDone, .cleaned] = true ∧ w.swapState r = w' := by
  rcases hioctl : w.ioctl with _ | r | _
  all_goals simp only [machine, hioctl] at h
  · cases h
  · obtain ⟨hnewest, hsome⟩ := Option.ite_none_right_eq_some.mp h
    exact ⟨r, rfl, hnewest, Option.some_inj.mp hsome⟩
  · cases h

theorem World.interrupted_eq_some {d : Driver} (h : (machine d).step w .interrupted = some w') :
    (∃ r, w.ioctl = .checked r) ∧ { w with ioctl := .none } = w' := by
  rcases hioctl : w.ioctl with _ | r | _
  all_goals simp only [machine, hioctl] at h
  · cases h
  · exact ⟨⟨r, rfl⟩, Option.some_inj.mp h⟩
  · cases h

theorem World.unlock_eq_some {d : Driver} (h : (machine d).step w .unlock = some w') :
    w.ioctl = .tail ∧ w.newestAt [.cleaned] = true ∧ { w with ioctl := .none } = w' := by
  rcases hioctl : w.ioctl with _ | r | _
  all_goals simp only [machine, hioctl] at h
  · cases h
  · cases h
  · obtain ⟨hnewest, hsome⟩ := Option.ite_none_right_eq_some.mp h
    exact ⟨rfl, hnewest, Option.some_inj.mp hsome⟩

/-- A worker is not an ioctl. -/
theorem World.ioctl_of_advance (h : w.advance i stage stage' = some w') : w'.ioctl = w.ioctl := by
  obtain ⟨-, rfl⟩ := World.advance_eq_some_iff.mp h
  rfl

theorem World.busy_eq : w.busy = w.inFlight.isSome := by
  rw [World.busy, World.inFlight]
  rcases w.commits.getLast? with _ | c
  · rfl
  · rcases hdone : c.flipDone <;> simp [Commit.inFlight, hdone]

theorem World.error_eq_none_iff {d : Driver} {r : Request β ε} : w.error d r = none ↔
    w.coreError d r = none ∧ (d.atomic = true → w.refuses r = false) := by
  rw [World.error, Option.or_eq_none_iff]
  simp

/-- A refused request changes nothing. -/
theorem World.ask_of_error {d : Driver} {r : Request β ε} {e : ℤ} (h : w.error d r = some e) :
    w.ask d r = w ∧ e = -r.errno := by
  rw [World.error] at h
  rw [World.ask]
  rcases hcore : w.coreError d r with _ | e'
  · rw [hcore, Option.none_or] at h
    obtain ⟨hrefuses, he⟩ := Option.ite_none_right_eq_some.mp h
    rw [Bool.and_eq_true] at hrefuses
    refine ⟨?_, ?_⟩
    · simp [hrefuses.1, World.setupCommit, hrefuses.2]
    · rcases r with fb | ⟨fb, event⟩
      · simp [World.refuses, Request.blocking] at hrefuses
      · exact (Option.some_inj.mp he).symm
  · rw [hcore, Option.some_or, Option.some_inj] at h
    subst h
    refine ⟨if_pos rfl, ?_⟩
    rcases r with fb | ⟨fb, event⟩
    all_goals
      obtain ⟨-, he⟩ := Option.ite_none_left_eq_some.mp hcore
      exact (Option.some_inj.mp he).symm

/-- One that is not refused is let through, or done with at once. -/
theorem World.ask_of_none {d : Driver} {r : Request β ε} (h : w.error d r = none) :
    w.ask d r = if d.atomic then { w with ioctl := .checked r } else w.legacy r := by
  obtain ⟨hcore, hlet⟩ := World.error_eq_none_iff.mp h
  rw [World.ask, hcore, Option.isSome_none, if_neg Bool.false_ne_true]
  split
  · rename_i hatomic
    rw [World.setupCommit, hlet hatomic, if_neg Bool.false_ne_true]
  · rfl

/-- A request is not refused later because a commit has got on. -/
theorem World.error_of_inFlight {d : Driver} {r : Request β ε} (h : w.error d r = none)
    (hfb : w'.fb = w.fb) (hflight : w'.inFlight = w.inFlight ∨ w'.inFlight = none) :
    w'.error d r = none := by
  obtain ⟨hcore, hlet⟩ := World.error_eq_none_iff.mp h
  refine World.error_eq_none_iff.mpr ⟨?_, fun hatomic ↦ ?_⟩
  · rcases r with fb | ⟨fb, event⟩
    · exact hcore
    · rwa [World.coreError, hfb]
  · have hold := hlet hatomic
    rw [World.refuses, World.busy_eq] at hold ⊢
    rcases hflight with hflight | hflight <;> rw [hflight]
    · exact hold
    · exact Bool.and_false _

theorem World.inFlight_of_concat (cs : List (Commit β ε)) (c : Commit β ε)
    (h : w.commits = cs ++ [c]) : w.inFlight = c.inFlight := by
  rw [World.inFlight, h, List.getLast?_concat, Option.bind_some]

/-- Only the worker of the newest commit is not done with the event. -/
theorem Tail.advance (h : Tail w.commits w.event) (hadv : w.advance i stage stage' = some w')
    (hdone : stage ≠ .hwDone) (hcleaned : stage ≠ .cleaned) :
    ∃ cs c, w.commits = cs ++ [c] ∧ (∀ c' ∈ cs, c'.Settled) ∧ c.Holds cs.length w.event ∧
      c.stage = stage ∧ w' = { w with commits := cs ++ [c.at stage'] } := by
  obtain ⟨⟨c₀, hget, hstage⟩, rfl⟩ := World.advance_eq_some_iff.mp hadv
  rcases h.cases_concat with hnil | ⟨cs, c, hcommits, hsettled, hnewest⟩
  · rw [hnil] at hget
    cases hget
  rw [hcommits] at hget
  rcases getElem?_concat_eq_some hget with hget | ⟨rfl, rfl⟩
  · obtain ⟨-, hlate⟩ := hsettled c₀ (List.mem_of_getElem? hget)
    rw [hstage] at hlate
    rcases hlate with hlate | hlate
    · exact absurd hlate hdone
    · exact absurd hlate hcleaned
  · refine ⟨cs, c, hcommits, hsettled, hnewest, hstage, ?_⟩
    rw [hcommits, modify_concat]

/-- A cleanup changes nothing but how far a worker is. -/
theorem Tail.cleanup (h : Tail w.commits w.event) (hadv : w.advance i .hwDone .cleaned = some w') :
    Tail w'.commits w.event ∧ w'.inFlight = w.inFlight ∧
      w' = { w with commits := w'.commits } := by
  obtain ⟨⟨c₀, hget, hstage⟩, rfl⟩ := World.advance_eq_some_iff.mp hadv
  suffices hkeeps : Tail (w.commits.modify i fun c ↦ c.at .cleaned) w.event ∧
      (w.commits.modify i fun c ↦ c.at .cleaned).getLast?.bind Commit.inFlight =
        w.commits.getLast?.bind Commit.inFlight from ⟨hkeeps.1, hkeeps.2, rfl⟩
  rcases h.cases_concat with hnil | ⟨cs, c, hcommits, hsettled, hnewest⟩
  · rw [hnil] at hget
    cases hget
  rw [hcommits] at hget ⊢
  rcases getElem?_concat_eq_some hget with hget | ⟨rfl, rfl⟩
  · obtain ⟨hlt, -⟩ := List.getElem?_eq_some_iff.mp hget
    have hlen : (cs.modify i fun c ↦ c.at .cleaned).length = cs.length := List.length_modify ..
    rw [modify_concat_of_lt hlt, List.getLast?_concat, List.getLast?_concat]
    refine ⟨.concat (fun c' hc' ↦ ?_) (by rwa [hlen]), rfl⟩
    obtain ⟨j, hj⟩ := List.mem_iff_getElem?.mp hc'
    rw [List.getElem?_modify] at hj
    obtain ⟨c₁, hc₁, rfl⟩ := Option.map_eq_some_iff.mp hj
    have hold := hsettled c₁ (List.mem_of_getElem? hc₁)
    split
    · exact ⟨hold.1, .inr rfl⟩
    · exact hold
  · rw [modify_concat, List.getLast?_concat, List.getLast?_concat]
    rw [Commit.Holds, hstage] at hnewest
    exact ⟨.concat hsettled hnewest, rfl⟩

end

/-! ## One step -/

/-- The server that takes one request at a time is where the CRTC is. -/
structure Follows (d : Driver) (w : World β ε) (t : SingleFlight (Request β ε)) : Prop where
  /-- Without `DRIVER_ATOMIC` there are no commits. -/
  legacy : d.atomic = false → w.commits = [] ∧ w.ioctl = .none
  tail : Tail w.commits w.event
  /-- A request that was let through is not refused later. -/
  checked : ∀ r, w.ioctl = .checked r → w.error d r = none
  accepted : w.accepted = t.accepted
  inFlight : w.inFlight = t.inFlight
  sent : w.sent = t.finished.filterMap Request.event
  fb : w.fb = w.accepted.getLast?.map Request.fb
  fault : w.fault = false
  warned : w.warned = false

namespace Follows

variable {d : Driver} {w w' : World β ε} {t : SingleFlight (Request β ε)} {i : ℕ}

theorem vkmsInit (d : Driver) : Follows d (.vkmsInit : World β ε) .empty where
  legacy _ := ⟨rfl, rfl⟩
  tail := .nil
  checked _ h := by cases h
  accepted := rfl
  inFlight := rfl
  sent := rfl
  fb := rfl
  fault := rfl
  warned := rfl

/-- An ioctl that keeps the lock is an atomic driver's. -/
theorem atomic_of_ioctl (h : Follows d w t) {ioctl : Ioctl β ε} (hioctl : w.ioctl = ioctl)
    (hne : ioctl ≠ .none) : d.atomic = true := by
  rcases hatomic : d.atomic with _ | _
  · exact absurd (hioctl.symm.trans (h.legacy hatomic).2) hne
  · rfl

/-- Another ioctl has the lock, or none. -/
theorem setIoctl (h : Follows d w t) (hatomic : d.atomic = true) {ioctl : Ioctl β ε}
    (hchecked : ∀ r, ioctl = .checked r → w.error d r = none) :
    Follows d { w with ioctl := ioctl } t :=
  { h with
    legacy := fun hlegacy ↦ absurd (hatomic.symm.trans hlegacy) (by simp)
    checked := hchecked }

/-- The DRM core has nothing against what the server admits. -/
theorem coreError_eq_none_iff (h : Follows d w t) {r : Request β ε} :
    w.coreError d r = none ↔ admits d t.accepted r = true := by
  rcases r with fb | ⟨fb, event⟩
  · rcases hok : d.encoderCrtcOk <;> simp [World.coreError, admits, hok]
  · rw [World.coreError, h.fb, h.accepted, admits]
    rcases t.accepted.eq_nil_or_concat with hnil | ⟨rs, r, hrs⟩
    · simp [hnil]
    · simp [hrs]

/-- A request that is refused is one the server does not take. -/
theorem not_takes (h : Follows d w t) {r : Request β ε} {e : ℤ} (he : w.error d r = some e) :
    t.takes (admits d) r = false := by
  by_contra htakes
  obtain ⟨hnone, hadmits⟩ := SingleFlight.takes_iff.mp (Bool.not_eq_false _ ▸ htakes)
  have herror : w.error d r = none := by
    refine World.error_eq_none_iff.mpr ⟨h.coreError_eq_none_iff.mpr hadmits, fun _ ↦ ?_⟩
    rw [World.refuses, World.busy_eq, h.inFlight, hnone]
    exact Bool.and_false _
  exact absurd (he.symm.trans herror) (by simp)

/-- A request that is not refused is one the server takes, once it has no other. -/
theorem takes (h : Follows d w t) {r : Request β ε} (hr : w.error d r = none)
    (hnone : w.inFlight = none) : t.takes (admits d) r = true :=
  SingleFlight.takes_iff.mpr ⟨h.inFlight.symm.trans hnone,
    h.coreError_eq_none_iff.mp (World.error_eq_none_iff.mp hr).1⟩

/-- `vkms_crtc_page_flip` takes the request and is done with it. -/
theorem legacyAsk (h : Follows d w t) (hatomic : d.atomic = false) {r : Request β ε}
    (hr : w.error d r = none) : t.takes (admits d) r = true ∧
      Follows d (w.legacy r) ⟨t.accepted ++ [r], t.finished ++ [r], none⟩ := by
  obtain ⟨hcommits, hioctl⟩ := h.legacy hatomic
  have hnone : w.inFlight = none := by rw [World.inFlight, hcommits]; rfl
  refine ⟨h.takes hr hnone, ?_⟩
  have hchecked : ∀ r', w.ioctl = .checked r' → (w.legacy r).error d r' = none :=
    fun r' hr' ↦ absurd (hioctl.symm.trans hr') (by simp)
  rcases r with fb | ⟨fb, _ | e⟩
  all_goals
    refine ⟨h.legacy, h.tail, hchecked, ?_, ?_, ?_, ?_, h.fault, h.warned⟩
    · exact congrArg (· ++ _) h.accepted
    · exact hnone
    · simp [World.legacy, World.vkmsCrtcPageFlip, World.drmCrtcSendVblankEvent, h.sent,
        Request.event]
    · simp [World.legacy, World.vkmsCrtcPageFlip, World.drmCrtcSendVblankEvent, Request.fb]

/-- Once the newest commit is done, all are, and no request is in flight. -/
theorem settled (h : Follows d w t) {stages : List Stage} (hnewest : w.newestAt stages = true)
    (hlate : ∀ stage ∈ stages, stage = .hwDone ∨ stage = .cleaned) :
    (∀ c ∈ w.commits, c.Settled) ∧ w.inFlight = none := by
  rcases h.tail.cases_concat with hnil | ⟨cs, c, hcommits, hsettled, hc⟩
  · simp [World.inFlight, hnil]
  rw [World.newestAt, hcommits, List.getLast?_concat, Option.all_some, decide_eq_true_eq] at hnewest
  have hstage := hlate _ hnewest
  have hdone : c.flipDone = true := by
    rcases hstage with hstage | hstage <;> rw [Commit.Holds, hstage] at hc <;> exact hc.1
  refine ⟨fun c' hc' ↦ ?_, ?_⟩
  · rcases List.mem_append.mp (hcommits ▸ hc') with hc' | hc'
    · exact hsettled c' hc'
    · exact List.mem_singleton.mp hc' ▸ ⟨hdone, hstage⟩
  · rw [World.inFlight_of_concat cs c hcommits, Commit.inFlight, if_pos hdone]

/-- The swap finds the commit before it settled, and the state of the CRTC without an event. -/
theorem swapState (h : Follows d w t) {r : Request β ε} (hioctl : w.ioctl = .checked r)
    (hnewest : w.newestAt [.hwDone, .cleaned] = true) : t.takes (admits d) r = true ∧
      Follows d (w.swapState r) ⟨t.accepted ++ [r], t.finished, some r⟩ := by
  have hsettled := h.settled hnewest (by simp)
  have hatomic := h.atomic_of_ioctl hioctl (by simp)
  refine ⟨h.takes (h.checked r hioctl) hsettled.2, ?_, ?_, ?_, ?_, ?_, h.sent, ?_, h.fault,
    h.warned⟩
  · exact fun hlegacy ↦ absurd (hatomic.symm.trans hlegacy) (by simp)
  · exact .concat hsettled.1 ⟨rfl, rfl⟩
  · intro r' hr'
    rcases hblocking : r.blocking <;> simp [World.swapState, hblocking] at hr'
  · exact congrArg (· ++ _) h.accepted
  · exact World.inFlight_of_concat w.commits ⟨r, false, .queued⟩ rfl
  · simp [World.swapState]

/-- What the server has is the request of the newest commit. -/
theorem inFlight_eq (h : Follows d w t) {cs : List (Commit β ε)} {c : Commit β ε}
    (hcommits : w.commits = cs ++ [c]) : c.inFlight = t.inFlight :=
  (World.inFlight_of_concat cs c hcommits).symm.trans h.inFlight

/-- Something happens to the newest commit. -/
theorem withNewest (h : Follows d w t) {cs : List (Commit β ε)} {c : Commit β ε}
    (c' : Commit β ε) {event : Option (PendingEvent ε)} {sent : List ε}
    {finished : List (Request β ε)} (hcommits : w.commits = cs ++ [c])
    (hsettled : ∀ c' ∈ cs, c'.Settled) (hc' : c'.Holds cs.length event)
    (hflight : c'.inFlight = c.inFlight ∨ c'.inFlight = none)
    (hsent : sent = finished.filterMap Request.event) :
    Follows d { w with commits := cs ++ [c'], event := event, sent := sent }
      ⟨t.accepted, finished, c'.inFlight⟩ := by
  refine ⟨fun hlegacy ↦ ?_, .concat hsettled hc', fun r hr ↦ ?_, h.accepted, ?_, hsent, h.fb,
    h.fault, h.warned⟩
  · rw [(h.legacy hlegacy).1] at hcommits
    exact absurd hcommits (by simp)
  · refine World.error_of_inFlight (h.checked r hr) rfl ?_
    rw [World.inFlight_of_concat cs c hcommits, World.inFlight_of_concat cs c' rfl]
    exact hflight
  · exact World.inFlight_of_concat cs c' rfl

/-- Something happens that is nothing to the server. -/
theorem withNewest_same (h : Follows d w t) {cs : List (Commit β ε)} {c : Commit β ε}
    (c' : Commit β ε) {event : Option (PendingEvent ε)} (hcommits : w.commits = cs ++ [c])
    (hsettled : ∀ c' ∈ cs, c'.Settled) (hc' : c'.Holds cs.length event)
    (hflight : c'.inFlight = c.inFlight) :
    Follows d { w with commits := cs ++ [c'], event := event } t := by
  have hnext := h.withNewest c' hcommits hsettled hc' (.inl hflight) h.sent
  rwa [hflight, h.inFlight_eq hcommits] at hnext

/-- The worker of the newest commit finds its event. -/
theorem flushTest (h : Follows d w t) (hstep : w.flushTest i = some w') : Follows d w' t := by
  obtain ⟨cs, c, hcommits, hsettled, hc, hstage, rfl⟩ := h.tail.advance hstep (by simp) (by simp)
  rw [Commit.Holds, hstage] at hc
  have hsome : w.event.isSome = true := by rw [hc.2]; rfl
  rw [if_pos hsome]
  exact h.withNewest_same (c.at .flushing) hcommits hsettled hc rfl

/-- It sends it, which is not `NULL`. -/
theorem flushSend (h : Follows d w t) (hstep : w.flushSend i = some w') :
    ∃ r, t.inFlight = some r ∧ w.event.bind PendingEvent.event = r.event ∧
      Follows d w' ⟨t.accepted, t.finished ++ [r], none⟩ := by
  obtain ⟨w₁, hadv, hw'⟩ := Option.map_eq_some_iff.mp hstep
  obtain ⟨cs, c, hcommits, hsettled, hc, hstage, rfl⟩ := h.tail.advance hadv (by simp) (by simp)
  rw [Commit.Holds, hstage] at hc
  have hflight : c.inFlight = some c.request := by rw [Commit.inFlight, hc.1]; rfl
  have hsent : w.sent ++ c.request.event.toList =
      (t.finished ++ [c.request]).filterMap Request.event := by
    rw [List.filterMap_append, ← h.sent]
    rcases hevent : c.request.event with _ | e <;> simp [hevent]
  have hholds : (c.at .sent).completed.Holds cs.length w.event := ⟨rfl, by rw [hc.2]; rfl⟩
  have hnext := h.withNewest (c.at .sent).completed hcommits hsettled hholds (.inr rfl) hsent
  refine ⟨c.request, h.inFlight_eq hcommits ▸ hflight, by rw [hc.2]; rfl, ?_⟩
  rw [hc.2] at hw'
  rw [← hw']
  simp only [World.drmCrtcSendVblankEvent, modify_concat]
  rw [hc.2] at hnext
  exact hnext

/-- It clears it, and nothing else. -/
theorem flushClear (h : Follows d w t) (hstep : w.flushClear i = some w') : Follows d w' t := by
  obtain ⟨w₁, hadv, rfl⟩ := Option.map_eq_some_iff.mp hstep
  obtain ⟨cs, c, hcommits, hsettled, hc, hstage, rfl⟩ := h.tail.advance hadv (by simp) (by simp)
  rw [Commit.Holds, hstage] at hc
  have hholds : (c.at .flushed).Holds cs.length none := ⟨hc.1, rfl⟩
  exact h.withNewest_same (c.at .flushed) hcommits hsettled hholds rfl

/-- No event is left when the commit is done. -/
theorem commitHwDone (h : Follows d w t) (hstep : w.commitHwDone i = some w') :
    Follows d w' t := by
  obtain ⟨w₁, hadv, rfl⟩ := Option.map_eq_some_iff.mp hstep
  obtain ⟨cs, c, hcommits, hsettled, hc, hstage, rfl⟩ := h.tail.advance hadv (by simp) (by simp)
  rw [Commit.Holds, hstage] at hc
  have hwarned : (w.warned || w.event.isSome) = w.warned := by rw [hc.2]; exact Bool.or_false _
  simp only [hwarned]
  exact h.withNewest_same (c.at .hwDone) hcommits hsettled hc rfl

theorem cleanup (h : Follows d w t) (hstep : w.advance i .hwDone .cleaned = some w') :
    Follows d w' t := by
  obtain ⟨htail, hflight, hw'⟩ := h.tail.cleanup hstep
  rw [hw']
  have hflight' : ({ w with commits := w'.commits } : World β ε).inFlight = w.inFlight := by
    rw [← hw', hflight]
  refine { h with legacy := fun hlegacy ↦ ?_, tail := htail, checked := fun r hr ↦ ?_,
                  inFlight := hflight'.trans h.inFlight }
  · obtain ⟨⟨c, hget, -⟩, -⟩ := World.advance_eq_some_iff.mp hstep
    rw [(h.legacy hlegacy).1] at hget
    cases hget
  · exact World.error_of_inFlight (h.checked r hr) rfl (.inl hflight')

/-- What the server does with the request of an ioctl. -/
theorem ask (h : Follows d w t) (r : Request β ε) :
    ∃ t', (SingleFlight.machine (admits d)).Run Machine.free t (w.meaning d (.ask r)) t' ∧
      Follows d (w.ask d r) t' ∧
      (SingleFlight.machine (admits d)).outputs (answers d) t (w.meaning d (.ask r)) =
        w.observe d (.ask r) := by
  rcases herror : w.error d r with _ | e
  · rw [World.ask_of_none herror]
    simp only [World.meaning, World.observe, herror, Option.isSome_none, Bool.false_eq_true,
      if_false]
    rcases hatomic : d.atomic with _ | _
    · obtain ⟨htakes, hnext⟩ := h.legacyAsk hatomic herror
      have hask : (SingleFlight.machine (admits d)).step t (.ask r) =
          some ⟨t.accepted ++ [r], t.finished, some r⟩ :=
        congrArg some (SingleFlight.ask_of_takes htakes)
      refine ⟨_, .cons trivial hask (.single trivial rfl), hnext, ?_⟩
      rw [if_neg Bool.false_ne_true, Machine.outputs_cons hask]
      simp [answers, Machine.outputs, SingleFlight.machine, htakes]
    · refine ⟨t, .nil t, h.setIoctl hatomic fun r' hr' ↦ ?_, rfl⟩
      cases hr'
      exact herror
  · obtain ⟨hsame, rfl⟩ := World.ask_of_error herror
    have htakes := h.not_takes herror
    have hask : (SingleFlight.machine (admits d)).step t (.ask r) = some t :=
      congrArg some (SingleFlight.ask_of_not_takes htakes)
    simp only [World.meaning, World.observe, herror, Option.isSome_some, if_true]
    refine ⟨t, .single trivial hask, hsame.symm ▸ h, ?_⟩
    rw [Machine.outputs_cons hask]
    simp [answers, htakes, Machine.outputs]

/-- **One step.**  The server does what the step means to it, and shows the same. -/
theorem step {a : Action β ε} (h : Follows d w t) (hstep : (machine d).step w a = some w') :
    ∃ t', (SingleFlight.machine (admits d)).Run Machine.free t (w.meaning d a) t' ∧
      Follows d w' t' ∧ (SingleFlight.machine (admits d)).outputs (answers d) t (w.meaning d a) =
        w.observe d a := by
  rcases a with r | _ | _ | i | i | i | i | i | _
  · rcases hioctl : w.ioctl with _ | r' | _
    all_goals simp only [machine, hioctl] at hstep
    · exact Option.some_inj.mp hstep ▸ h.ask r
    · cases hstep
    · cases hstep
  · obtain ⟨⟨r', hioctl⟩, rfl⟩ := World.interrupted_eq_some hstep
    exact ⟨t, .nil t, h.setIoctl (h.atomic_of_ioctl hioctl (by simp)) (by simp), rfl⟩
  · obtain ⟨r', hioctl, hnewest, rfl⟩ := World.swapState_eq_some hstep
    obtain ⟨htakes, hnext⟩ := h.swapState hioctl hnewest
    have hask : (SingleFlight.machine (admits d)).step t (.ask r') =
        some ⟨t.accepted ++ [r'], t.finished, some r'⟩ :=
      congrArg some (SingleFlight.ask_of_takes htakes)
    have hmeaning : w.meaning d .swapState = [.ask r'] := by
      simp only [World.meaning, hioctl]
    refine ⟨_, hmeaning ▸ .single trivial hask, hnext, ?_⟩
    rw [hmeaning, Machine.outputs_cons hask]
    simp [answers, htakes, Machine.outputs, World.observe]
  · exact ⟨t, .nil t, h.flushTest hstep, rfl⟩
  · obtain ⟨r, hr, hevent, hnext⟩ := h.flushSend hstep
    have hfinish : (SingleFlight.machine (admits d)).step t .finish =
        some ⟨t.accepted, t.finished ++ [r], none⟩ := by
      simp only [SingleFlight.machine, hr, Option.map_some]
    refine ⟨_, .single trivial hfinish, hnext, ?_⟩
    rw [World.meaning, Machine.outputs_cons hfinish]
    simp [answers, hr, Machine.outputs, World.observe, hevent]
  · exact ⟨t, .nil t, h.flushClear hstep, rfl⟩
  · exact ⟨t, .nil t, h.commitHwDone hstep, rfl⟩
  · exact ⟨t, .nil t, h.cleanup hstep, rfl⟩
  · obtain ⟨hioctl, -, rfl⟩ := World.unlock_eq_some hstep
    exact ⟨t, .nil t, h.setIoctl (h.atomic_of_ioctl hioctl (by simp)) (by simp), rfl⟩

end Follows

/-! ## Every run -/

/-- **Each driver is a server that takes one request at a time.** -/
theorem implements_singleFlight (d : Driver) :
    (machine d : Machine (World β ε) (Action β ε)).Implements Machine.free (World.observe d)
      (SingleFlight.machine (admits d)) Machine.free (answers d) (World.meaning d) (Follows d) := by
  intro w t a w' h _ hstep
  exact h.step hstep

/-- A flip that comes too early, the mode setting, a flip while another is under way, and one
between the event and the end of the worker. -/
def twoFlips : List (Action ℕ ℕ) :=
  [.ask (.pageFlip 7 (some 1)), .ask (.setConfig 6), .swapState, .flushTest 0, .flushSend 0,
    .flushClear 0, .commitHwDone 0, .cleanup 0, .unlock, .ask (.pageFlip 7 (some 1)), .swapState,
    .ask (.pageFlip 8 (some 2)), .flushTest 1, .flushSend 1, .ask (.pageFlip 8 (some 3)),
    .flushClear 1, .commitHwDone 1, .swapState]

/-- **What the processes see is what that server shows**: refusals and events, in whatever order the
threads get on.  The server of `vkms_drv.c` first wants a mode setting; the other two refuse
everything. -/
theorem shows_eq_answers {d : Driver} {as : List (Action β ε)} {w : World β ε}
    (hrun : (machine d).Run Machine.free .vkmsInit as w) :
    ∃ t, (SingleFlight.machine (admits d)).Run Machine.free .empty
        ((machine d).outputs (World.meaning d) .vkmsInit as) t ∧
      (SingleFlight.machine (admits d)).outputs (answers d) .empty
        ((machine d).outputs (World.meaning d) .vkmsInit as) =
          (machine d).outputs (World.observe d) .vkmsInit as ∧
      t.accepted = w.accepted ∧ t.inFlight = w.inFlight ∧
      (d.encoderCrtcOk = false → t.accepted = []) := by
  obtain ⟨t, hserver, h, hout⟩ := (implements_singleFlight d).run hrun (.vkmsInit d)
  refine ⟨t, hserver, hout, h.accepted.symm, h.inFlight.symm, fun hnot ↦ ?_⟩
  refine SingleFlight.accepted_eq_nil (fun r ↦ ?_) hserver
  rcases r with fb | ⟨fb, event⟩
  · exact hnot
  · rfl

theorem shows_eq_answers_twoFlips : ∃ t, (SingleFlight.machine (admits .vkms)).Run Machine.free
      .empty ((machine .vkms).outputs (World.meaning .vkms) .vkmsInit twoFlips) t ∧
    (SingleFlight.machine (admits .vkms)).outputs (answers .vkms) .empty
      ((machine .vkms).outputs (World.meaning .vkms) .vkmsInit twoFlips) =
        [.error (-EBUSY), .error (-EBUSY), .event 1] ∧
    t.inFlight = some (.pageFlip 8 (some 3)) := by
  have hexec : (machine .vkms).exec .vkmsInit twoFlips = some _ := rfl
  obtain ⟨t, hserver, hout, -, hflight, -⟩ := shows_eq_answers (Machine.exec_eq_some_iff.mp hexec)
  exact ⟨t, hserver, hout, hflight⟩

/-- What the server has finished is what is done. -/
theorem Follows.done_eq {d : Driver} {w : World β ε} {t : SingleFlight (Request β ε)}
    (h : Follows d w t) (ht : t.InOrder) : w.done = t.finished := by
  rw [World.done, h.accepted, h.inFlight, ht]
  rcases t.inFlight with _ | r
  · simp
  · simp

/-- The events of the accepted requests are sent, but for that of the request in flight. -/
theorem Follows.events {d : Driver} {w : World β ε} {t : SingleFlight (Request β ε)}
    (h : Follows d w t) (ht : t.InOrder) :
    w.accepted.filterMap Request.event = w.sent ++ (w.inFlight.bind Request.event).toList := by
  rw [h.accepted, ht, List.filterMap_append, h.sent, h.inFlight]
  rcases t.inFlight with _ | r
  · rfl
  · rcases hevent : r.event with _ | e <;> simp [hevent]

/-- **The events come once each, in order.**  Whatever the processes ask for and however their
ioctls and the workers get in each other's way, the events of the requests that were not refused
have been sent, in order and each once, but for that of the newest commit while its worker has not
got there; no worker sends `NULL`, none leaves an event behind, and the plane has the buffer of the
last request. -/
theorem events_inOrder {d : Driver} {as : List (Action β ε)} {w : World β ε}
    (hrun : (machine d).Run Machine.free .vkmsInit as w) :
    w.accepted.filterMap Request.event = w.sent ++ (w.inFlight.bind Request.event).toList ∧
      w.fault = false ∧ w.warned = false ∧ w.fb = w.accepted.getLast?.map Request.fb := by
  obtain ⟨t, hserver, h, -⟩ := (implements_singleFlight d).run hrun (.vkmsInit d)
  exact ⟨h.events (SingleFlight.accepted_eq hserver), h.fault, h.warned, h.fb⟩

theorem events_inOrder_twoFlips : ∃ w, (machine .vkms).exec .vkmsInit twoFlips = some w ∧
    w.accepted.filterMap Request.event = [1, 3] ∧ w.sent = [1] ∧
    w.accepted.filterMap Request.event = w.sent ++ (w.inFlight.bind Request.event).toList := by
  have hexec : (machine .vkms).exec .vkmsInit twoFlips = some _ := rfl
  obtain ⟨hevents, -⟩ := events_inOrder (Machine.exec_eq_some_iff.mp hexec)
  exact ⟨_, hexec, rfl, rfl, hevents⟩

/-! ## The work comes to an end -/

/-- Something a worker does, or an ioctl that was let through. -/
def Action.IsWork : Action β ε → Prop
  | .ask _ | .interrupted => False
  | _ => True

/-- What is left to do for a commit. -/
def Stage.left : Stage → ℕ
  | .queued => 5
  | .flushing => 4
  | .sent => 3
  | .flushed => 2
  | .hwDone => 1
  | .cleaned => 0

/-- What is left to do for the commits. -/
def leftAll : List (Commit β ε) → ℕ
  | [] => 0
  | c :: cs => c.stage.left + leftAll cs

/-- What is left to do for an ioctl, with its commit if it has not come to that. -/
def Ioctl.left : Ioctl β ε → ℕ
  | .none => 0
  | .checked _ => 7
  | .tail => 1

/-- What is left to do. -/
def World.left (w : World β ε) : ℕ := leftAll w.commits + w.ioctl.left

section

variable {d : Driver} {w w' : World β ε} {i : ℕ}

theorem leftAll_concat (cs : List (Commit β ε)) (c : Commit β ε) :
    leftAll (cs ++ [c]) = leftAll cs + c.stage.left := by
  induction cs with
  | nil => exact Nat.add_comm ..
  | cons c' cs ih => rw [List.cons_append, leftAll, leftAll, ih, Nat.add_assoc]

theorem leftAll_modify_lt {cs : List (Commit β ε)} {c : Commit β ε} {stage : Stage}
    (hget : cs[i]? = some c) (hlt : stage.left < c.stage.left) :
    leftAll (cs.modify i fun c ↦ c.at stage) < leftAll cs := by
  induction cs generalizing i with
  | nil => cases hget
  | cons c' cs ih =>
    rcases i with _ | i
    · obtain rfl := Option.some_inj.mp hget
      exact Nat.add_lt_add_right hlt _
    · rw [List.modify_succ_cons, leftAll, leftAll]
      exact Nat.add_lt_add_left (ih hget) _

theorem leftAll_completed (cs : List (Commit β ε)) (i : ℕ) :
    leftAll (cs.modify i Commit.completed) = leftAll cs := by
  induction cs generalizing i with
  | nil => rw [List.modify_nil]
  | cons c cs ih =>
    rcases i with _ | i
    · rfl
    · rw [List.modify_succ_cons, leftAll, leftAll, ih]

theorem World.left_advance {stage stage' : Stage} (hadv : w.advance i stage stage' = some w')
    (hlt : stage'.left < stage.left) : w'.left < w.left := by
  obtain ⟨⟨c, hget, hstage⟩, rfl⟩ := World.advance_eq_some_iff.mp hadv
  exact Nat.add_lt_add_right (leftAll_modify_lt hget (hstage ▸ hlt)) _

/-- Sending an event is no work of a commit's own. -/
theorem World.left_send (w : World β ε) (p : PendingEvent ε) :
    (w.drmCrtcSendVblankEvent p).left = w.left := by
  rcases p with ⟨_ | i, event⟩
  · rfl
  · exact congrArg (· + w.ioctl.left) (leftAll_completed w.commits i)

/-- **Work gets done.** -/
theorem left_lt {a : Action β ε} (hwork : a.IsWork) (hstep : (machine d).step w a = some w') :
    w'.left < w.left := by
  rcases a with r | _ | _ | i | i | i | i | i | _
  · exact hwork.elim
  · exact hwork.elim
  · obtain ⟨r, hioctl, -, rfl⟩ := World.swapState_eq_some hstep
    simp only [World.left, World.swapState, hioctl, leftAll_concat]
    rcases r.blocking <;> simp [Stage.left, Ioctl.left]
  · change w.advance i .queued _ = some w' at hstep
    split at hstep
    · exact World.left_advance hstep (by decide)
    · exact World.left_advance hstep (by decide)
  · obtain ⟨w₁, hadv, rfl⟩ := Option.map_eq_some_iff.mp hstep
    have hlt := World.left_advance hadv (by decide)
    rcases w₁.event with _ | p
    · exact hlt
    · exact (World.left_send w₁ p).symm ▸ hlt
  · obtain ⟨w₁, hadv, rfl⟩ := Option.map_eq_some_iff.mp hstep
    have hlt : w₁.left < w.left := World.left_advance hadv (by decide)
    exact hlt
  · obtain ⟨w₁, hadv, rfl⟩ := Option.map_eq_some_iff.mp hstep
    have hlt : w₁.left < w.left := World.left_advance hadv (by decide)
    exact hlt
  · change w.advance i .hwDone .cleaned = some w' at hstep
    exact World.left_advance hstep (by decide)
  · obtain ⟨hioctl, -, rfl⟩ := World.unlock_eq_some hstep
    simp [World.left, hioctl, Ioctl.left]

/-- The worker of the newest commit can go on. -/
theorem World.advance_newest {cs : List (Commit β ε)} {c : Commit β ε}
    (hcommits : w.commits = cs ++ [c]) (stage' : Stage) :
    (w.advance cs.length c.stage stage').isSome := by
  rw [World.advance, hcommits, List.getElem?_concat_length, Option.any_some, if_pos (by simp)]
  rfl

/-- Where no work can be done, the newest commit is cleaned up. -/
theorem cleaned_of_stuck {cs : List (Commit β ε)} {c : Commit β ε}
    (hcommits : w.commits = cs ++ [c])
    (hstuck : ∀ a : Action β ε, a.IsWork → (machine d).step w a = none) : c.stage = .cleaned := by
  have hon := World.advance_newest hcommits
  rcases hstage : c.stage with _ | _ | _ | _ | _ | _
  all_goals rw [hstage] at hon
  · have hnone : w.flushTest cs.length = none := hstuck (.flushTest cs.length) trivial
    rw [World.flushTest] at hnone
    exact absurd (hon _) (by rw [hnone]; simp)
  · have hnone : w.flushSend cs.length = none := hstuck (.flushSend cs.length) trivial
    rw [World.flushSend, Option.map_eq_none_iff] at hnone
    exact absurd (hon _) (by rw [hnone]; simp)
  · have hnone : w.flushClear cs.length = none := hstuck (.flushClear cs.length) trivial
    rw [World.flushClear, Option.map_eq_none_iff] at hnone
    exact absurd (hon _) (by rw [hnone]; simp)
  · have hnone : w.commitHwDone cs.length = none := hstuck (.commitHwDone cs.length) trivial
    rw [World.commitHwDone, Option.map_eq_none_iff] at hnone
    exact absurd (hon _) (by rw [hnone]; simp)
  · have hnone : w.advance cs.length .hwDone .cleaned = none := hstuck (.cleanup cs.length) trivial
    exact absurd (hon _) (by rw [hnone]; simp)

/-- Where no work can be done, none is left. -/
theorem Follows.rest {t : SingleFlight (Request β ε)} (h : Follows d w t)
    (hstuck : ∀ a : Action β ε, a.IsWork → (machine d).step w a = none) :
    w.ioctl = .none ∧ w.inFlight = none := by
  have hnewest : w.newestAt [.hwDone, .cleaned] = true ∧ w.newestAt [.cleaned] = true ∧
      w.inFlight = none := by
    rcases h.tail.cases_concat with hnil | ⟨cs, c, hcommits, -, hc⟩
    · simp [World.newestAt, World.inFlight, hnil]
    have hstage := cleaned_of_stuck hcommits hstuck
    rw [Commit.Holds, hstage] at hc
    rw [World.inFlight_of_concat cs c hcommits, Commit.inFlight, if_pos hc.1]
    simp [World.newestAt, hcommits, hstage]
  rcases hioctl : w.ioctl with _ | r | _
  · exact ⟨rfl, hnewest.2.2⟩
  · have hswap := hstuck .swapState trivial
    simp only [machine, hioctl, hnewest.1, if_true] at hswap
    cases hswap
  · have hunlock := hstuck .unlock trivial
    simp only [machine, hioctl, hnewest.2.1, if_true] at hunlock
    cases hunlock

/-- **No event is kept back.**  Once no more is asked for, the work comes to an end, and when it
has, no ioctl waits any more, and all events of the requests that were not refused are sent. -/
theorem events_arrive {as bs : List (Action β ε)}
    (hrun : (machine d).Run Machine.free .vkmsInit as w)
    (hwork : (machine d).Run (fun _ a ↦ a.IsWork) w bs w') :
    bs.length ≤ w.left ∧
      ((∀ a : Action β ε, a.IsWork → (machine d).step w' a = none) →
        w'.ioctl = .none ∧ w'.sent = w'.accepted.filterMap Request.event) := by
  constructor
  · suffices hlt : bs.length + w'.left ≤ w.left by omega
    clear hrun
    induction hwork with
    | nil w => rw [List.length_nil, Nat.zero_add]
    | cons hok hstep _ ih =>
      have hlt := left_lt hok hstep
      rw [List.length_cons]
      omega
  · intro hstuck
    have hall : (machine d).Run Machine.free .vkmsInit (as ++ bs) w' :=
      hrun.append (hwork.within fun _ _ _ _ _ _ ↦ trivial)
    obtain ⟨t, hserver, h, -⟩ := (implements_singleFlight d).run hall (.vkmsInit d)
    obtain ⟨hioctl, hnone⟩ := h.rest hstuck
    have hevents := h.events (SingleFlight.accepted_eq hserver)
    rw [hnone, Option.bind_none, Option.toList_none, List.append_nil] at hevents
    exact ⟨hioctl, hevents.symm⟩

/-- The worker of the second flip goes on, and the commits are cleaned up. -/
def workersFinish : List (Action ℕ ℕ) :=
  [.flushTest 2, .flushSend 2, .flushClear 2, .commitHwDone 2, .cleanup 2, .cleanup 1]

theorem events_arrive_twoFlips :
    ∃ w, (machine .vkms).exec .vkmsInit (twoFlips ++ workersFinish) = some w ∧
      w.ioctl = .none ∧ w.sent = w.accepted.filterMap Request.event ∧ w.sent = [1, 3] := by
  have hexec : (machine .vkms).exec .vkmsInit (twoFlips ++ workersFinish) = some _ := rfl
  obtain ⟨w, hrun, hfinish⟩ := (Machine.exec_eq_some_iff.mp hexec).split
  have hall : ∀ a ∈ workersFinish, a.IsWork := by simp [workersFinish, Action.IsWork]
  obtain ⟨-, hend⟩ := events_arrive hrun (hfinish.within fun bs a cs _ has _ ↦
    hall a (has ▸ List.mem_append_right bs (List.mem_cons_self ..)))
  refine ⟨_, hexec, (hend fun a ha ↦ ?_).1, (hend fun a ha ↦ ?_).2, rfl⟩
  all_goals
    rcases a with r | _ | _ | i | i | i | i | i | _
    · exact ha.elim
    · exact ha.elim
    · rfl
    · rcases i with _ | _ | _ | i <;> rfl
    · rcases i with _ | _ | _ | i <;> rfl
    · rcases i with _ | _ | _ | i <;> rfl
    · rcases i with _ | _ | _ | i <;> rfl
    · rcases i with _ | _ | _ | i <;> rfl
    · rfl

end

end Vkms.FlipEvents
