import Mathlib.Data.List.Basic
import Mathlib.Data.List.Range
import SampleDrivers.Kernel.Basic
import SampleDrivers.Lib.Transition

/-!
# The page flips of modeset-page-flip

The program shows two buffers in turn.  It asks for a flip, and from then on each flip event makes
its handler toggle a static variable and ask for the next flip; the kernel completes a flip when it
likes, and refuses one that is asked for while another is pending.

* `machine` — the program from its first mode setting on, the kernel, and `SIGINT` at any time.
* `State.pendingCount`, `State.queue`, `Point.unanswered` — where the one flip of the program is: a
  flip is pending, its event is queued, or the event's handler has not asked for the next one yet.
* `page_flip` — there is one in all, no request is refused, none but the first names the buffer on
  the screen, and the buffers are shown in turn.
* `flip_behind_handler` — after its request, the handler sleeps, and its event is still being
  handled while the next flip is pending.
-/

set_option autoImplicit false

namespace Drm.PageFlip

open Kernel

/-- Where the program is.  `left` counts the events that were read together with the one being
handled, and are handled after it. -/
inductive Point
  /-- About to set the mode on `buf[0]`. -/
  | setCrtc
  /-- About to ask for the first flip. -/
  | firstFlip
  /-- At the test of `while (!terminate)`. -/
  | loop
  /-- In `drmHandleEvent`, reading events. -/
  | read
  /-- At the beginning of `modeset_page_flip_handler`. -/
  | handler (left : ℕ)
  /-- After `i ^= 1`. -/
  | toggled (left : ℕ)
  /-- In `usleep`. -/
  | asleep (left : ℕ)
  /-- Out of the loop. -/
  | exited
  deriving DecidableEq, Repr

/-- A call of `drmModePageFlip`: the buffer it names, what was on the screen, and the result. -/
structure Request where
  buffer : ℕ
  onScreen : Option ℕ
  ret : ℤ
  deriving DecidableEq, Repr

/-- The program and the kernel.  A buffer is named by its index in `buf`. -/
structure State where
  point : Point
  /-- The static variable of the handler. -/
  i : ℕ
  terminate : Bool
  onScreen : Option ℕ
  /-- The buffer of the flip that is pending. -/
  pending : Option ℕ
  /-- The flip events that were not read yet. -/
  queue : ℕ
  /-- The buffers that flips have put on the screen, in order. -/
  completed : List ℕ
  /-- The requests so far, in order. -/
  requests : List Request
  deriving DecidableEq, Repr

/-- The program has its buffers, and has not set the mode. -/
def begin : State := ⟨.setCrtc, 0, false, none, none, 0, [], []⟩

/-- `drmModePageFlip` to `buf[b]`. -/
def State.pageFlip (s : State) (b : ℕ) : State :=
  if s.pending.isSome then { s with requests := s.requests ++ [⟨b, s.onScreen, -EBUSY⟩] }
  else { s with pending := some b, requests := s.requests ++ [⟨b, s.onScreen, 0⟩] }

/-- The next step of the program, unless it is reading. -/
def State.next (s : State) : Option State :=
  match s.point with
  | .setCrtc => some { s with onScreen := some 0, point := .firstFlip }
  | .firstFlip => some { s.pageFlip 0 with point := .loop }
  | .loop => some { s with point := if s.terminate then .exited else .read }
  | .read => none
  | .handler left => some { s with i := s.i ^^^ 1, point := .toggled left }
  | .toggled left => some { s.pageFlip s.i with point := .asleep left }
  | .asleep 0 => some { s with point := .loop }
  | .asleep (left + 1) => some { s with point := .handler left }
  | .exited => none

/-- A step of the program, of the kernel, or of the user. -/
inductive Action
  /-- The program goes on. -/
  | next
  /-- `read` returns one event and `left` more. -/
  | readEvents (left : ℕ)
  /-- `read` fails, and `drmHandleEvent` returns. -/
  | readFails
  /-- The kernel completes the pending flip, and queues its event. -/
  | complete
  /-- `SIGINT`. -/
  | sigint
  deriving DecidableEq, Repr

/-- The program, the kernel and the user, each at its own pace. -/
def machine : Machine State Action where
  step s
    | .next => s.next
    | .readEvents left =>
      if s.point = .read ∧ left < s.queue then
        some { s with queue := s.queue - (left + 1), point := .handler left }
      else none
    | .readFails => if s.point = .read then some { s with point := .loop } else none
    | .complete =>
      s.pending.map fun b ↦ { s with
        onScreen := some b, pending := none, queue := s.queue + 1, completed := s.completed ++ [b] }
    | .sigint => some { s with terminate := true }

/-- How many flips are pending: none or one. -/
def State.pendingCount (s : State) : ℕ := s.pending.elim 0 fun _ ↦ 1

/-- The events that were read and whose handler has not asked for a flip yet. -/
def Point.unanswered : Point → ℕ
  | .handler left | .toggled left => left + 1
  | .asleep left => left
  | _ => 0

/-- The events that were read and whose handler has not returned yet. -/
def Point.inHandling : Point → ℕ
  | .handler left | .toggled left | .asleep left => left + 1
  | _ => 0

/-- The flips as they are meant to be. -/
structure InTurn (s : State) : Prop where
  /-- A flip is pending, or its event is queued or not answered. -/
  single : s.pendingCount + s.queue + s.point.unanswered ≤ 1
  accepted : ∀ r ∈ s.requests, r.ret = 0
  /-- No request but the first names the buffer on the screen. -/
  offScreen : ∀ r ∈ s.requests.tail, r.onScreen ≠ some r.buffer
  /-- The buffers come in turn. -/
  completed_eq : s.completed = (List.range s.completed.length).map (· % 2)

/-! ## What every step keeps -/

/-- Before the first request. -/
structure Before (s : State) : Prop where
  point_eq : s.point = .setCrtc ∨ s.point = .firstFlip ∧ s.onScreen = some 0
  i_eq : s.i = 0
  pending_eq : s.pending = none
  queue_eq : s.queue = 0
  completed_eq : s.completed = []
  requests_eq : s.requests = []

/-- Whether the static variable is still that of the last request. -/
def Point.behind : Point → ℕ
  | .toggled _ => 0
  | _ => 1

/-- After the first request: where the flip is, and what the variable, the screen and the requests
have to do with the number of flips completed. -/
structure After (s : State) : Prop where
  point_ne : s.point ≠ .setCrtc ∧ s.point ≠ .firstFlip
  single : s.pendingCount + s.queue + s.point.unanswered = 1
  started : 0 < s.completed.length + s.pendingCount
  i_eq : s.i = (s.completed.length + s.pendingCount + s.point.behind) % 2
  pending_eq : ∀ b, s.pending = some b → b = s.completed.length % 2
  onScreen_eq : s.onScreen = some ((s.completed.length - 1) % 2)
  completed_eq : s.completed = (List.range s.completed.length).map (· % 2)
  accepted : ∀ r ∈ s.requests, r.ret = 0
  requested : s.requests ≠ []
  offScreen : ∀ r ∈ s.requests.tail, r.onScreen ≠ some r.buffer

/-- `i ^= 1`. -/
theorem mod_two_xor_one (n : ℕ) : n % 2 ^^^ 1 = (n + 1) % 2 := by
  rcases Nat.mod_two_eq_zero_or_one n with h | h <;> rw [Nat.add_mod, h] <;> rfl

theorem pageFlip_of_none {s : State} (b : ℕ) (h : s.pending = none) :
    s.pageFlip b =
      { s with pending := some b, requests := s.requests ++ [⟨b, s.onScreen, 0⟩] } := by
  rw [State.pageFlip, h]
  rfl

namespace Before

variable {s s' : State}

theorem inTurn (h : Before s) : InTurn s := by
  refine ⟨?_, ?_, ?_, ?_⟩
  · rcases h.point_eq with hpoint | ⟨hpoint, -⟩ <;>
      simp [State.pendingCount, h.pending_eq, h.queue_eq, hpoint, Point.unanswered]
  · simp [h.requests_eq]
  · simp [h.requests_eq]
  · simp [h.completed_eq]

theorem step {a : Action} (h : Before s) (hstep : machine.step s a = some s') :
    Before s' ∨ After s' := by
  obtain ⟨hpoint, hi, hpending, hqueue, hcompleted, hrequests⟩ := h
  have hnotRead : s.point ≠ .read := by
    rcases hpoint with hpoint | ⟨hpoint, -⟩ <;> simp [hpoint]
  cases a with
  | next =>
    change s.next = some s' at hstep
    rcases hpoint with hpoint | ⟨hpoint, hscreen⟩
    · rw [State.next, hpoint, Option.some_inj] at hstep
      subst hstep
      exact .inl ⟨.inr ⟨rfl, rfl⟩, hi, hpending, hqueue, hcompleted, hrequests⟩
    · rw [State.next, hpoint, Option.some_inj, pageFlip_of_none 0 hpending] at hstep
      subst hstep
      refine .inr ⟨by simp, ?_, ?_, ?_, fun b hb ↦ ?_, ?_, ?_, ?_, ?_, ?_⟩
      · simp [State.pendingCount, hqueue, Point.unanswered]
      · simp [State.pendingCount]
      · simp [hi, hcompleted, State.pendingCount, Point.behind]
      · simpa [hcompleted] using hb.symm
      · simp [hscreen, hcompleted]
      · simp [hcompleted]
      · simp [hrequests]
      · simp
      · simp [hrequests]
  | readEvents left =>
    obtain ⟨⟨hread, -⟩, -⟩ := Option.ite_none_right_eq_some.mp hstep
    exact absurd hread hnotRead
  | readFails =>
    obtain ⟨hread, -⟩ := Option.ite_none_right_eq_some.mp hstep
    exact absurd hread hnotRead
  | complete =>
    obtain ⟨b, hb, -⟩ := Option.map_eq_some_iff.mp hstep
    exact absurd (hpending.symm.trans hb) (by simp)
  | sigint =>
    obtain rfl := Option.some_inj.mp hstep
    exact .inl ⟨hpoint, hi, hpending, hqueue, hcompleted, hrequests⟩

end Before

namespace After

variable {s s' : State}

theorem inTurn (h : After s) : InTurn s :=
  ⟨h.single.le, h.accepted, h.offScreen, h.completed_eq⟩

/-- The program moves, its flip stays where it is. -/
theorem move {point : Point} {terminate : Bool} {queue : ℕ} (h : After s)
    (hpoint : point ≠ .setCrtc ∧ point ≠ .firstFlip)
    (hsingle : queue + point.unanswered = s.queue + s.point.unanswered)
    (hbehind : point.behind = s.point.behind) :
    After { s with point := point, terminate := terminate, queue := queue } := by
  refine ⟨hpoint, ?_, h.started, ?_, h.pending_eq, h.onScreen_eq, h.completed_eq, h.accepted,
    h.requested, h.offScreen⟩
  · have hone := h.single
    simp only [State.pendingCount] at hone ⊢
    omega
  · rw [hbehind]
    exact h.i_eq

/-- The handler toggles its variable. -/
theorem toggle {left : ℕ} (h : After s) (hpoint : s.point = .handler left) :
    After { s with i := s.i ^^^ 1, point := .toggled left } := by
  have hone := h.single
  have hi := h.i_eq
  rw [hpoint] at hone hi
  refine ⟨by simp, hone, h.started, ?_, h.pending_eq, h.onScreen_eq, h.completed_eq, h.accepted,
    h.requested, h.offScreen⟩
  change s.i = (_ + _ + 1) % 2 at hi
  simp only [hi, mod_two_xor_one, Point.behind, State.pendingCount]
  omega

/-- The handler asks for the next flip: none is pending, and the screen shows the other buffer. -/
theorem request {left : ℕ} (h : After s) (hpoint : s.point = .toggled left) :
    After { s.pageFlip s.i with point := .asleep left } := by
  have hone := h.single
  have hi := h.i_eq
  have hstarted := h.started
  rw [hpoint] at hone hi
  simp only [Point.unanswered, Point.behind] at hone hi
  have hcount : s.pendingCount = 0 := by omega
  have hnone : s.pending = none := by
    cases hpending : s.pending with
    | none => rfl
    | some b => simp [State.pendingCount, hpending] at hcount
  rw [hcount] at hi hstarted
  have hother : s.onScreen ≠ some s.i := by
    rw [h.onScreen_eq, hi, Ne, Option.some_inj]
    omega
  rw [pageFlip_of_none _ hnone]
  refine ⟨by simp, ?_, ?_, ?_, fun b hb ↦ ?_, h.onScreen_eq, h.completed_eq, fun r hr ↦ ?_,
    by simp, fun r hr ↦ ?_⟩
  · simp only [State.pendingCount, Point.unanswered, Option.elim_some]
    omega
  · exact Nat.lt_of_lt_of_le hstarted (Nat.add_le_add_left (Nat.zero_le _) _)
  · simp only [State.pendingCount, Point.behind, Option.elim_some, hi]
    omega
  · rw [← Option.some_inj.mp hb, hi]
    rfl
  · rcases List.mem_append.mp hr with hr | hr
    · exact h.accepted r hr
    · rw [List.mem_singleton.mp hr]
  · rw [List.tail_append_of_ne_nil h.requested] at hr
    rcases List.mem_append.mp hr with hr | hr
    · exact h.offScreen r hr
    · rw [List.mem_singleton.mp hr]
      exact hother

/-- The kernel completes the flip. -/
theorem complete {b : ℕ} (h : After s) (hb : s.pending = some b) :
    After { s with
      onScreen := some b, pending := none, queue := s.queue + 1,
      completed := s.completed ++ [b] } := by
  obtain rfl := h.pending_eq b hb
  have hone := h.single
  have hi := h.i_eq
  have hcount : s.pendingCount = 1 := by rw [State.pendingCount, hb]; rfl
  rw [hcount] at hone hi
  refine ⟨h.point_ne, ?_, ?_, ?_, fun b' hb' ↦ absurd hb' (by simp), ?_, ?_, h.accepted,
    h.requested, h.offScreen⟩
  · simp only [State.pendingCount, Option.elim_none]
    omega
  · exact Nat.lt_of_lt_of_le (by simp) (Nat.le_add_right _ _)
  · simp only [List.length_append, List.length_singleton, State.pendingCount, Option.elim_none, hi]
  · simp
  · simp only [List.length_append, List.length_singleton, List.range_succ, List.map_append]
    rw [← h.completed_eq]
    rfl

/-- **A step after the first request.** -/
theorem step {a : Action} (h : After s) (hstep : machine.step s a = some s') : After s' := by
  cases a with
  | next =>
    change s.next = some s' at hstep
    unfold State.next at hstep
    split at hstep
    · rename_i hpoint
      exact absurd hpoint h.point_ne.1
    · rename_i hpoint
      exact absurd hpoint h.point_ne.2
    · rename_i hpoint
      obtain rfl := Option.some_inj.mp hstep
      cases hterm : s.terminate with
      | false => exact h.move (by simp) (by rw [hpoint]; rfl) (by rw [hpoint]; rfl)
      | true => exact h.move (by simp) (by rw [hpoint]; rfl) (by rw [hpoint]; rfl)
    · exact absurd hstep (by simp)
    · rename_i left hpoint
      exact Option.some_inj.mp hstep ▸ h.toggle hpoint
    · rename_i left hpoint
      exact Option.some_inj.mp hstep ▸ h.request hpoint
    · rename_i hpoint
      exact Option.some_inj.mp hstep ▸ h.move (by simp) (by rw [hpoint]; rfl) (by rw [hpoint]; rfl)
    · rename_i left hpoint
      exact Option.some_inj.mp hstep ▸ h.move (by simp) (by rw [hpoint]; rfl) (by rw [hpoint]; rfl)
    · exact absurd hstep (by simp)
  | readEvents left =>
    obtain ⟨⟨hpoint, hleft⟩, ⟨⟩⟩ := Option.ite_none_right_eq_some.mp hstep
    refine h.move (by simp) ?_ ?_
    · rw [hpoint]
      simp only [Point.unanswered]
      omega
    · rw [hpoint]
      rfl
  | readFails =>
    obtain ⟨hpoint, ⟨⟩⟩ := Option.ite_none_right_eq_some.mp hstep
    exact h.move (by simp) (by rw [hpoint]; rfl) (by rw [hpoint]; rfl)
  | complete =>
    obtain ⟨b, hb, rfl⟩ := Option.map_eq_some_iff.mp hstep
    exact h.complete hb
  | sigint =>
    obtain rfl := Option.some_inj.mp hstep
    exact h.move h.point_ne rfl rfl

end After

/-- **The page flips.**  Whatever the kernel, the user and the program do in whatever order, a flip
is pending or its event waits to be answered, but never two of these; no request is refused; every
request but the first names the buffer that is not on the screen; and the buffers come onto it in
turn. -/
theorem page_flip {as : List Action} {s : State} (hrun : machine.Run Machine.free begin as s) :
    InTurn s := by
  have hkept : Before s ∨ After s := by
    refine hrun.invariant (I := fun s ↦ Before s ∨ After s) (fun s a s' h _ hstep ↦ ?_)
      (.inl ⟨.inl rfl, rfl, rfl, rfl, rfl, rfl⟩)
    rcases h with h | h
    · exact h.step hstep
    · exact .inr (h.step hstep)
  rcases hkept with h | h
  · exact h.inTurn
  · exact h.inTurn

/-- Two flips are completed, the second of them while the handler sleeps, and a third is asked for
although the user has asked the program to terminate. -/
def threeRequests : List Action :=
  [.next, .next, .next, .complete, .readEvents 0, .next, .next, .complete, .next, .next,
    .readEvents 0, .next, .sigint, .next]

theorem page_flip_threeRequests : ∃ s, machine.exec begin threeRequests = some s ∧
    s.requests.map Request.buffer = [0, 1, 0] ∧ s.completed = [0, 1] ∧ InTurn s :=
  ⟨_, rfl, rfl, rfl, page_flip (Machine.exec_eq_some_iff.mp (rfl : machine.exec begin threeRequests
    = some _))⟩

/-- The handler has asked for the next flip and sleeps: its event is still being handled while the
flip is pending. -/
theorem flip_behind_handler : ∃ s, machine.exec begin [.next, .next, .next, .complete,
    .readEvents 0, .next, .next] = some s ∧ s.pendingCount + s.queue + s.point.inHandling = 2 :=
  ⟨_, rfl, rfl⟩

end Drm.PageFlip
