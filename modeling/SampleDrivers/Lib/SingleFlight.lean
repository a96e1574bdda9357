import SampleDrivers.Lib.Refinement

/-!
# One request at a time

The simplest server there is: it takes a request when it has none, refuses it when it has one, and
finishes the one it has at some time.  A request may also be one that it does not admit after those
it has accepted.

* `SingleFlight`, `SingleFlight.machine` — the server.
* `SingleFlight.accepted_eq` — every accepted request is finished once, in the order of acceptance,
  but for the one the server has.
* `SingleFlight.accepted_eq_nil` — where no first request is admitted, there are none.
-/

set_option autoImplicit false

universe u

/-- A server with the requests it has accepted and finished, in order. -/
structure SingleFlight (ρ : Type u) where
  accepted : List ρ
  finished : List ρ
  /-- The request the server has. -/
  inFlight : Option ρ

namespace SingleFlight

variable {ρ : Type u} {admits : List ρ → ρ → Bool} {s : SingleFlight ρ} {r : ρ}

/-- Nothing was asked for yet. -/
def empty : SingleFlight ρ := ⟨[], [], none⟩

/-- What the server can be told. -/
inductive Op (ρ : Type u)
  | ask (r : ρ)
  | finish

/-- The server has no request, and admits this one after those it has accepted. -/
def takes (admits : List ρ → ρ → Bool) (s : SingleFlight ρ) (r : ρ) : Bool :=
  s.inFlight.isNone && admits s.accepted r

/-- A request that is not taken is refused, and changes nothing. -/
def ask (admits : List ρ → ρ → Bool) (s : SingleFlight ρ) (r : ρ) : SingleFlight ρ :=
  if s.takes admits r then { s with accepted := s.accepted ++ [r], inFlight := some r } else s

/-- The server. -/
def machine (admits : List ρ → ρ → Bool) : Machine (SingleFlight ρ) (Op ρ) where
  step s
    | .ask r => some (s.ask admits r)
    | .finish =>
      s.inFlight.map fun r ↦ { s with finished := s.finished ++ [r], inFlight := none }

/-- What was accepted is finished, or in flight. -/
def InOrder (s : SingleFlight ρ) : Prop := s.accepted = s.finished ++ s.inFlight.toList

theorem takes_iff : s.takes admits r = true ↔ s.inFlight = none ∧ admits s.accepted r = true := by
  rw [takes, Bool.and_eq_true, Option.isNone_iff_eq_none]

theorem ask_of_takes (h : s.takes admits r = true) :
    s.ask admits r = { s with accepted := s.accepted ++ [r], inFlight := some r } := by
  rw [ask, if_pos h]

theorem ask_of_not_takes (h : s.takes admits r = false) : s.ask admits r = s := by
  rw [ask, h, if_neg Bool.false_ne_true]

theorem InOrder.ask (h : s.InOrder) (r : ρ) : (s.ask admits r).InOrder := by
  rcases htakes : s.takes admits r with _ | _
  · rwa [ask_of_not_takes htakes]
  · rw [ask_of_takes htakes, InOrder, h, (takes_iff.mp htakes).1]
    simp

/-- **Each accepted request is finished once, and in order**, but for the one in flight. -/
theorem accepted_eq {ok : SingleFlight ρ → Op ρ → Prop} {ops : List (Op ρ)}
    (h : (machine admits).Run ok empty ops s) : s.accepted = s.finished ++ s.inFlight.toList := by
  refine h.invariant (I := InOrder) (fun s op s' hs _ hstep ↦ ?_) rfl
  rcases op with r | _
  · exact Option.some_inj.mp hstep ▸ hs.ask r
  · obtain ⟨r, hr, rfl⟩ := Option.map_eq_some_iff.mp hstep
    rw [InOrder, hs, hr]
    simp

/-- A server that admits no first request accepts none. -/
theorem accepted_eq_nil {ok : SingleFlight ρ → Op ρ → Prop} {ops : List (Op ρ)}
    (hadmits : ∀ r, admits [] r = false) (h : (machine admits).Run ok empty ops s) :
    s.accepted = [] := by
  refine (h.invariant (I := fun s ↦ s.accepted = [] ∧ s.inFlight = none)
    (fun s op s' hs _ hstep ↦ ?_) ⟨rfl, rfl⟩).1
  rcases op with r | _
  · have hnot : s.takes admits r = false := by
      rw [takes, hs.1, hadmits r]
      exact Bool.and_false _
    rw [← Option.some_inj.mp hstep, ask_of_not_takes hnot]
    exact hs
  · obtain ⟨r, hr, -⟩ := Option.map_eq_some_iff.mp hstep
    exact absurd (hs.2.symm.trans hr) (by simp)

end SingleFlight
