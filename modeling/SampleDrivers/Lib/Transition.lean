import Mathlib.Data.List.Basic
import Mathlib.Tactic.TypeStar

/-!
# Machines, runs and guards

A reactive component is a partial step function: `M.step s a` is the state after action `a` in
state `s`, or `none` when `a` is not enabled there.  Everything nondeterministic about the
environment (which party moves, whether an allocation succeeds) is part of the action, so a run is
determined by its list of actions and a claim about every interleaving is a claim about every
list.

* `Machine.Run ok s as t` — the actions `as`, taken in order from `s`, lead to `t`, and the guard
  `ok` held before each of them.  `free` is the guard that always holds.
* `Machine.Run.invariant` — the one induction on runs that safety proofs need.
* `Machine.Run.forall_take_iff` — for a guard that no run may leave, not even once.
* `Machine.exec` — the same runs as a function, for evaluating a concrete list of actions.
* `ExactGuard M init Safe ok` — the guard `ok` is exactly what safety asks for: every run inside
  the guard stays safe, and a step outside it can always be continued into an unsafe state.
* `Simulation` — steps of one machine matched by runs of another.
-/

set_option autoImplicit false

universe u v w x

/-- A partial step function over states `σ` and actions `α`. -/
structure Machine (σ : Type u) (α : Type v) where
  /-- The state after an action, `none` when the action is not enabled. -/
  step : σ → α → Option σ

namespace Machine

variable {σ : Type u} {α : Type v} {τ : Type w} {β : Type x}

/-- The guard that every step meets. -/
def free : σ → α → Prop := fun _ _ ↦ True

/-- `M.Run ok s as t`: from `s`, the actions `as` lead to `t`, each of them taken in a state
where the guard `ok` holds of it. -/
inductive Run (M : Machine σ α) (ok : σ → α → Prop) : σ → List α → σ → Prop
  | nil (s : σ) : Run M ok s [] s
  | cons {s s' t : σ} {a : α} {as : List α} (hok : ok s a) (hstep : M.step s a = some s')
      (hrun : Run M ok s' as t) : Run M ok s (a :: as) t

variable {M : Machine σ α} {ok ok' : σ → α → Prop}

theorem Run.single {s t : σ} {a : α} (hok : ok s a) (h : M.step s a = some t) :
    M.Run ok s [a] t :=
  .cons hok h (.nil t)

theorem Run.append {s t r : σ} {as bs : List α} (h : M.Run ok s as t) (h' : M.Run ok t bs r) :
    M.Run ok s (as ++ bs) r := by
  induction h with
  | nil => exact h'
  | cons hok hstep _ ih => exact .cons hok hstep (ih h')

theorem Run.snoc {s t r : σ} {a : α} {as : List α} (h : M.Run ok s as t) (hok : ok t a)
    (hstep : M.step t a = some r) : M.Run ok s (as ++ [a]) r :=
  h.append (.single hok hstep)

/-- A run over a concatenation passes through a state between the two parts. -/
theorem Run.split {s r : σ} {as bs : List α} (h : M.Run ok s (as ++ bs) r) :
    ∃ t, M.Run ok s as t ∧ M.Run ok t bs r := by
  induction as generalizing s with
  | nil => exact ⟨s, .nil s, h⟩
  | cons a as ih =>
    cases h with
    | cons hok hstep hrun =>
      obtain ⟨t, ht, hr⟩ := ih hrun
      exact ⟨t, .cons hok hstep ht, hr⟩

/-- A machine is deterministic: the actions determine where a run ends. -/
theorem Run.unique {s t r : σ} {as : List α} (h : M.Run ok s as t) (h' : M.Run ok' s as r) :
    t = r := by
  induction h with
  | nil => cases h'; rfl
  | cons _ hstep _ ih =>
    cases h' with
    | cons _ hstep' hrun' =>
      rw [hstep, Option.some_inj] at hstep'
      subst hstep'
      exact ih hrun'

/-- **Invariants**: what one step inside the guard preserves, a run inside the guard preserves. -/
theorem Run.invariant {I : σ → Prop} {s t : σ} {as : List α} (h : M.Run ok s as t)
    (hstep : ∀ s a s', I s → ok s a → M.step s a = some s' → I s') (hs : I s) : I t := by
  induction h with
  | nil => exact hs
  | cons hok hst _ ih => exact ih (hstep _ _ _ hs hok hst)

/-- Each action of a run was inside the guard. -/
theorem Run.exists_ok {s t : σ} {a : α} {as : List α} (h : M.Run ok s as t) (ha : a ∈ as) :
    ∃ r, ok r a := by
  induction h with
  | nil s => cases ha
  | @cons s _ _ b _ hok _ _ ih =>
    rcases List.mem_cons.mp ha with rfl | ha
    · exact ⟨s, hok⟩
    · exact ih ha

/-- The states of a run that stays inside a guard are reached inside it. -/
theorem Run.take {s t r : σ} {as bs : List α} (h : M.Run ok s as t) (hpre : bs <+: as)
    (hrun : M.Run ok' s bs r) : M.Run ok s bs r := by
  obtain ⟨cs, rfl⟩ := hpre
  obtain ⟨r', hr', -⟩ := h.split
  exact hr'.unique hrun ▸ hr'

/-- A run stays inside a guard that holds of each of its actions in the state before it. -/
theorem Run.within {s t : σ} {as : List α} (h : M.Run ok' s as t)
    (hok : ∀ bs a cs r, as = bs ++ a :: cs → M.Run ok' s bs r → ok r a) : M.Run ok s as t := by
  induction h with
  | nil s => exact .nil s
  | @cons s s' t a as hok' hstep hrun ih =>
    refine .cons (hok [] a as s rfl (.nil s)) hstep (ih fun bs b cs r has hr ↦ ?_)
    exact hok (a :: bs) b cs r (by rw [has, List.cons_append]) (.cons hok' hstep hr)

/-- **Runs that are good all the way.**  If runs inside the guard lead to good states, and a step
outside it never does, then all states on the way of a run are good exactly if it stays inside. -/
theorem Run.forall_take_iff {Good : σ → Prop} {s t : σ} {as : List α} (h : M.Run free s as t)
    (hin : ∀ bs r, M.Run ok s bs r → Good r)
    (hout : ∀ bs r a r', M.Run free s bs r → M.step r a = some r' → ¬ ok r a → ¬ Good r') :
    (∀ bs r, bs <+: as → M.Run free s bs r → Good r) ↔ M.Run ok s as t := by
  constructor
  · intro hgood
    refine h.within fun bs a cs r has hr ↦ ?_
    subst has
    obtain ⟨r₀, hr₀, hrest⟩ := h.split
    obtain rfl := hr₀.unique hr
    by_contra hok
    cases hrest with
    | @cons _ r' _ _ _ _ hstep _ =>
      refine hout bs _ a r' hr hstep hok (hgood (bs ++ [a]) r' ⟨cs, by simp⟩ ?_)
      exact hr.snoc trivial hstep
  · exact fun hrun bs r hpre hr ↦ hin bs r (hrun.take hpre hr)

/-! ## Runs as a function -/

/-- Take the actions in order, as long as they are enabled. -/
def exec (M : Machine σ α) : σ → List α → Option σ
  | s, [] => some s
  | s, a :: as => (M.step s a).bind fun s' ↦ M.exec s' as

theorem exec_eq_some_iff {s t : σ} {as : List α} :
    M.exec s as = some t ↔ M.Run free s as t := by
  induction as generalizing s with
  | nil =>
    refine ⟨fun h ↦ ?_, fun h ↦ ?_⟩
    · rw [exec, Option.some_inj] at h; exact h ▸ .nil s
    · cases h; rfl
  | cons a as ih =>
    rw [exec, Option.bind_eq_some_iff]
    refine ⟨fun ⟨s', hstep, h⟩ ↦ .cons trivial hstep (ih.1 h), fun h ↦ ?_⟩
    cases h with
    | cons _ hstep hrun => exact ⟨_, hstep, ih.2 hrun⟩

/-! ## Guards that are exactly what safety needs -/

/-- Some continuation from `s` ends in a state satisfying `P`. -/
def CanReach (M : Machine σ α) (P : σ → Prop) (s : σ) : Prop :=
  ∃ as t, M.Run free s as t ∧ P t

theorem CanReach.now {P : σ → Prop} {s : σ} (h : P s) : M.CanReach P s := ⟨[], s, .nil s, h⟩

theorem CanReach.mono {P Q : σ → Prop} {s : σ} (h : M.CanReach P s) (hPQ : ∀ t, P t → Q t) :
    M.CanReach Q s := by
  obtain ⟨as, t, hrun, ht⟩ := h
  exact ⟨as, t, hrun, hPQ t ht⟩

theorem CanReach.step {P : σ → Prop} {s s' : σ} {a : α} (hstep : M.step s a = some s')
    (h : M.CanReach P s') : M.CanReach P s := by
  obtain ⟨as, t, hrun, hP⟩ := h
  exact ⟨a :: as, t, .cons trivial hstep hrun, hP⟩

/-- The guard `ok` is exact for the safety property `Safe`: runs that stay inside the guard stay
safe, and after any step that leaves the guard the environment can drive the machine into an
unsafe state. -/
structure ExactGuard (M : Machine σ α) (init : σ → Prop) (Safe : σ → Prop)
    (ok : σ → α → Prop) : Prop where
  /-- Every state reached inside the guard is safe. -/
  safe : ∀ {s₀ s : σ} {as : List α}, init s₀ → M.Run ok s₀ as s → Safe s
  /-- Every step outside the guard can be continued into an unsafe state. -/
  tight : ∀ {s₀ s s' : σ} {as : List α} {a : α}, init s₀ → M.Run ok s₀ as s →
    M.step s a = some s' → ¬ ok s a → M.CanReach (fun t ↦ ¬ Safe t) s'

/-- An exact guard from an invariant that holds of the runs inside it. -/
theorem ExactGuard.of_invariant {init Safe I : σ → Prop} (hinit : ∀ s, init s → I s)
    (hstep : ∀ s a s', I s → ok s a → M.step s a = some s' → I s')
    (hsafe : ∀ s, I s → Safe s)
    (htight : ∀ s a s', I s → M.step s a = some s' → ¬ ok s a →
      M.CanReach (fun t ↦ ¬ Safe t) s') : M.ExactGuard init Safe ok where
  safe h₀ hrun := hsafe _ (hrun.invariant hstep (hinit _ h₀))
  tight h₀ hrun := htight _ _ _ (hrun.invariant hstep (hinit _ h₀))

/-! ## Simulation -/

/-- Every guarded step of `M` is matched, along `R`, by a guarded run of `N`. -/
def Simulation (M : Machine σ α) (okM : σ → α → Prop) (N : Machine τ β) (okN : τ → β → Prop)
    (R : σ → τ → Prop) : Prop :=
  ∀ ⦃s : σ⦄ ⦃t : τ⦄ ⦃a : α⦄ ⦃s' : σ⦄, R s t → okM s a → M.step s a = some s' →
    ∃ bs t', N.Run okN t bs t' ∧ R s' t'

/-- **Simulation of runs**: matching step by step matches whole runs. -/
theorem Simulation.run {okM : σ → α → Prop} {N : Machine τ β} {okN : τ → β → Prop}
    {R : σ → τ → Prop} (hsim : M.Simulation okM N okN R) {s s' : σ} {as : List α}
    (h : M.Run okM s as s') {t : τ} (hR : R s t) :
    ∃ bs t', N.Run okN t bs t' ∧ R s' t' := by
  induction h generalizing t with
  | nil => exact ⟨[], t, .nil t, hR⟩
  | cons hok hstep _ ih =>
    obtain ⟨bs, t₁, hrun, hR₁⟩ := hsim hR hok hstep
    obtain ⟨cs, t₂, hrun', hR₂⟩ := ih hR₁
    exact ⟨bs ++ cs, t₂, hrun.append hrun', hR₂⟩

end Machine
