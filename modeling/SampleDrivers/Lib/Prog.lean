import Mathlib.Data.Nat.Notation
import Mathlib.Tactic.Common

/-!
# Imperative programs and how to reason about them

A program reads and writes a state, and returns a value or stops with a fault; a fault keeps the
state it was raised in.  The loops of C that count are `forFrom` and `whileDown`.

* `wp` — the weakest precondition of a program for what it has to establish when it returns and
  when it faults.  `wp_bind` and the like are equivalences, so that `simp` runs a program
  symbolically; the two loops have invariant rules.
* `Returns P x` — whatever the program returns satisfies `P`, wherever it is started.
* `Within R x` — the program moves the state only along a preorder `R`; `Keeps view x` (it leaves
  a part of the state alone) and `Preserves I x` (it keeps an invariant) are the two cases.  It is
  closed under everything programs are built with, so it is proved of the primitives only.
* `Alike R x y` — two programs, in related states, take the same way: they return equal values or
  raise equal faults, and the states stay related.  Noninterference is `Alike` with a relation
  that says which part of the state an observer cannot see.
-/

set_option autoImplicit false

/-- A program over states `σ` that may stop with a fault `ε`. -/
abbrev Prog (σ ε : Type) := EStateM ε σ

namespace Prog

variable {σ ε α β γ : Type}

/-! ## Loops -/

/-- `for (i = i₀; n rounds; i++)`, with local variables `α`; the body returns `none` to leave the
loop.  The result is the counter and the locals where the loop ended. -/
def forFrom (body : ℕ → α → Prog σ ε (Option α)) :
    ℕ → ℕ → α → Prog σ ε (ℕ × α)
  | 0, i, a => pure (i, a)
  | n + 1, i, a => do
    match ← body i a with
    | some b => forFrom body n (i + 1) b
    | none => pure (i, a)

/-- `while (i--)`. -/
def whileDown (body : ℕ → Prog σ ε Unit) : ℕ → Prog σ ε Unit
  | 0 => pure ()
  | i + 1 => do
    body i
    whileDown body i

/-! ## Weakest preconditions -/

/-- The program, started in `s`, returns with `Q` or faults with `E`. -/
def wp (x : Prog σ ε α) (Q : α → σ → Prop) (E : ε → σ → Prop) (s : σ) : Prop :=
  match x s with
  | .ok a t => Q a t
  | .error e t => E e t

variable {Q Q' : α → σ → Prop} {E E' : ε → σ → Prop} {s : σ}

@[simp] theorem wp_pure (a : α) : wp (pure a) Q E s ↔ Q a s := Iff.rfl

@[simp] theorem wp_throw (e : ε) : wp (throw e : Prog σ ε α) Q E s ↔ E e s := Iff.rfl

@[simp] theorem wp_get {Q : σ → σ → Prop} : wp (get : Prog σ ε σ) Q E s ↔ Q s s := Iff.rfl

@[simp] theorem wp_set {Q : PUnit → σ → Prop} (t : σ) :
    wp (set t : Prog σ ε PUnit) Q E s ↔ Q ⟨⟩ t := Iff.rfl

@[simp] theorem wp_modify {Q : PUnit → σ → Prop} (f : σ → σ) :
    wp (modify f : Prog σ ε PUnit) Q E s ↔ Q ⟨⟩ (f s) := Iff.rfl

@[simp] theorem wp_bind (x : Prog σ ε β) (f : β → Prog σ ε α) :
    wp (x >>= f) Q E s ↔ wp x (fun b ↦ wp (f b) Q E) E s := by
  simp only [wp, bind, EStateM.bind]
  cases x s <;> rfl

@[simp] theorem wp_map (f : β → α) (x : Prog σ ε β) :
    wp (f <$> x) Q E s ↔ wp x (fun b ↦ Q (f b)) E s := by
  simp only [wp, Functor.map, EStateM.map]
  cases x s <;> rfl

theorem wp_mono {x : Prog σ ε α} (h : wp x Q E s) (hQ : ∀ a t, Q a t → Q' a t)
    (hE : ∀ e t, E e t → E' e t) : wp x Q' E' s := by
  simp only [wp] at h ⊢
  split at h
  · exact hQ _ _ h
  · exact hE _ _ h

/-- Weaken what holds when the program returns. -/
theorem wp_imp {x : Prog σ ε α} (h : wp x Q E s) (hQ : ∀ a t, Q a t → Q' a t) : wp x Q' E s :=
  wp_mono h hQ fun _ _ hE ↦ hE

/-- A program that cannot fault establishes anything when it does. -/
theorem wp_of_no_fault {x : Prog σ ε α} (h : wp x Q (fun _ _ ↦ False) s)
    (hQ : ∀ a t, Q a t → Q' a t) : wp x Q' E s :=
  wp_mono h hQ fun _ _ hfalse ↦ hfalse.elim

/-- A program that always faults establishes anything when it returns. -/
theorem wp_of_fault {x : Prog σ ε α} (h : wp x (fun _ _ ↦ False) E s)
    (hE : ∀ e t, E e t → E' e t) : wp x Q E' s :=
  wp_mono h (fun _ _ hfalse ↦ hfalse.elim) hE

/-- Programs are deterministic: one that does not establish something establishes its negation. -/
theorem not_wp {x : Prog σ ε α} :
    ¬ wp x Q E s ↔ wp x (fun a t ↦ ¬ Q a t) (fun e t ↦ ¬ E e t) s := by
  simp only [wp]
  split <;> rfl

/-- What a program that cannot fault ends with decides what it establishes. -/
theorem wp_iff_of {x : Prog σ ε α} {P : Prop} (h : wp x (fun a t ↦ Q a t ↔ P) (fun _ _ ↦ False) s) :
    wp x Q (fun _ _ ↦ False) s ↔ P := by
  simp only [wp] at h ⊢
  split at h
  · exact h
  · exact h.elim

theorem wp_of_ok {x : Prog σ ε α} {a : α} {t : σ} (h : x s = .ok a t) : wp x Q E s ↔ Q a t := by
  simp only [wp, h]

/-- A program that establishes one result returns that result. -/
theorem ok_of_wp {x : Prog σ ε α} {a : α} {t : σ}
    (h : wp x (fun b r ↦ b = a ∧ r = t) (fun _ _ ↦ False) s) : x s = .ok a t := by
  simp only [wp] at h
  split at h
  · rename_i hx
    obtain ⟨rfl, rfl⟩ := h
    exact hx
  · exact h.elim

section Loops

variable {Q : ℕ × α → σ → Prop}

/-- **Invariant rule of `forFrom`**: a round that goes on keeps the invariant, one that leaves the
loop establishes the postcondition, and so does the invariant when all rounds are done. -/
theorem wp_forFrom {body : ℕ → α → Prog σ ε (Option α)} (I : ℕ → α → σ → Prop) {n i : ℕ}
    (hround : ∀ j a s, i ≤ j → j < i + n → I j a s →
      wp (body j a) (fun r t ↦ r.elim (Q (j, a) t) fun b ↦ I (j + 1) b t) E s)
    (hend : ∀ a s, I (i + n) a s → Q (i + n, a) s) {a : α} {s : σ} (hs : I i a s) :
    wp (forFrom body n i a) Q E s := by
  induction n generalizing i a s with
  | zero => exact hend a s hs
  | succ n ih =>
    rw [forFrom, wp_bind]
    refine wp_imp (hround i a s (Nat.le_refl i) (by omega) hs) fun r t hr ↦ ?_
    cases r with
    | none => exact hr
    | some b =>
      refine ih (fun j a s hij hjn ↦ hround j a s (by omega) (by omega)) (fun a s h ↦ ?_) hr
      have hcount : i + 1 + n = i + (n + 1) := by omega
      rw [hcount] at h ⊢
      exact hend a s h

/-- **Invariant rule of `whileDown`**. -/
theorem wp_whileDown {body : ℕ → Prog σ ε Unit} (I : ℕ → σ → Prop) {i : ℕ}
    (hround : ∀ j s, j < i → I (j + 1) s → wp (body j) (fun _ t ↦ I j t) E s) {s : σ}
    (hs : I i s) : wp (whileDown body i) (fun _ t ↦ I 0 t) E s := by
  induction i generalizing s with
  | zero => exact hs
  | succ i ih =>
    rw [whileDown, wp_bind]
    refine wp_imp (hround i s (Nat.lt_succ_self i) hs) fun _ t ht ↦ ?_
    exact ih (fun j s hj ↦ hround j s (Nat.lt_succ_of_lt hj)) ht

end Loops

/-! ## Where a program ends -/

/-- The state in which the program returns or faults. -/
def final (x : Prog σ ε α) (s : σ) : σ :=
  match x s with
  | .ok _ t => t
  | .error _ t => t

/-- What the program returns, if it does. -/
def result (x : Prog σ ε α) (s : σ) : Option α :=
  match x s with
  | .ok a _ => some a
  | .error _ _ => none

/-- Whatever the program ends with holds of where it ends. -/
theorem final_of_wp {P : σ → Prop} {x : Prog σ ε α} (h : wp x (fun _ ↦ P) (fun _ ↦ P) s) :
    P (final x s) := by
  simp only [wp, final] at h ⊢
  split at h
  · exact h
  · exact h

theorem result_of_wp {a : α} {x : Prog σ ε α} (h : wp x Q E s) (ha : result x s = some a) :
    Q a (final x s) := by
  rcases hx : x s with ⟨b, t⟩ | ⟨e, t⟩
  · simp only [wp, final, result, hx, Option.some_inj] at h ha ⊢
    exact ha ▸ h
  · simp only [result, hx] at ha
    exact absurd ha (by simp)

theorem fault_of_wp {x : Prog σ ε α} (h : wp x Q E s) (hn : result x s = none) :
    ∃ e, E e (final x s) := by
  rcases hx : x s with ⟨b, t⟩ | ⟨e, t⟩
  · simp only [result, hx] at hn
    exact absurd hn (by simp)
  · simp only [wp, final, hx] at h ⊢
    exact ⟨e, h⟩

/-- A program that cannot fault returns something. -/
theorem result_isSome_of_wp {x : Prog σ ε α} (h : wp x Q (fun _ _ ↦ False) s) :
    (result x s).isSome := by
  rw [Option.isSome_iff_ne_none]
  intro hn
  obtain ⟨-, hfalse⟩ := fault_of_wp h hn
  exact hfalse

/-! ## What a program can return -/

/-- Whatever the program returns, in whatever state it is started, satisfies `P`. -/
def Returns (P : α → Prop) (x : Prog σ ε α) : Prop :=
  ∀ s, wp x (fun a _ ↦ P a) (fun _ _ ↦ True) s

namespace Returns

variable {P : α → Prop} {R : β → Prop}

theorem pure {a : α} (h : P a) : Returns P (pure a : Prog σ ε α) := fun _ ↦ h

theorem bind {x : Prog σ ε β} {f : β → Prog σ ε α} (hx : Returns R x)
    (hf : ∀ b, R b → Returns P (f b)) : Returns P (x >>= f) := by
  intro s
  rw [wp_bind]
  exact wp_imp (hx s) fun b t hb ↦ hf b hb t

theorem anything (x : Prog σ ε α) : Returns (fun _ ↦ True) x := by
  intro s
  rw [wp]
  split
  · trivial
  · trivial

/-- Only the last result counts. -/
theorem last {x : Prog σ ε β} {f : β → Prog σ ε α} (hf : ∀ b, Returns P (f b)) :
    Returns P (x >>= f) :=
  (anything x).bind fun b _ ↦ hf b

theorem ite {p : Prop} [Decidable p] {x y : Prog σ ε α} (hx : p → Returns P x)
    (hy : ¬ p → Returns P y) : Returns P (if p then x else y) := by
  split
  · rename_i h
    exact hx h
  · rename_i h
    exact hy h

/-- What a program establishes, together with what it can return. -/
theorem and_wp {x : Prog σ ε α} (hx : Returns P x) (h : wp x Q E s) :
    wp x (fun a t ↦ P a ∧ Q a t) E s := by
  have hP := hx s
  rw [wp] at h hP ⊢
  split at h
  · rename_i hs
    rw [hs] at hP
    exact ⟨hP, h⟩
  · exact h

end Returns

/-! ## Frames and invariants -/

/-- A way in which a state may evolve: a preorder on states. -/
structure Evolution (σ : Type) where
  rel : σ → σ → Prop
  refl : ∀ s, rel s s
  trans : ∀ {s t r}, rel s t → rel t r → rel s r

/-- Leaving `view` of the state as it is. -/
def Evolution.frame (view : σ → γ) : Evolution σ where
  rel s t := view t = view s
  refl _ := rfl
  trans h h' := h'.trans h

/-- Keeping an invariant. -/
def Evolution.invariant (I : σ → Prop) : Evolution σ where
  rel s t := I s → I t
  refl _ := id
  trans h h' := h' ∘ h

/-- The program moves the state only along `R`, also when it faults. -/
def Within (R : Evolution σ) (x : Prog σ ε α) : Prop :=
  ∀ s, wp x (fun _ t ↦ R.rel s t) (fun _ t ↦ R.rel s t) s

/-- The program leaves `view` of the state as it was. -/
abbrev Keeps (view : σ → γ) (x : Prog σ ε α) : Prop := Within (.frame view) x

/-- The program keeps the invariant `I`. -/
abbrev Preserves (I : σ → Prop) (x : Prog σ ε α) : Prop := Within (.invariant I) x

namespace Within

variable {R : Evolution σ}

theorem pure (a : α) : Within R (pure a : Prog σ ε α) := fun s ↦ R.refl s

theorem throw (e : ε) : Within R (throw e : Prog σ ε α) := fun s ↦ R.refl s

theorem get : Within R (get : Prog σ ε σ) := fun s ↦ R.refl s

theorem modify (f : σ → σ) (h : ∀ s, R.rel s (f s)) : Within R (modify f : Prog σ ε PUnit) :=
  fun s ↦ h s

theorem bind {x : Prog σ ε β} {f : β → Prog σ ε α} (hx : Within R x)
    (hf : ∀ b, Within R (f b)) : Within R (x >>= f) := by
  intro s
  rw [wp_bind]
  refine wp_imp (hx s) fun b t ht ↦ ?_
  exact wp_mono (hf b t) (fun _ _ h ↦ R.trans ht h) fun _ _ h ↦ R.trans ht h

theorem ite {p : Prop} [Decidable p] {x y : Prog σ ε α} (hx : Within R x) (hy : Within R y) :
    Within R (if p then x else y) := by
  split
  · exact hx
  · exact hy

theorem forFrom {body : ℕ → α → Prog σ ε (Option α)} (h : ∀ i a, Within R (body i a)) :
    ∀ n i a, Within R (Prog.forFrom body n i a)
  | 0, _, _ => .pure _
  | n + 1, i, a => (h i a).bind fun
    | some b => forFrom h n (i + 1) b
    | none => .pure _

theorem whileDown {body : ℕ → Prog σ ε Unit} (h : ∀ i, Within R (body i)) :
    ∀ i, Within R (Prog.whileDown body i)
  | 0 => .pure _
  | i + 1 => (h i).bind fun _ ↦ whileDown h i

theorem final {x : Prog σ ε α} (h : Within R x) (s : σ) : R.rel s (x.final s) :=
  final_of_wp (h s)

/-- What follows a program moves the state on from where the program has ended. -/
theorem final_bind {x : Prog σ ε β} {f : β → Prog σ ε α} (h : ∀ b, Within R (f b)) (s : σ) :
    R.rel (x.final s) ((x >>= f).final s) := by
  refine final_of_wp ?_
  rw [wp_bind, wp, Prog.final]
  split
  · exact h _ _
  · exact R.refl _

/-- How the state evolves, together with what the program establishes. -/
theorem and_wp {x : Prog σ ε α} (h : Within R x) {Q : α → σ → Prop} {E : ε → σ → Prop} {s : σ}
    (hwp : wp x Q E s) : wp x (fun a t ↦ R.rel s t ∧ Q a t) E s := by
  have hR := h s
  rw [wp] at hwp hR ⊢
  split at hwp
  · rename_i hs
    rw [hs] at hR
    exact ⟨hR, hwp⟩
  · exact hwp

/-- What depends only on a part of the state that is left alone is preserved. -/
theorem preserves {view : σ → γ} {I : σ → Prop} {x : Prog σ ε α} (h : Keeps view x)
    (hI : ∀ s t, view t = view s → I s → I t) : Preserves I x :=
  fun s ↦ wp_mono (h s) (fun _ t ht ↦ hI s t ht) fun _ t ht ↦ hI s t ht

/-- A part of a part that is left alone is left alone. -/
theorem comp {δ : Type} {view : σ → γ} {x : Prog σ ε α} (h : Keeps view x) (f : γ → δ) :
    Keeps (fun s ↦ f (view s)) x :=
  fun s ↦ wp_mono (h s) (fun _ _ ht ↦ congrArg f ht) fun _ _ ht ↦ congrArg f ht

end Within

/-! ## Two runs -/

/-- In related states the programs take the same way and end in related states. -/
def Alike (R : σ → σ → Prop) (x y : Prog σ ε α) : Prop :=
  ∀ s t, R s t → wp x (fun a s' ↦ wp y (fun b t' ↦ a = b ∧ R s' t') (fun _ _ ↦ False) t)
    (fun e s' ↦ wp y (fun _ _ ↦ False) (fun e' t' ↦ e = e' ∧ R s' t') t) s

namespace Alike

variable {R : σ → σ → Prop}

theorem pure (a : α) : Alike R (pure a : Prog σ ε α) (pure a) := fun _ _ h ↦ ⟨rfl, h⟩

theorem throw (e : ε) : Alike R (throw e : Prog σ ε α) (throw e) := fun _ _ h ↦ ⟨rfl, h⟩

theorem modify {f g : σ → σ} (h : ∀ s t, R s t → R (f s) (g t)) :
    Alike R (modify f : Prog σ ε PUnit) (modify g) := fun s t hst ↦ ⟨rfl, h s t hst⟩

theorem ite {p : Prop} [Decidable p] {x x' y y' : Prog σ ε α} (hx : Alike R x x')
    (hy : Alike R y y') : Alike R (if p then x else y) (if p then x' else y') := by
  split
  · exact hx
  · exact hy

theorem bind {x y : Prog σ ε β} {f g : β → Prog σ ε α} (hxy : Alike R x y)
    (hfg : ∀ b, Alike R (f b) (g b)) : Alike R (x >>= f) (y >>= g) := by
  intro s t hR
  have h := hxy s t hR
  simp only [wp_bind]
  simp only [wp] at h ⊢
  split at h
  · rename_i a s' hx
    split at h
    · rename_i b t' hy
      obtain ⟨rfl, hR'⟩ := h
      simpa only [hx, hy, wp] using hfg a s' t' hR'
    · exact absurd h id
  · rename_i e s' hx
    split at h
    · exact absurd h id
    · rename_i e' t' hy
      simpa only [hx, hy] using h

theorem forFrom {x y : ℕ → α → Prog σ ε (Option α)}
    (h : ∀ i a, Alike R (x i a) (y i a)) :
    ∀ n i a, Alike R (Prog.forFrom x n i a) (Prog.forFrom y n i a)
  | 0, _, _ => .pure _
  | n + 1, i, a => (h i a).bind fun
    | some b => forFrom h n (i + 1) b
    | none => .pure _

theorem whileDown {x y : ℕ → Prog σ ε Unit}
    (h : ∀ i, Alike R (x i) (y i)) : ∀ i, Alike R (Prog.whileDown x i) (Prog.whileDown y i)
  | 0 => .pure _
  | i + 1 => (h i).bind fun _ ↦ whileDown h i

/-- Where the programs end, and what they return. -/
theorem final {x y : Prog σ ε α} (h : Alike R x y) {s t : σ} (hst : R s t) :
    R (x.final s) (y.final t) ∧ x.result s = y.result t := by
  have hxy := h s t hst
  rcases hx : x s with ⟨a, s'⟩ | ⟨e, s'⟩ <;> rcases hy : y t with ⟨b, t'⟩ | ⟨e', t'⟩ <;>
    simp only [wp, hx, hy, Prog.final, Prog.result] at hxy ⊢
  · exact ⟨hxy.2, congrArg some hxy.1⟩
  · exact ⟨hxy.2, trivial⟩

end Alike

end Prog
