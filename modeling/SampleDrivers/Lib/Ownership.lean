import Mathlib.Tactic.Common

/-!
# Exact ownership

Resources of type `R` are in use or not, and slots of type `ι` hold resources.  Ownership is exact
when the resources in use are the disjoint union of what the slots hold: a resource is in use if
and only if some slot holds it, and then only one does.

* `ExactlyOwned.extend` — slots that were empty receive resources that were not in use.
* `ExactlyOwned.restrict` — slots are emptied, and what they held is given back.
-/

set_option autoImplicit false

universe u v

/-- The resources in use are the disjoint union of what the slots hold. -/
structure ExactlyOwned {R : Type u} {ι : Type v} (inUse : R → Prop) (slot : ι → Option R) :
    Prop where
  /-- What is in use is what some slot holds. -/
  owned : ∀ r, inUse r ↔ ∃ i, slot i = some r
  /-- No two slots hold the same resource. -/
  unique : ∀ i j r, slot i = some r → slot j = some r → i = j

namespace ExactlyOwned

variable {R : Type u} {ι : Type v} {inUse inUse' : R → Prop} {slot slot' : ι → Option R}

/-- Nothing in use and nothing held. -/
theorem empty (hnone : ∀ r, ¬ inUse r) (hslot : ∀ i, slot i = none) :
    ExactlyOwned inUse slot where
  owned r := by
    refine iff_of_false (hnone r) ?_
    rintro ⟨i, hi⟩
    rw [hslot i] at hi
    exact absurd hi (by simp)
  unique i j r hi := by
    rw [hslot i] at hi
    exact absurd hi (by simp)

/-- Slots that were empty receive distinct resources that were not in use. -/
theorem extend (h : ExactlyOwned inUse slot) (new : ι → Prop)
    (hold : ∀ i, ¬ new i → slot' i = slot i) (hempty : ∀ i, new i → slot i = none)
    (hfresh : ∀ i r, new i → slot' i = some r → ¬ inUse r)
    (hdistinct : ∀ i j r, new i → new j → slot' i = some r → slot' j = some r → i = j)
    (huse : ∀ r, inUse' r ↔ inUse r ∨ ∃ i, new i ∧ slot' i = some r) :
    ExactlyOwned inUse' slot' where
  owned r := by
    rw [huse, h.owned]
    constructor
    · rintro (⟨i, hi⟩ | ⟨i, -, hi⟩)
      · refine ⟨i, ?_⟩
        by_cases hnew : new i
        · rw [hempty i hnew] at hi
          exact absurd hi (by simp)
        · rw [hold i hnew, hi]
      · exact ⟨i, hi⟩
    · rintro ⟨i, hi⟩
      by_cases hnew : new i
      · exact .inr ⟨i, hnew, hi⟩
      · exact .inl ⟨i, hold i hnew ▸ hi⟩
  unique i j r hi hj := by
    have hused : ∀ l, ¬ new l → slot' l = some r → inUse r := fun l hl hr ↦
      (h.owned r).mpr ⟨l, hold l hl ▸ hr⟩
    by_cases hni : new i
    · by_cases hnj : new j
      · exact hdistinct i j r hni hnj hi hj
      · exact absurd (hused j hnj hj) (hfresh i r hni hi)
    · by_cases hnj : new j
      · exact absurd (hused i hni hi) (hfresh j r hnj hj)
      · exact h.unique i j r (hold i hni ▸ hi) (hold j hnj ▸ hj)

/-- Slots are emptied, and what they held is not in use any more. -/
theorem restrict (h : ExactlyOwned inUse slot) (gone : ι → Prop)
    (hkeep : ∀ i, ¬ gone i → slot' i = slot i) (hempty : ∀ i, gone i → slot' i = none)
    (huse : ∀ r, inUse' r ↔ inUse r ∧ ∀ i, gone i → slot i ≠ some r) :
    ExactlyOwned inUse' slot' where
  owned r := by
    rw [huse, h.owned]
    constructor
    · rintro ⟨⟨i, hi⟩, hnot⟩
      have hni : ¬ gone i := fun hgone ↦ hnot i hgone hi
      exact ⟨i, (hkeep i hni).trans hi⟩
    · rintro ⟨i, hi⟩
      have hni : ¬ gone i := fun hgone ↦ by
        rw [hempty i hgone] at hi
        exact absurd hi (by simp)
      rw [hkeep i hni] at hi
      exact ⟨⟨i, hi⟩, fun j hj hjr ↦ hni (h.unique i j r hi hjr ▸ hj)⟩
  unique i j r hi hj := by
    have hkept : ∀ l, slot' l = some r → slot l = some r := by
      intro l hl
      by_cases hgone : gone l
      · rw [hempty l hgone] at hl
        exact absurd hl (by simp)
      · rwa [hkeep l hgone] at hl
    exact h.unique i j r (hkept i hi) (hkept j hj)

end ExactlyOwned
