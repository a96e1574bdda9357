import Mathlib.Data.Finset.Card
import SampleDrivers.Lib.Transition

/-!
# A reference count and the owners that rely on it

An object with a reference count is kept alive for its *owners*: the file descriptors, mappings and
running calls that will drop a reference when they are done.  The count and the set of owners are
separate pieces of state, changed by three operations:

* `share i` — a new owner that brings its own reference;
* `adopt i` — a new owner that takes over a reference somebody else already paid for;
* `drop i` — an owner leaves and its reference goes with it.

What keeps the object alive for as long as it is needed is `Covered`: at least as many references
as owners.  `share` and `drop` keep it whatever happens; `adopt` keeps it only when it is `Funded`,
that is when some reference is not already relied on (`Covered.step`).  Without it, the owners can
leave one after another until the count is zero and one of them is still there (`exists_drops`).
-/

set_option autoImplicit false

universe u

/-- A reference count together with the owners relying on it. -/
structure Counted (ι : Type u) where
  /-- The reference count. -/
  count : ℕ
  /-- Who will drop a reference later. -/
  owners : Finset ι

namespace Counted

variable {ι : Type u}

/-- What can happen to a counted object. -/
inductive Op (ι : Type u)
  | share (i : ι)
  | adopt (i : ι)
  | drop (i : ι)

/-- Every owner has a reference of its own. -/
def Covered (c : Counted ι) : Prop := c.owners.card ≤ c.count

/-- An adoption takes over a reference that no owner relies on yet. -/
def Funded (c : Counted ι) : Op ι → Prop
  | .adopt _ => c.owners.card < c.count
  | _ => True

/-- The object is not given up while somebody still owns it. -/
def KeptAlive (c : Counted ι) : Prop := c.count = 0 → c.owners = ∅

theorem Covered.keptAlive {c : Counted ι} (h : c.Covered) : c.KeptAlive := by
  intro h₀
  rw [Covered, h₀] at h
  exact Finset.card_eq_zero.mp (Nat.le_zero.mp h)

/-- An owner of a covered object holds a reference, so the count is positive. -/
theorem Covered.count_pos {c : Counted ι} (h : c.Covered) {i : ι} (hi : i ∈ c.owners) :
    0 < c.count :=
  lt_of_lt_of_le (Finset.card_pos.mpr ⟨i, hi⟩) h

variable [DecidableEq ι]

/-- The operations on a counted object.  A drop at count zero leaves the count where it is. -/
def machine : Machine (Counted ι) (Op ι) where
  step c
    | .share i => if i ∈ c.owners then none else some ⟨c.count + 1, insert i c.owners⟩
    | .adopt i => if i ∈ c.owners then none else some ⟨c.count, insert i c.owners⟩
    | .drop i => if i ∈ c.owners then some ⟨c.count - 1, c.owners.erase i⟩ else none

theorem step_share {c c' : Counted ι} {i : ι} :
    machine.step c (.share i) = some c' ↔
      i ∉ c.owners ∧ c' = ⟨c.count + 1, insert i c.owners⟩ := by
  simp only [machine]
  split <;> simp_all [eq_comm]

theorem step_adopt {c c' : Counted ι} {i : ι} :
    machine.step c (.adopt i) = some c' ↔ i ∉ c.owners ∧ c' = ⟨c.count, insert i c.owners⟩ := by
  simp only [machine]
  split <;> simp_all [eq_comm]

theorem step_drop {c c' : Counted ι} {i : ι} :
    machine.step c (.drop i) = some c' ↔ i ∈ c.owners ∧ c' = ⟨c.count - 1, c.owners.erase i⟩ := by
  simp only [machine]
  split <;> simp_all [eq_comm]

/-- **Coverage is preserved** by every funded operation. -/
theorem Covered.step {c c' : Counted ι} {op : Op ι} (h : c.Covered) (hf : c.Funded op)
    (hstep : machine.step c op = some c') : c'.Covered := by
  cases op with
  | share i =>
    obtain ⟨hi, rfl⟩ := step_share.mp hstep
    rw [Covered, Finset.card_insert_of_notMem hi]
    exact Nat.succ_le_succ h
  | adopt i =>
    obtain ⟨hi, rfl⟩ := step_adopt.mp hstep
    rw [Covered, Finset.card_insert_of_notMem hi]
    exact hf
  | drop i =>
    obtain ⟨hi, rfl⟩ := step_drop.mp hstep
    rw [Covered, Finset.card_erase_of_mem hi]
    exact Nat.sub_le_sub_right h 1

/-- The operation takes an owner away. -/
def IsDrop (_ : Counted ι) : Op ι → Prop
  | .drop _ => True
  | _ => False

/-- With more owners than references, dropping one owner after another brings the count to zero
while an owner is left. -/
theorem exists_drops {c : Counted ι} (h : ¬ c.Covered) :
    ∃ ops t, machine.Run IsDrop c ops t ∧ t.count = 0 ∧ t.owners ≠ ∅ := by
  obtain ⟨n, os⟩ := c
  induction n generalizing os with
  | zero =>
    refine ⟨[], _, .nil _, rfl, fun h₀ ↦ h ?_⟩
    simp_all [Covered]
  | succ n ih =>
    have hlt : n + 1 < os.card := by simpa [Covered] using h
    obtain ⟨i, hi⟩ := Finset.card_pos.mp (Nat.zero_lt_of_lt hlt)
    have herase : ¬ Covered ⟨n, os.erase i⟩ := by
      rw [Covered, Finset.card_erase_of_mem hi]
      show ¬ os.card - 1 ≤ n
      omega
    obtain ⟨ops, t, hrun, ht⟩ := ih (os.erase i) herase
    exact ⟨.drop i :: ops, t, .cons trivial (step_drop.mpr ⟨hi, rfl⟩) hrun, ht⟩

end Counted
