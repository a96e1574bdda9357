import Mathlib.Data.Option.Basic
import Mathlib.Tactic.Common

/-!
# Transactions, and what they are under other names

A partial store has values for some keys.  A transaction sets several keys at once.  It is refused,
and changes nothing, if it has a key that is not in the store, or if whoever keeps the store does
not like what would come of it.

* `writeAll`, `commit` — a transaction that is done, and one that is asked for.
* `view` — a store under other names, each of which is the name of at most one key.
* `view_commit` — a client that translates the names in a transaction into keys, and takes a key
  that is not in the store for the name of nothing, commits what it means.
-/

set_option autoImplicit false

namespace Transaction

variable {ι κ ν : Type}

/-! ## Transactions -/

/-- Set all keys of a transaction; the last value of a key counts. -/
def writeAll [DecidableEq κ] (s : κ → Option ν) : List (κ × ν) → κ → Option ν
  | [] => s
  | w :: t => writeAll (Function.update s w.1 (some w.2)) t

/-- All keys of a transaction are in the store. -/
def Known (s : κ → Option ν) (t : List (κ × ν)) : Prop := ∀ w ∈ t, (s w.1).isSome

instance (s : κ → Option ν) (t : List (κ × ν)) : Decidable (Known s t) :=
  inferInstanceAs (Decidable (∀ w ∈ t, _))

/-- Ask for a transaction: all of it is done, or nothing. -/
def commit [DecidableEq κ] (check : (κ → Option ν) → (κ → Option ν) → Bool) (s : κ → Option ν)
    (t : List (κ × ν)) : κ → Option ν :=
  if Known s t ∧ check s (writeAll s t) then writeAll s t else s

section

variable [DecidableEq κ] {s : κ → Option ν} {t : List (κ × ν)}

/-- A transaction makes no key. -/
theorem isSome_writeAll (h : Known s t) (k : κ) : (writeAll s t k).isSome = (s k).isSome := by
  induction t generalizing s with
  | nil => rfl
  | cons w t ih =>
    have hset : ∀ k', (Function.update s w.1 (some w.2) k').isSome = (s k').isSome := by
      intro k'
      rcases eq_or_ne k' w.1 with rfl | hne
      · rw [Function.update_self, h w List.mem_cons_self]
        rfl
      · rw [Function.update_of_ne hne]
    rw [writeAll, ih fun w' hw' ↦ (hset w'.1).trans (h w' (List.mem_cons_of_mem _ hw')), hset]

/-- A transaction leaves all other keys alone. -/
theorem writeAll_of_ne {k : κ} (h : ∀ w ∈ t, k ≠ w.1) : writeAll s t k = s k := by
  induction t generalizing s with
  | nil => rfl
  | cons w t ih =>
    rw [writeAll, ih fun w' hw' ↦ h w' (List.mem_cons_of_mem _ hw'),
      Function.update_of_ne (h w List.mem_cons_self)]

theorem isSome_commit {check : (κ → Option ν) → (κ → Option ν) → Bool} (k : κ) :
    (commit check s t k).isSome = (s k).isSome := by
  rw [commit]
  split
  · rename_i h
    exact isSome_writeAll h.1 k
  · rfl

/-- What counts of a check is what it says of this transaction. -/
theorem commit_congr {check check' : (κ → Option ν) → (κ → Option ν) → Bool}
    (h : check s (writeAll s t) = check' s (writeAll s t)) :
    commit check s t = commit check' s t := by
  rw [commit, commit, h]

end

/-! ## Names -/

/-- The store under other names. -/
def view (key : ι → Option κ) (s : κ → Option ν) (i : ι) : Option ν := (key i).bind s

/-- No key has two names. -/
def Unambiguous (key : ι → Option κ) : Prop :=
  ∀ i j k, key i = some k → key j = some k → i = j

/-- What the client takes for the keys of the names. -/
structure Translates (key : ι → Option κ) (s : κ → Option ν) (f : ι → κ) : Prop where
  known : ∀ i k, key i = some k → f i = k
  unknown : ∀ i, key i = none → s (f i) = none

section

variable {key : ι → Option κ} {s : κ → Option ν} {f : ι → κ} {t : List (ι × ν)}

/-- The names of a transaction are there if their keys are. -/
theorem known_map_iff (hf : Translates key s f) :
    Known s (t.map (Prod.map f id)) ↔ Known (view key s) t := by
  rw [Known, List.forall_mem_map]
  refine forall₂_congr fun w _ ↦ ?_
  rw [view]
  rcases hw : key w.1 with _ | k
  · rw [Prod.map_fst, hf.unknown _ hw]
    rfl
  · rw [Prod.map_fst, hf.known _ _ hw]
    rfl

variable [DecidableEq ι] [DecidableEq κ]

theorem view_update (hkey : Unambiguous key) {i : ι} {k : κ} (hi : key i = some k) (x : ν) :
    view key (Function.update s k (some x)) = Function.update (view key s) i (some x) := by
  funext j
  rcases eq_or_ne j i with rfl | hne
  · rw [view, hi, Option.bind_some, Function.update_self, Function.update_self]
  · rw [view, Function.update_of_ne hne, view]
    rcases hj : key j with _ | k'
    · rfl
    · have hk : k' ≠ k := by
        rintro rfl
        exact hne (hkey j i k' hj hi)
      rw [Option.bind_some, Option.bind_some, Function.update_of_ne hk]

theorem view_writeAll (hkey : Unambiguous key) (hf : ∀ i k, key i = some k → f i = k)
    (ht : ∀ w ∈ t, (key w.1).isSome) :
    view key (writeAll s (t.map (Prod.map f id))) = writeAll (view key s) t := by
  induction t generalizing s with
  | nil => rfl
  | cons w t ih =>
    obtain ⟨k, hk⟩ := Option.isSome_iff_exists.mp (ht w List.mem_cons_self)
    rw [List.map_cons, writeAll, writeAll, ih fun w' hw' ↦ ht w' (List.mem_cons_of_mem _ hw'),
      Prod.map_fst, Prod.map_snd, hf _ _ hk, view_update hkey hk]
    rfl

/-- **Translated transactions mean what they say**: all or nothing, under either names. -/
theorem view_commit (hkey : Unambiguous key) (hf : Translates key s f)
    (check : (ι → Option ν) → (ι → Option ν) → Bool) :
    view key (commit (fun s s' ↦ check (view key s) (view key s')) s (t.map (Prod.map f id))) =
      commit check (view key s) t := by
  rw [commit, commit]
  by_cases ht : Known (view key s) t
  · have hnamed : ∀ w ∈ t, (key w.1).isSome := fun w hw ↦ Option.isSome_of_isSome_bind (ht w hw)
    have hview := view_writeAll (s := s) hkey hf.known hnamed
    rw [hview]
    by_cases hcheck : check (view key s) (writeAll (view key s) t)
    · rw [if_pos ⟨(known_map_iff hf).mpr ht, hcheck⟩, if_pos ⟨ht, hcheck⟩, hview]
    · rw [if_neg fun h ↦ hcheck h.2, if_neg fun h ↦ hcheck h.2]
  · rw [if_neg fun h ↦ ht ((known_map_iff hf).mp h.1), if_neg fun h ↦ ht h.1]

end

end Transaction
