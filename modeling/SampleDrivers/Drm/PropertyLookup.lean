import Mathlib.Data.List.Count
import SampleDrivers.Lib.Prog

/-!
# The property lookup of the modeset programs

`get_property_id`, the same in modeset-atomic-crtc and modeset-atomic-plane, asks libdrm for the
properties of a list one by one until it has found the one with a given name.  Each answer is
memory that it has to free; libdrm answers `NULL` if its query fails.

* `getPropertyId` — the loop, which takes `id` both for the result and for the sign that it is done.
* `Matches`, `Answer` — the first entry whose query succeeds with the name, or that there is none.
* `LooksUp` — the answer is right, no entry behind the first match is asked for, and what was
  obtained is freed once.
* `looksUp_iff` — so it is, and no `NULL` is dereferenced, exactly if no query fails before the
  lookup is done.
-/

set_option autoImplicit false

namespace Drm.PropertyLookup

open Prog

/-- `drmModePropertyRes`, as far as the lookup reads it. -/
structure Property where
  propId : BitVec 32
  name : String
  /-- The kernel gives no property the number 0. -/
  propId_ne : propId ≠ 0

/-- What a call has asked of libdrm. -/
structure State where
  /-- The numbers it has queried, in order. -/
  queried : List (BitVec 32)
  /-- The queries whose answers it has freed, in order. -/
  freed : List ℕ

/-- The program crashes. -/
inductive Fault
  | nullDeref
  deriving DecidableEq, Repr

/-- A `drmModePropertyPtr`: `NULL`, or the answer to a query, which is named by its place. -/
abbrev PropertyPtr := Option (ℕ × Property)

section

variable (reply : ℕ → Option Property) (name : String)

/-- `drmModeGetProperty`; query `i` is answered with `reply i`. -/
def drmModeGetProperty (prop : BitVec 32) : Prog State Fault PropertyPtr := do
  let s ← get
  set { s with queried := s.queried ++ [prop] }
  return (reply s.queried.length).map fun p ↦ (s.queried.length, p)

/-- `drmModeFreeProperty`, which takes `NULL` too. -/
def drmModeFreeProperty : PropertyPtr → Prog State Fault Unit
  | none => return ()
  | some (i, _) => modify fun s ↦ { s with freed := s.freed ++ [i] }

/-- Follow the pointer. -/
def deref : PropertyPtr → Prog State Fault Property
  | none => throw .nullDeref
  | some (_, p) => return p

/-- The loop of `get_property_id`, with what is left of the list, and `id`. -/
def getPropertyIdFrom : List (BitVec 32) → BitVec 32 → Prog State Fault (BitVec 32)
  | [], id => return id
  | prop :: props, id => do
    let property ← drmModeGetProperty reply prop
    let p ← deref property
    let id := if p.name = name then p.propId else id
    drmModeFreeProperty property
    if id ≠ 0 then return id
    getPropertyIdFrom props id

/-- `get_property_id`. -/
def getPropertyId (props : List (BitVec 32)) : Prog State Fault (BitVec 32) :=
  getPropertyIdFrom reply name props 0

/-! ## What it is to do -/

/-- Query `i` succeeds, with the name. -/
def Matches (i : ℕ) : Prop := ∃ p, reply i = some p ∧ p.name = name

/-- The result for `len` entries from query `n` on, and how many of them have to be queried. -/
inductive Answer (n len : ℕ) : BitVec 32 → ℕ → Prop
  | found {i : ℕ} {p : Property} (hi : i < len) (hp : reply (n + i) = some p)
    (hname : p.name = name) (hfirst : ∀ j < i, ¬ Matches reply name (n + j)) :
    Answer n len p.propId (i + 1)
  | absent (h : ∀ i < len, ¬ Matches reply name (n + i)) : Answer n len 0 len

/-- What a call has to do, if nothing was asked before. -/
structure LooksUp (props : List (BitVec 32)) (id : BitVec 32) (s : State) : Prop where
  /-- It returns the number of the first match or 0, and asks for no entry after that. -/
  answer : ∃ count, Answer reply name 0 props.length id count ∧ s.queried = props.take count
  /-- The answers it was given are freed, each of them once. -/
  freed : ∀ i, s.freed.count i = if i < s.queried.length ∧ (reply i).isSome then 1 else 0

/-- No query fails from query `n` on, up to the first match among `len` entries. -/
def Succeeds (n len : ℕ) : Prop :=
  ∀ i < len, (∀ j < i, ¬ Matches reply name (n + j)) → (reply (n + i)).isSome

end

/-! ## What it does -/

section

variable {reply : ℕ → Option Property} {name : String} {props : List (BitVec 32)} {s : State}
  {Q : BitVec 32 → State → Prop} {E : Fault → State → Prop} {prop : BitVec 32}

/-- A round whose query fails. -/
theorem wp_from_null (h : reply s.queried.length = none) :
    wp (getPropertyIdFrom reply name (prop :: props) 0) Q E s ↔
      E .nullDeref { s with queried := s.queried ++ [prop] } := by
  simp [getPropertyIdFrom, drmModeGetProperty, h, deref]

/-- A round whose query succeeds. -/
theorem wp_from_some {p : Property} (h : reply s.queried.length = some p) :
    wp (getPropertyIdFrom reply name (prop :: props) 0) Q E s ↔
      if p.name = name then
        Q p.propId ⟨s.queried ++ [prop], s.freed ++ [s.queried.length]⟩
      else wp (getPropertyIdFrom reply name props 0) Q E
        ⟨s.queried ++ [prop], s.freed ++ [s.queried.length]⟩ := by
  simp only [getPropertyIdFrom, drmModeGetProperty, h, deref, drmModeFreeProperty, wp_bind, wp_get,
    wp_set, wp_pure, wp_modify, Option.map_some]
  split
  · rw [if_pos p.propId_ne, wp_pure]
  · rw [if_neg (not_not.mpr rfl)]

theorem add_right_step (n i : ℕ) : n + 1 + i = n + (i + 1) := by omega

/-- Entry `n`, and those behind it. -/
theorem forall_lt_succ_of_step {P : ℕ → Prop} {n m : ℕ} (h₀ : P n)
    (h : ∀ j < m, P (n + 1 + j)) : ∀ j < m + 1, P (n + j) := by
  intro j hj
  cases j with
  | zero => exact h₀
  | succ j => exact add_right_step n j ▸ h j (Nat.lt_of_succ_lt_succ hj)

/-- The answer of the entries behind one that does not match. -/
theorem Answer.step {n len count : ℕ} {id : BitVec 32} (h : Answer reply name (n + 1) len id count)
    (hno : ¬ Matches reply name n) : Answer reply name n (len + 1) id (count + 1) := by
  cases h with
  | found hi hp hname hfirst =>
    exact .found (Nat.succ_lt_succ hi) (add_right_step .. ▸ hp) hname
      (forall_lt_succ_of_step (P := fun i ↦ ¬ Matches reply name i) hno hfirst)
  | absent hnone =>
    exact .absent (forall_lt_succ_of_step (P := fun i ↦ ¬ Matches reply name i) hno hnone)

theorem Answer.count_le {n len count : ℕ} {id : BitVec 32} (h : Answer reply name n len id count) :
    count ≤ len := by
  cases h with
  | found hi => exact hi
  | absent => exact Nat.le_refl _

/-- No entry matches before the last one that is queried. -/
theorem Answer.not_matches {n len count i : ℕ} {id : BitVec 32}
    (h : Answer reply name n len id count) (hi : i < count) :
    ∀ j < i, ¬ Matches reply name (n + j) := by
  intro j hj
  cases h with
  | found _ _ _ hfirst => exact hfirst j (Nat.lt_of_lt_of_le hj (Nat.le_of_lt_succ hi))
  | absent hnone => exact hnone j (Nat.lt_trans hj hi)

theorem Succeeds.step {n len : ℕ} (h : Succeeds reply name n (len + 1))
    (hno : ¬ Matches reply name n) : Succeeds reply name (n + 1) len := by
  intro i hi hbefore
  rw [add_right_step]
  exact h (i + 1) (Nat.succ_lt_succ hi)
    (forall_lt_succ_of_step (P := fun i ↦ ¬ Matches reply name i) hno hbefore)

/-- **One call**, from any point of the log on, if no query fails. -/
theorem wp_from (hs : Succeeds reply name s.queried.length props.length) :
    wp (getPropertyIdFrom reply name props 0) (fun id s' ↦ ∃ count,
      Answer reply name s.queried.length props.length id count ∧
      s'.queried = s.queried ++ props.take count ∧
      s'.freed = s.freed ++ List.range' s.queried.length count) E s := by
  induction props generalizing s with
  | nil =>
    refine ⟨0, .absent fun i hi ↦ absurd hi (Nat.not_lt_zero i), ?_, ?_⟩
    · exact (List.append_nil _).symm
    · exact (List.append_nil _).symm
  | cons prop props ih =>
    obtain ⟨p, hp⟩ := Option.isSome_iff_exists.mp
      (hs 0 (Nat.succ_pos _) fun j hj ↦ absurd hj (Nat.not_lt_zero j))
    rw [Nat.add_zero] at hp
    rw [wp_from_some hp]
    split
    · rename_i hname
      exact ⟨1, .found (Nat.succ_pos _) hp hname fun j hj ↦ absurd hj (Nat.not_lt_zero j), rfl, rfl⟩
    · rename_i hname
      have hno : ¬ Matches reply name s.queried.length := by
        rintro ⟨p', hp', hname'⟩
        obtain rfl := Option.some_inj.mp (hp.symm.trans hp')
        exact hname hname'
      have hlen : (s.queried ++ [prop]).length = s.queried.length + 1 := by
        rw [List.length_append, List.length_singleton]
      refine wp_imp (ih (s := ⟨s.queried ++ [prop], s.freed ++ [s.queried.length]⟩)
        (hlen ▸ hs.step hno)) fun id s' hs' ↦ ?_
      obtain ⟨count, hanswer, hqueried, hfreed⟩ := hs'
      simp only [hlen] at hanswer hqueried hfreed
      refine ⟨count + 1, hanswer.step hno, ?_, ?_⟩
      · rw [hqueried, List.take_succ_cons, List.append_assoc, List.singleton_append]
      · rw [hfreed, List.range'_succ, List.append_assoc, List.singleton_append]

/-- A call that does not crash has seen no query fail. -/
theorem succeeds_of_wp (h : wp (getPropertyIdFrom reply name props 0) Q (fun _ _ ↦ False) s) :
    Succeeds reply name s.queried.length props.length := by
  induction props generalizing s with
  | nil => exact fun i hi ↦ absurd hi (Nat.not_lt_zero i)
  | cons prop props ih =>
    intro i hi hbefore
    cases hp : reply s.queried.length with
    | none => exact ((wp_from_null hp).mp h).elim
    | some p =>
      cases i with
      | zero => exact Option.isSome_iff_exists.mpr ⟨p, hp⟩
      | succ i =>
        have hname : p.name ≠ name := fun hname ↦ hbefore 0 (Nat.succ_pos i) ⟨p, hp, hname⟩
        rw [wp_from_some hp, if_neg hname] at h
        have hrest := ih h
        rw [List.length_append, List.length_singleton] at hrest
        have hsome := hrest i (Nat.lt_of_succ_lt_succ hi) fun j hj ↦ by
          rw [add_right_step]
          exact hbefore (j + 1) (Nat.succ_lt_succ hj)
        rwa [add_right_step] at hsome

/-- **The lookup** finds the first entry with the name, dereferences no `NULL` and frees what it
obtains, if and only if no query fails up to the first match. -/
theorem looksUp_iff (reply : ℕ → Option Property) (name : String) (props : List (BitVec 32)) :
    wp (getPropertyId reply name props) (LooksUp reply name props) (fun _ _ ↦ False) ⟨[], []⟩ ↔
      ∀ i < props.length, (∀ j < i, ¬ Matches reply name j) → (reply i).isSome := by
  have hzero : Succeeds reply name 0 props.length ↔
      ∀ i < props.length, (∀ j < i, ¬ Matches reply name j) → (reply i).isSome := by
    simp only [Succeeds, Nat.zero_add]
  rw [← hzero]
  constructor
  · intro h
    exact succeeds_of_wp h
  · intro hs
    refine wp_imp (wp_from (s := ⟨[], []⟩) hs) fun id s' hs' ↦ ?_
    obtain ⟨count, hanswer, hqueried, hfreed⟩ := hs'
    simp only [List.nil_append, List.length_nil] at hanswer hqueried hfreed
    refine ⟨⟨count, hanswer, hqueried⟩, fun i ↦ ?_⟩
    have hlen : s'.queried.length = count := by
      rw [hqueried, List.length_take_of_le hanswer.count_le]
    rw [hfreed, ← List.range_eq_range', List.count_range, hlen]
    by_cases hi : i < count
    · have hsome := hs i (Nat.lt_of_lt_of_le hi hanswer.count_le) (hanswer.not_matches hi)
      rw [Nat.zero_add] at hsome
      rw [if_pos hi, if_pos ⟨hi, hsome⟩]
    · rw [if_neg hi, if_neg fun h ↦ hi h.1]

end

/-- The query of the first of two entries fails, and the second is the one looked for. -/
def secondOnly (i : ℕ) : Option Property :=
  if i = 1 then some ⟨22, "CRTC_ID", by decide⟩ else none

/-- The program crashes on the first entry instead of finding the second. -/
theorem secondOnly_not_looksUp :
    (getPropertyId secondOnly "CRTC_ID" [20, 22]).result ⟨[], []⟩ = none ∧
      ¬ wp (getPropertyId secondOnly "CRTC_ID" [20, 22]) (LooksUp secondOnly "CRTC_ID" [20, 22])
        (fun _ _ ↦ False) ⟨[], []⟩ :=
  ⟨rfl, fun h ↦ h⟩

end Drm.PropertyLookup
