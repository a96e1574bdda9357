import Mathlib.Data.List.Basic
import Mathlib.Tactic.TypeStar

/-!
# Tables that are filled on demand

A table starts out with few entries or none.  Who reads an entry that is missing asks for it, and
what was found may be kept, so that the next reader need not ask.  The environment has a say in
what is kept.

* `OnDemand` — how entries are looked up and asked for; `reads`, a sequence of readers.
* `Serves` — asking for a key in a domain finds the value of a fixed function, and keeps nothing
  else.
* `Serves.reads_eq_map` — every reader then gets the value of the function, in whatever order the
  keys are read and however often, and whatever the environment lets the table keep.
-/

set_option autoImplicit false

universe u v w x

/-- A table with keys `κ` and values `ν`, in states `σ`, in an environment that decides `ε` whenever
an entry is asked for. -/
structure OnDemand (κ : Type u) (ν : Type v) (σ : Type w) (ε : Type x) where
  /-- The entry of a key, if there is one. -/
  lookup : σ → κ → Option ν
  /-- Ask for the entry of a key. -/
  fetch : σ → κ → ε → Option ν × σ

namespace OnDemand

variable {κ : Type u} {ν : Type v} {σ : Type w} {ε : Type x}

/-- Read one entry, and ask for it if it is missing. -/
def read (T : OnDemand κ ν σ ε) (s : σ) (k : κ) (e : ε) : Option ν × σ :=
  match T.lookup s k with
  | some v => (some v, s)
  | none => T.fetch s k e

/-- What a sequence of readers gets. -/
def reads (T : OnDemand κ ν σ ε) : σ → List (κ × ε) → List (Option ν)
  | _, [] => []
  | s, r :: rs => (T.read s r.1 r.2).1 :: T.reads (T.read s r.1 r.2).2 rs

/-- Asking for a key of the domain finds the value of `f`, and changes no entry of the domain except
to the value of `f`. -/
structure Serves (T : OnDemand κ ν σ ε) (dom : κ → Prop) (f : κ → ν) : Prop where
  fetch_fst : ∀ s k e, dom k → (T.fetch s k e).1 = some (f k)
  lookup_fetch : ∀ s k e k', dom k → dom k' →
    T.lookup (T.fetch s k e).2 k' = T.lookup s k' ∨ T.lookup (T.fetch s k e).2 k' = some (f k')

/-- The entries of the domain that are there are values of `f`. -/
def Filled (T : OnDemand κ ν σ ε) (dom : κ → Prop) (f : κ → ν) (s : σ) : Prop :=
  ∀ k v, dom k → T.lookup s k = some v → v = f k

variable {T : OnDemand κ ν σ ε} {dom : κ → Prop} {f : κ → ν} {s : σ} {k : κ} {e : ε}

theorem Serves.read_fst (h : T.Serves dom f) (hs : T.Filled dom f s) (hk : dom k) :
    (T.read s k e).1 = some (f k) := by
  rw [read]
  split
  · rename_i v hv
    exact congrArg some (hs k v hk hv)
  · exact h.fetch_fst s k e hk

/-- **A reader** leaves the table filled with values of the function. -/
theorem Serves.filled_read (h : T.Serves dom f) (hs : T.Filled dom f s) (hk : dom k) :
    T.Filled dom f (T.read s k e).2 := by
  rw [read]
  split
  · exact hs
  · intro k' v' hk' hv'
    rcases h.lookup_fetch s k e k' hk hk' with hold | hnew
    · exact hs k' v' hk' (hold ▸ hv')
    · rw [hnew] at hv'
      exact (Option.some_inj.mp hv').symm

/-- **Every reader** gets the value of the function. -/
theorem Serves.reads_eq_map (h : T.Serves dom f) {rs : List (κ × ε)} (hrs : ∀ r ∈ rs, dom r.1)
    (hs : T.Filled dom f s) : T.reads s rs = rs.map fun r ↦ some (f r.1) := by
  induction rs generalizing s with
  | nil => rfl
  | cons r rs ih =>
    have hr : dom r.1 := hrs r List.mem_cons_self
    rw [reads, h.read_fst hs hr, ih (fun q hq ↦ hrs q (List.mem_cons_of_mem r hq))
      (h.filled_read hs hr)]
    rfl

end OnDemand
