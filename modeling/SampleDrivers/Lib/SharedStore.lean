import Mathlib.Logic.Function.Basic
import SampleDrivers.Lib.Refinement

/-!
# Stores that are seen through views

Objects consist of cells with contents, and are used through views; any number of views may show the
same cell.  Whoever writes through one of them changes what all of them show.

* `Store`, `Store.Op`, `Store.machine` — cells and views, with everything that may happen to them.
* `Store.Allowed` — cells are made where there were none, and go when no view shows them; a view is
  made to show a cell that is there.  So no view is left showing nothing (`Store.Sound`).
* `Store.lastEffect` — what was done to a cell last in a run; it decides what the cell contains
  (`cell_eq_lastEffect`).
* `Store.outputs_writes_reads` — what is written in a row is read back through other views.
* `Store.Placed` — a memory implements a store: each cell has a place of its own in the memory, and
  a view leads to the place of the cell it shows.  The lemmas of this name are the rules by which a
  memory goes on implementing a store.
-/

set_option autoImplicit false

universe u v w x

/-- The contents of cells `κ`, and which of them the views `ν` show. -/
structure Store (κ : Type u) (ν : Type v) (β : Type w) where
  /-- `none` where there is no cell. -/
  cell : κ → Option β
  /-- `none` for a view that shows nothing. -/
  view : ν → Option κ

namespace Store

variable {κ : Type u} {ν : Type v} {β : Type w} {π : Type x}

/-- No cells and no views. -/
def empty : Store κ ν β := ⟨fun _ ↦ none, fun _ ↦ none⟩

/-- What may happen to a store. -/
inductive Op (κ : Type u) (ν : Type v) (β : Type w)
  /-- Cells come into being, with what they contain. -/
  | create (init : κ → Option β)
  | destroy (gone : κ → Bool)
  /-- Views are made to show cells. -/
  | map (f : ν → Option κ)
  | unmap (gone : ν → Bool)
  | write (v : ν) (b : β)
  | read (v : ν)

/-- What a view shows. -/
def load (s : Store κ ν β) (v : ν) : Option β := (s.view v).bind s.cell

/-- What an operation reads. -/
def observe (s : Store κ ν β) : Op κ ν β → List (Option β)
  | .read v => [s.load v]
  | _ => []

/-- The operation leaves no view without a cell, and makes no cell anew. -/
def Allowed (s : Store κ ν β) : Op κ ν β → Prop
  | .create init => ∀ c, (init c).isSome → s.cell c = none
  | .destroy gone => ∀ v c, s.view v = some c → gone c = false
  | .map f => ∀ v c, f v = some c → (s.cell c).isSome
  | _ => True

/-- What a view shows is there. -/
def Sound (s : Store κ ν β) : Prop := ∀ v c, s.view v = some c → (s.cell c).isSome

variable [DecidableEq κ]

/-- Write through a view; one that shows nothing takes nothing. -/
def store (s : Store κ ν β) (v : ν) (b : β) : Store κ ν β :=
  match s.view v with
  | some c => { s with cell := Function.update s.cell c (some b) }
  | none => s

/-- The store after an operation. -/
def next (s : Store κ ν β) : Op κ ν β → Store κ ν β
  | .create init => { s with cell := fun c ↦ (init c).or (s.cell c) }
  | .destroy gone => { s with cell := fun c ↦ if gone c then none else s.cell c }
  | .map f => { s with view := fun v ↦ (f v).or (s.view v) }
  | .unmap gone => { s with view := fun v ↦ if gone v then none else s.view v }
  | .write v b => s.store v b
  | .read _ => s

/-- Operations in any order. -/
def machine : Machine (Store κ ν β) (Op κ ν β) := ⟨fun s op ↦ some (s.next op)⟩

variable {s t : Store κ ν β} {v v' : ν} {c : κ} {b : β}

theorem store_of_view (h : s.view v = some c) :
    s.store v b = { s with cell := Function.update s.cell c (some b) } := by
  rw [store, h]

theorem store_of_no_view (h : s.view v = none) : s.store v b = s := by
  rw [store, h]

@[simp] theorem store_view : (s.store v b).view = s.view := by
  rw [store]
  split <;> rfl

/-- **Soundness** is kept. -/
theorem Sound.next {op : Op κ ν β} (h : s.Sound) (hok : s.Allowed op) : (s.next op).Sound := by
  intro v c hv
  cases op with
  | create init =>
    have hc := h v c hv
    cases hi : init c with
    | none => simpa [Store.next, hi] using hc
    | some b => simp [Store.next, hi]
  | destroy gone =>
    have hc := h v c hv
    simpa [Store.next, hok v c hv] using hc
  | map f =>
    cases hf : f v with
    | none =>
      refine h v c ?_
      simpa [Store.next, hf] using hv
    | some c' =>
      obtain rfl : c' = c := by simpa [Store.next, hf] using hv
      exact hok v c' hf
  | unmap gone =>
    refine h v c ?_
    simp only [Store.next] at hv
    split at hv
    · cases hv
    · exact hv
  | write v' b =>
    rw [Store.next, store_view] at hv
    have hc := h v c hv
    rw [Store.next, store]
    split
    · rename_i c' _
      by_cases hcc : c = c'
      · simp [hcc]
      · simpa [Function.update_of_ne hcc] using hc
    · exact hc
  | read v' => exact h v c hv

/-! ## What was done last -/

/-- What an operation does to a cell: `none` if nothing, and `some none` if it goes. -/
def effect (s : Store κ ν β) (c : κ) : Op κ ν β → Option (Option β)
  | .create init => (init c).map some
  | .destroy gone => if gone c then some none else none
  | .write v b => if s.view v = some c then some (some b) else none
  | _ => none

theorem next_cell (s : Store κ ν β) (op : Op κ ν β) (c : κ) :
    (s.next op).cell c = (s.effect c op).getD (s.cell c) := by
  cases op with
  | create init => cases hi : init c <;> simp [next, effect, hi]
  | destroy gone => cases hg : gone c <;> simp [next, effect, hg]
  | map f => rfl
  | unmap gone => rfl
  | write v b =>
    rw [next, effect]
    by_cases hv : s.view v = some c
    · rw [store_of_view hv, if_pos hv]
      exact Function.update_self ..
    · rw [if_neg hv, store]
      split
      · rename_i c' hc'
        refine Function.update_of_ne ?_ ..
        rintro rfl
        exact hv hc'
      · rfl
  | read v => rfl

/-- What was done to a cell last. -/
def lastEffect (c : κ) : Store κ ν β → List (Op κ ν β) → Option (Option β)
  | _, [] => none
  | s, op :: ops => (lastEffect c (s.next op) ops).or (s.effect c op)

/-- Operations none of which touches the cell. -/
theorem lastEffect_eq_none {ops : List (Op κ ν β)}
    (h : ∀ op ∈ ops, ∀ s : Store κ ν β, s.effect c op = none) (s : Store κ ν β) :
    lastEffect c s ops = none := by
  induction ops generalizing s with
  | nil => rfl
  | cons op ops ih =>
    rw [lastEffect, ih fun op' hop' ↦ h op' (List.mem_cons_of_mem _ hop'),
      h op (List.mem_cons_self ..) s]
    rfl

/-- What was done last in a run that goes on. -/
theorem lastEffect_append {ok : Store κ ν β → Op κ ν β → Prop} {ops : List (Op κ ν β)}
    (h : machine.Run ok s ops t) (c : κ) (ops' : List (Op κ ν β)) :
    lastEffect c s (ops ++ ops') = (lastEffect c t ops').or (lastEffect c s ops) := by
  induction h with
  | nil s => rw [List.nil_append, lastEffect, Option.or_none]
  | @cons s _ t op ops _ hstep _ ih =>
    obtain rfl := Option.some_inj.mp hstep
    rw [List.cons_append, lastEffect, ih, lastEffect, Option.or_assoc]

/-- **A cell contains what was done to it last**, or what it contained in the beginning. -/
theorem cell_eq_lastEffect {ok : Store κ ν β → Op κ ν β → Prop} {ops : List (Op κ ν β)}
    (h : machine.Run ok s ops t) (c : κ) : t.cell c = (lastEffect c s ops).getD (s.cell c) := by
  induction h with
  | nil s => rfl
  | @cons s _ t op ops _ hstep _ ih =>
    obtain rfl := Option.some_inj.mp hstep
    rw [ih, next_cell, lastEffect]
    cases lastEffect c (s.next op) ops with
    | none => rw [Option.none_or, Option.getD_none]
    | some r => rw [Option.some_or, Option.getD_some, Option.getD_some]

/-! ## Writing and reading in a row -/

/-- Nothing stops an operation. -/
theorem run_foldl (s : Store κ ν β) (ops : List (Op κ ν β)) :
    machine.Run Machine.free s ops (ops.foldl next s) := by
  induction ops generalizing s with
  | nil => exact .nil s
  | cons op ops ih => exact .cons trivial rfl (ih _)

/-- What reads show. -/
theorem outputs_reads (s : Store κ ν β) (vs : List ν) :
    machine.outputs observe s (vs.map .read) = vs.map s.load := by
  induction vs with
  | nil => rfl
  | cons v vs ih =>
    have hstep : machine.step s (.read v) = some s := rfl
    rw [List.map_cons, Machine.outputs_cons hstep, ih]
    rfl

/-- **Cells written in a row**, each once, contain what was written. -/
theorem writes_cell {n : ℕ} {v : ℕ → ν} {c : ℕ → κ} (b : ℕ → β)
    (hv : ∀ k < n, s.view (v k) = some (c k))
    (hinj : ∀ j k, j < n → k < n → c j = c k → j = k) :
    (((List.range n).map fun k ↦ .write (v k) (b k)).foldl next s).view = s.view ∧
      ∀ k < n, (((List.range n).map fun k ↦ .write (v k) (b k)).foldl next s).cell (c k) =
        some (b k) := by
  induction n with
  | zero => exact ⟨rfl, fun k hk ↦ absurd hk (Nat.not_lt_zero k)⟩
  | succ n ih =>
    have hlast := hv n (Nat.lt_succ_self n)
    obtain ⟨hview, hcell⟩ := ih (fun k hk ↦ hv k (Nat.lt_succ_of_lt hk))
      fun j k hj hk ↦ hinj j k (Nat.lt_succ_of_lt hj) (Nat.lt_succ_of_lt hk)
    rw [List.range_succ, List.map_append, List.foldl_append]
    generalize ((List.range n).map fun k ↦ Op.write (v k) (b k)).foldl next s = t at hview hcell ⊢
    rw [← hview] at hlast
    change (t.store (v n) (b n)).view = s.view ∧
      ∀ k < n + 1, (t.store (v n) (b n)).cell (c k) = some (b k)
    refine ⟨store_view.trans hview, fun k hk ↦ ?_⟩
    rw [store_of_view hlast]
    rcases Nat.lt_succ_iff_lt_or_eq.mp hk with hlt | rfl
    · have hne : c k ≠ c n := fun heq ↦
        Nat.ne_of_lt hlt (hinj k n hk (Nat.lt_succ_self n) heq)
      exact (Function.update_of_ne hne ..).trans (hcell k hlt)
    · exact Function.update_self ..

/-- **Written in a row and read back** through other views, which the cells have got meanwhile. -/
theorem outputs_writes_reads {n : ℕ} {v v' : ℕ → ν} {c : ℕ → κ} (b : ℕ → β) (gone : ν → Bool)
    {f : ν → Option κ} (hv : ∀ k < n, s.view (v k) = some (c k))
    (hinj : ∀ j k, j < n → k < n → c j = c k → j = k) (hf : ∀ k < n, f (v' k) = some (c k)) :
    machine.outputs observe s (((List.range n).map fun k ↦ .write (v k) (b k)) ++
        ([.unmap gone, .map f] ++ ((List.range n).map v').map .read)) =
      (List.range n).map fun k ↦ some (b k) := by
  obtain ⟨-, hcell⟩ := writes_cell b hv hinj
  have hwrites : ∀ op ∈ (List.range n).map fun k ↦ Op.write (v k) (b k), ∀ s : Store κ ν β,
      s.observe op = [] := by
    intro op hop s
    obtain ⟨k, -, rfl⟩ := List.mem_map.mp hop
    rfl
  rw [(s.run_foldl _).outputs_append, Machine.outputs_eq_nil hwrites, List.nil_append]
  generalize ((List.range n).map fun k ↦ Op.write (v k) (b k)).foldl next s = t at hcell ⊢
  have hmid : ∀ op ∈ [Op.unmap gone, Op.map f], ∀ s : Store κ ν β, s.observe op = [] := by
    intro op hop s
    rcases List.mem_cons.mp hop with rfl | hop
    · rfl
    · rw [List.mem_singleton.mp hop]
      rfl
  rw [(t.run_foldl _).outputs_append, Machine.outputs_eq_nil hmid, List.nil_append, outputs_reads,
    List.map_map]
  refine List.map_congr_left fun k hk ↦ ?_
  have hlt := List.mem_range.mp hk
  show ((f (v' k)).or _).bind t.cell = _
  rw [hf k hlt, Option.some_or, Option.bind_some, hcell k hlt]

omit [DecidableEq κ]

/-! ## Stores in memory -/

/-- The memory `mem` implements the store: cell `c` lies at `place c`, and view `v` leads to the
place `loc v`. -/
structure Placed (place : κ → Option π) (mem : π → β) (loc : ν → Option π) (s : Store κ ν β) :
    Prop where
  /-- No two cells lie in the same place. -/
  inj : ∀ c c' p, place c = some p → place c' = some p → c = c'
  cell_eq : ∀ c, s.cell c = (place c).map mem
  loc_eq : ∀ v, loc v = (s.view v).bind place
  sound : s.Sound

namespace Placed

variable {place place' : κ → Option π} {mem mem' : π → β} {loc loc' : ν → Option π}

theorem isSome_cell (h : Placed place mem loc s) (c : κ) :
    (s.cell c).isSome = (place c).isSome := by
  rw [h.cell_eq, Option.isSome_map]

/-- What a view shows is what the memory contains where it leads. -/
theorem load (h : Placed place mem loc s) (v : ν) : s.load v = (loc v).map mem := by
  rw [Store.load, h.loc_eq]
  cases s.view v with
  | none => rfl
  | some c => exact h.cell_eq c

/-- A view leads to the place of the cell it shows. -/
theorem loc_of_view (h : Placed place mem loc s) (hv : s.view v = some c) :
    ∃ p, place c = some p ∧ loc v = some p := by
  have hc := h.sound v c hv
  rw [h.isSome_cell] at hc
  obtain ⟨p, hp⟩ := Option.isSome_iff_exists.mp hc
  exact ⟨p, hp, by rw [h.loc_eq, hv, Option.bind_some, hp]⟩

/-- A view that leads nowhere shows nothing. -/
theorem view_of_loc_none (h : Placed place mem loc s) (hv : loc v = none) : s.view v = none := by
  cases hview : s.view v with
  | none => rfl
  | some c =>
    have hc := h.sound v c hview
    rw [h.isSome_cell] at hc
    rw [h.loc_eq, hview, Option.bind_some] at hv
    rw [hv] at hc
    cases hc

/-- A view that leads to the place of a cell shows the cell. -/
theorem view_of_loc (h : Placed place mem loc s) {p : π} (hv : loc v = some p)
    (hc : place c = some p) : s.view v = some c := by
  rw [h.loc_eq] at hv
  obtain ⟨c', hview, hp⟩ := Option.bind_eq_some_iff.mp hv
  rw [hview, h.inj c' c p hp hc]

/-- A memory that differs only where there is no cell implements the same store. -/
theorem congr (h : Placed place mem loc s) (hmem : ∀ c p, place c = some p → mem' p = mem p) :
    Placed place mem' loc s where
  inj := h.inj
  cell_eq c := by
    rw [h.cell_eq]
    cases hc : place c with
    | none => rfl
    | some p => exact congrArg some (hmem c p hc).symm
  loc_eq := h.loc_eq
  sound := h.sound

/-- **Cells move**, and take what they contain with them. -/
theorem relocate (h : Placed place mem loc s)
    (hinj : ∀ c c' p, place' c = some p → place' c' = some p → c = c')
    (hmem : ∀ c, (place' c).map mem' = (place c).map mem)
    (hloc : ∀ v, loc' v = (s.view v).bind place') : Placed place' mem' loc' s :=
  ⟨hinj, fun c ↦ (h.cell_eq c).trans (hmem c).symm, hloc, h.sound⟩

/-- **Writing** where a view leads. -/
theorem write [DecidableEq κ] [DecidableEq π] (h : Placed place mem loc s) {p : π}
    (hv : loc v = some p) (b : β) :
    Placed place (Function.update mem p b) loc (s.next (.write v b)) where
  inj := h.inj
  cell_eq c := by
    have hv' := hv
    rw [h.loc_eq] at hv'
    obtain ⟨c₀, hview, hp⟩ := Option.bind_eq_some_iff.mp hv'
    rw [next, store_of_view hview]
    by_cases hc : c = c₀
    · rw [hc, hp]
      simp
    · show Function.update s.cell c₀ (some b) c = _
      rw [Function.update_of_ne hc, h.cell_eq]
      cases hq : place c with
      | none => rfl
      | some q =>
        have hne : q ≠ p := by
          rintro rfl
          exact hc (h.inj c c₀ q hq hp)
        simp [Function.update_of_ne hne]
  loc_eq v' := by
    rw [next, store_view]
    exact h.loc_eq v'
  sound := h.sound.next trivial

/-- **New cells** get places of their own, and the others stay where they are. -/
theorem create [DecidableEq κ] (h : Placed place mem loc s) {init : κ → Option β}
    (hnew : ∀ c, (init c).isSome → place c = none ∧ (place' c).map mem' = init c)
    (hold : ∀ c, init c = none → place' c = place c)
    (hmem : ∀ c p, place c = some p → mem' p = mem p)
    (hinj : ∀ c c' p, place' c = some p → place' c' = some p → c = c') :
    s.Allowed (.create init) ∧ Placed place' mem' loc (s.next (.create init)) := by
  have hok : s.Allowed (.create init) := by
    intro c hc
    rw [h.cell_eq, (hnew c hc).1, Option.map_none]
  have hcell : ∀ c, (s.next (.create init)).cell c = (place' c).map mem' := by
    intro c
    show (init c).or (s.cell c) = _
    cases hi : init c with
    | none =>
      rw [Option.none_or, hold c hi, (h.congr hmem).cell_eq]
    | some b =>
      have hc := (hnew c (by rw [hi]; rfl)).2
      rw [hc, hi, Option.some_or]
  refine ⟨hok, hinj, hcell, fun v ↦ ?_, h.sound.next hok⟩
  rw [h.loc_eq]
  show (s.view v).bind place = (s.view v).bind place'
  cases hv : s.view v with
  | none => rfl
  | some c =>
    have hc := h.sound v c hv
    rw [h.isSome_cell] at hc
    cases hi : init c with
    | none => exact (hold c hi).symm
    | some b =>
      rw [(hnew c (by rw [hi]; rfl)).1] at hc
      cases hc

/-- **Cells that no view shows** go. -/
theorem destroy [DecidableEq κ] (h : Placed place mem loc s) {gone : κ → Bool}
    (hunseen : ∀ v c, s.view v = some c → gone c = false)
    (hgone : ∀ c, gone c = true → place' c = none)
    (hkept : ∀ c, gone c = false → place' c = place c) :
    Placed place' mem loc (s.next (.destroy gone)) := by
  have hcell : ∀ c, (s.next (.destroy gone)).cell c = (place' c).map mem := by
    intro c
    show (if gone c = true then none else s.cell c) = _
    cases hg : gone c with
    | true =>
      rw [hgone c hg]
      rfl
    | false =>
      rw [hkept c hg]
      exact h.cell_eq c
  refine ⟨fun c c' p hc hc' ↦ ?_, hcell, fun v ↦ ?_, h.sound.next hunseen⟩
  · have hstays : ∀ d, place' d = some p → place d = some p := by
      intro d hd
      cases hg : gone d with
      | true =>
        rw [hgone d hg] at hd
        cases hd
      | false => exact hkept d hg ▸ hd
    exact h.inj c c' p (hstays c hc) (hstays c' hc')
  · rw [h.loc_eq]
    show (s.view v).bind place = (s.view v).bind place'
    cases hv : s.view v with
    | none => rfl
    | some c => exact (hkept c (hunseen v c hv)).symm

/-- **Views** are led elsewhere. -/
theorem map [DecidableEq κ] (h : Placed place mem loc s) {f : ν → Option κ}
    (hcell : ∀ v c, f v = some c → (place c).isSome)
    (hloc : ∀ v, loc' v = ((f v).map place).getD (loc v)) :
    s.Allowed (.map f) ∧ Placed place mem loc' (s.next (.map f)) := by
  have hok : s.Allowed (.map f) := by
    intro v c hv
    rw [h.isSome_cell]
    exact hcell v c hv
  refine ⟨hok, h.inj, h.cell_eq, fun v ↦ ?_, h.sound.next hok⟩
  rw [hloc v, h.loc_eq]
  show _ = ((f v).or (s.view v)).bind place
  cases f v with
  | none => rfl
  | some c => rfl

/-- **Views** are taken away. -/
theorem unmap [DecidableEq κ] (h : Placed place mem loc s) {gone : ν → Bool}
    (hloc : ∀ v, loc' v = if gone v then none else loc v) :
    Placed place mem loc' (s.next (.unmap gone)) := by
  have hok : s.Allowed (.unmap gone) := trivial
  refine ⟨h.inj, h.cell_eq, fun v ↦ ?_, h.sound.next hok⟩
  rw [hloc v, h.loc_eq]
  show _ = (if gone v = true then none else s.view v).bind place
  cases gone v with
  | true => rfl
  | false => rfl

end Placed

end Store
