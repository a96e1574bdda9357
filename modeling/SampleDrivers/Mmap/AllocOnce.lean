import Mathlib.Data.Fintype.EquivFin
import Mathlib.Data.List.Nodup
import SampleDrivers.Mmap.FaultRace

/-!
# One page for each offset of mmap3

The table of mmap3 is shared by every process that maps the device, and its handler fills it in two
steps: it looks whether the entry is empty, and then allocates a page and stores it.  Between the
two, and between the store and the insertion of what the table holds by then, any other handler may
run.

* `Call`, `Handler` — a fault inside the buffer, and how far the handler that serves it has come.
* `machine` — any number of areas and of handlers on them.  `uninterrupted` says that the three
  steps taken in a row are the handler.
* `OneEach` — what the driver wants: at most one page was allocated for each offset, none is lost,
  every mapping of an offset shows its page, and nobody inserts `NULL`.
* `Orderly` — an empty entry is not looked at while another handler is about to fill it, and no
  allocation fails.
* `one_page_each` — the driver gets what it wants from orderly handlers, and from no others.
-/

set_option autoImplicit false

namespace Mmap.AllocOnce

open Kernel

/-- A thread of any process. -/
abbrev Tid := ℕ

/-- The areas of `/dev/my_dev`, in whatever processes they are. -/
abbrev Areas := ℕ → Vma

/-- A fault inside the buffer. -/
structure Call (areas : Areas) where
  area : ℕ
  addr : ℕ
  inside : Inside (areas area) addr
  inBuffer : accessOffset (areas area) addr < 3

namespace Call

variable {areas : Areas} (c : Call areas)

/-- What the handler is given. -/
def vmf : VmFault := vmFault (areas c.area) c.addr

/-- `vmf->pgoff` as an index of the table. -/
def index : Fin 3 := ⟨accessOffset (areas c.area) c.addr, c.inBuffer⟩

end Call

/-- What a handler does next. -/
inductive Point
  /-- `if (!pages[vmf->pgoff])`. -/
  | test
  /-- `pages[vmf->pgoff] = alloc_page(GFP_KERNEL)`. -/
  | alloc
  /-- `vm_insert_page(vma, vmf->address, pages[vmf->pgoff])`, and the answer. -/
  | insert
  deriving DecidableEq

/-- A handler that is running. -/
structure Handler (areas : Areas) where
  call : Call areas
  next : Point

/-- The module, the page tables, and the handlers. -/
structure State (areas : Areas) where
  pages : Pages
  /-- What `alloc_page` has returned so far, with the entry it was for, latest first. -/
  allocated : List (Fin 3 × Page)
  /-- The page table of each area. -/
  pt : ℕ → PageTable
  /-- The handler each thread is in. -/
  running : Tid → Option (Handler areas)
  /-- The answers of the handlers so far, latest first. -/
  answers : List FaultRet

variable {areas : Areas}

/-- The module has just been loaded. -/
structure State.Loaded (s : State areas) : Prop where
  pages_eq : ∀ i, s.pages i = none
  allocated_eq : s.allocated = []
  pte_eq : ∀ a addr, (s.pt a).pte addr = none
  running_eq : ∀ t, s.running t = none
  answers_eq : s.answers = []

/-- A thread goes on in the handler `h`, or leaves it. -/
def State.move (s : State areas) (t : Tid) (h : Option (Handler areas)) : State areas :=
  { s with running := Function.update s.running t h }

/-- Where the test leads. -/
def State.afterTest (s : State areas) (c : Call areas) : Point :=
  if (s.pages c.index).isNone then .alloc else .insert

/-- `alloc_page` and the store of its result, which may be `NULL`. -/
def State.store (s : State areas) (c : Call areas) (mem : Option Page) : State areas :=
  { s with
    pages := Function.update s.pages c.index mem
    allocated := (mem.map fun p ↦ (c.index, p)).toList ++ s.allocated }

/-- `vm_insert_page` and the answer; `mem` says whether there is memory for page tables. -/
def State.insert (s : State areas) (c : Call areas) (mem : Bool) : State areas :=
  let r := insertResolved c.vmf (s.pages c.index) mem (s.pt c.area)
  { s with pt := Function.update s.pt c.area r.pt, answers := r.ret :: s.answers }

/-- The entries of an area are dropped, by `munmap` or by `madvise`. -/
def State.drop (s : State areas) (a : ℕ) : State areas :=
  { s with pt := Function.update s.pt a { s.pt a with pte := fun _ ↦ none } }

/-- `alloc_page` returns a page that nobody has. -/
def State.Fresh (s : State areas) (mem : Option Page) : Prop :=
  ∀ p ∈ mem, p ∉ s.allocated.map Prod.snd

instance (s : State areas) (mem : Option Page) : Decidable (s.Fresh mem) :=
  inferInstanceAs (Decidable (∀ _ ∈ mem, _))

/-- A step of a handler, or of the kernel. -/
inductive Action (areas : Areas)
  | call (t : Tid) (c : Call areas)
  | test (t : Tid)
  | alloc (t : Tid) (mem : Option Page)
  | insert (t : Tid) (mem : Bool)
  | drop (a : ℕ)

/-- Any number of handlers on any number of areas.  The kernel calls a handler for an entry that it
has found empty. -/
def machine (areas : Areas) : Machine (State areas) (Action areas) where
  step s
    | .call t c =>
      if s.running t = none ∧ (s.pt c.area).pte c.vmf.address = none then
        some (s.move t (some ⟨c, .test⟩))
      else none
    | .test t =>
      match s.running t with
      | some ⟨c, .test⟩ => some (s.move t (some ⟨c, s.afterTest c⟩))
      | _ => none
    | .alloc t mem =>
      match s.running t with
      | some ⟨c, .alloc⟩ =>
        if s.Fresh mem then some ((s.store c mem).move t (some ⟨c, .insert⟩)) else none
      | _ => none
    | .insert t mem =>
      match s.running t with
      | some ⟨c, .insert⟩ => some ((s.insert c mem).move t none)
      | _ => none
    | .drop a => some (s.drop a)

/-- A handler has found the entry empty and has not filled it yet. -/
def State.Filling (s : State areas) (t : Tid) (i : Fin 3) : Prop :=
  ∃ c, s.running t = some ⟨c, .alloc⟩ ∧ c.index = i

/-- No entry is found empty while another handler is about to fill it, and no allocation fails. -/
def Orderly (s : State areas) : Action areas → Prop
  | .test t => ∀ c, s.running t = some ⟨c, .test⟩ → s.pages c.index = none →
      ∀ t', ¬ s.Filling t' c.index
  | .alloc _ mem => mem.isSome
  | _ => True

/-- An access to an area shows a page. -/
structure Shows (s : State areas) (a addr : ℕ) (p : Page) : Prop where
  inside : Inside (areas a) addr
  pte_eq : (s.pt a).pte (vmFault (areas a) addr).address = some p

/-- What mmap3 is meant to keep, whoever maps it. -/
structure OneEach (s : State areas) : Prop where
  /-- No offset was given two pages. -/
  once : (s.allocated.map Prod.fst).Nodup
  /-- Every page that was allocated is still in the table. -/
  kept : ∀ i p, (i, p) ∈ s.allocated → s.pages i = some p
  /-- A mapping shows the page that was allocated for its offset. -/
  shown : ∀ a addr p, Shows s a addr p →
    ∃ i : Fin 3, i = accessOffset (areas a) addr ∧ (i, p) ∈ s.allocated
  /-- Two mappings, in whatever processes, show one page if and only if they have one offset. -/
  same : ∀ a addr p a' addr' p', Shows s a addr p → Shows s a' addr' p' →
    (p = p' ↔ accessOffset (areas a) addr = accessOffset (areas a') addr')
  /-- No handler has inserted `NULL`. -/
  answered : FaultRet.oops ∉ s.answers

/-! ## What a step can do -/

/-- What the steps of the machine do, with what they found. -/
inductive Effect (s : State areas) : Action areas → State areas → Prop
  | call {t : Tid} {c : Call areas} (hidle : s.running t = none)
      (hempty : (s.pt c.area).pte c.vmf.address = none) :
      Effect s (.call t c) (s.move t (some ⟨c, .test⟩))
  | test {t : Tid} {c : Call areas} (ht : s.running t = some ⟨c, .test⟩) :
      Effect s (.test t) (s.move t (some ⟨c, s.afterTest c⟩))
  | alloc {t : Tid} {c : Call areas} {mem : Option Page} (ht : s.running t = some ⟨c, .alloc⟩)
      (hfresh : s.Fresh mem) : Effect s (.alloc t mem) ((s.store c mem).move t (some ⟨c, .insert⟩))
  | insert {t : Tid} {c : Call areas} {mem : Bool} (ht : s.running t = some ⟨c, .insert⟩) :
      Effect s (.insert t mem) ((s.insert c mem).move t none)
  | drop {a : ℕ} : Effect s (.drop a) (s.drop a)

/-- **Inversion**: every step of the machine is one of the effects, and every effect is a step. -/
theorem step_iff_effect {s s' : State areas} {a : Action areas} :
    (machine areas).step s a = some s' ↔ Effect s a s' := by
  constructor
  · intro h
    cases a with
    | call t c =>
      obtain ⟨⟨hidle, hempty⟩, ⟨⟩⟩ := Option.ite_none_right_eq_some.mp h
      exact .call hidle hempty
    | test t =>
      simp only [machine] at h
      split at h
      · rename_i c ht
        exact Option.some_inj.mp h ▸ .test ht
      · exact absurd h (by simp)
    | alloc t mem =>
      simp only [machine] at h
      split at h
      · rename_i c ht
        obtain ⟨hfresh, ⟨⟩⟩ := Option.ite_none_right_eq_some.mp h
        exact .alloc ht hfresh
      · exact absurd h (by simp)
    | insert t mem =>
      simp only [machine] at h
      split at h
      · rename_i c ht
        exact Option.some_inj.mp h ▸ .insert ht
      · exact absurd h (by simp)
    | drop a => exact Option.some_inj.mp h ▸ .drop
  · rintro (⟨hidle, hempty⟩ | ht | ⟨ht, hfresh⟩ | ht | -)
    · exact if_pos ⟨hidle, hempty⟩
    · simp only [machine, ht]
    · simp only [machine, ht, if_pos hfresh]
    · simp only [machine, ht]
    · rfl

/-! ## What the steps leave alone -/

@[simp] theorem move_pages (s : State areas) (t : Tid) (h : Option (Handler areas)) :
    (s.move t h).pages = s.pages := rfl

section

variable {s s' : State areas} {t t' : Tid} {c : Call areas}

/-- Only the thread that moves is elsewhere afterwards. -/
theorem move_running {h : Option (Handler areas)} {g : Handler areas}
    (hg : (s.move t h).running t' = some g) :
    t' = t ∧ h = some g ∨ t' ≠ t ∧ s.running t' = some g := by
  change Function.update s.running t h t' = some g at hg
  rw [Function.update_apply] at hg
  split at hg
  · rename_i heq
    exact .inl ⟨heq, hg⟩
  · rename_i hne
    exact .inr ⟨hne, hg⟩

/-- A thread that moves to anything but the store is not about to fill an entry. -/
theorem move_filling {h : Option (Handler areas)} {i : Fin 3}
    (hnot : ∀ c, h ≠ some ⟨c, .alloc⟩) (hfill : (s.move t h).Filling t' i) :
    t' ≠ t ∧ s.Filling t' i := by
  obtain ⟨c', hc', hi⟩ := hfill
  rcases move_running hc' with ⟨-, hh⟩ | ⟨hne, hold⟩
  · exact absurd hh (hnot c')
  · exact ⟨hne, c', hold, hi⟩

theorem afterTest_eq_alloc : s.afterTest c = .alloc ↔ s.pages c.index = none := by
  cases hpage : s.pages c.index <;> simp [State.afterTest, hpage]

theorem afterTest_eq_insert : s.afterTest c = .insert ↔ ∃ p, s.pages c.index = some p := by
  cases hpage : s.pages c.index <;> simp [State.afterTest, hpage]

/-- `vm_insert_page` of a page: the answer is one, and at most this entry is written. -/
theorem insertResolved_some (vmf : VmFault) (p : Page) (mem : Bool) (pt : PageTable) :
    (insertResolved vmf (some p) mem pt).ret ≠ .oops ∧
      ((insertResolved vmf (some p) mem pt).pt = pt ∨
        (insertResolved vmf (some p) mem pt).pt = pt.install vmf.address p) := by
  by_cases hpresent : (pt.pte vmf.address).isSome
  · simp [insertResolved, vmInsertPage, hpresent, EBUSY]
  · cases mem <;> simp [insertResolved, vmInsertPage, hpresent, ENOMEM]

/-- Accesses to one page of an area have one entry of the table. -/
theorem Call.index_congr {addr : ℕ} (hin : Inside (areas c.area) addr)
    (hpage : (vmFault (areas c.area) addr).address = c.vmf.address) :
    c.index = accessOffset (areas c.area) addr :=
  (accessOffset_congr c.inside hin hpage).symm

/-- `my_fault` for a fault inside the buffer. -/
theorem mmap3MyFault_call (c : Call areas) (pages : Pages) (alloc : Option Page) (mem : Bool)
    (pt : PageTable) : mmap3MyFault pages c.vmf alloc mem pt =
      (insertResolved c.vmf (mmap3Fill pages c.index alloc c.index) mem pt,
        mmap3Fill pages c.index alloc) :=
  dif_pos c.inBuffer

/-- **The steps of a handler**, taken in a row, are `my_fault`. -/
theorem uninterrupted (ht : s.running t = some ⟨c, .test⟩) {alloc : Option Page}
    (hfresh : s.Fresh alloc) (mem : Bool) :
    ∃ as s', (machine areas).Run Machine.free s as s' ∧ s'.running t = none ∧
      s'.pages = (mmap3MyFault s.pages c.vmf alloc mem (s.pt c.area)).2 ∧
      s'.pt = Function.update s.pt c.area
        (mmap3MyFault s.pages c.vmf alloc mem (s.pt c.area)).1.pt ∧
      s'.answers = (mmap3MyFault s.pages c.vmf alloc mem (s.pt c.area)).1.ret :: s.answers := by
  have htest := step_iff_effect.mpr (Effect.test ht)
  rw [mmap3MyFault_call]
  cases hpage : s.pages c.index with
  | none =>
    have hfill : mmap3Fill s.pages c.index alloc = Function.update s.pages c.index alloc := by
      rw [mmap3Fill, hpage]
      rfl
    rw [State.afterTest, hpage] at htest
    have hstore := step_iff_effect.mpr (Effect.alloc (s := s.move t (some ⟨c, .alloc⟩))
      (Function.update_self ..) hfresh)
    have hinsert : Effect (((s.move t (some ⟨c, .alloc⟩)).store c alloc).move t
      (some ⟨c, .insert⟩)) (.insert t mem) _ := .insert (Function.update_self ..)
    rw [← step_iff_effect] at hinsert
    refine ⟨_, _, .cons trivial htest (.cons trivial hstore (.single trivial hinsert)),
      Function.update_self .., ?_⟩
    rw [hfill]
    exact ⟨rfl, rfl, rfl⟩
  | some p =>
    have hfill : mmap3Fill s.pages c.index alloc = s.pages := by
      rw [mmap3Fill, hpage]
      rfl
    rw [State.afterTest, hpage] at htest
    have hinsert : Effect (s.move t (some ⟨c, .insert⟩)) (.insert t mem) _ :=
      .insert (Function.update_self ..)
    rw [← step_iff_effect] at hinsert
    refine ⟨_, _, .cons trivial htest (.single trivial hinsert), Function.update_self .., ?_⟩
    rw [hfill]
    exact ⟨rfl, rfl, rfl⟩

end

/-! ## Orderly handlers -/

/-- What holds while the handlers are orderly. -/
structure Kept (s : State areas) : Prop where
  once : (s.allocated.map Prod.fst).Nodup
  distinct : (s.allocated.map Prod.snd).Nodup
  mem_iff : ∀ i p, (i, p) ∈ s.allocated ↔ s.pages i = some p
  /-- An entry that is about to be filled is empty, and one handler is about to fill it. -/
  filling : ∀ t i, s.Filling t i → s.pages i = none
  apart : ∀ t t' i, s.Filling t i → s.Filling t' i → t = t'
  /-- A handler that is about to insert a page finds one. -/
  filled : ∀ t c, s.running t = some ⟨c, .insert⟩ → ∃ p, s.pages c.index = some p
  shown : ∀ a addr p, Shows s a addr p →
    ∃ i : Fin 3, i = accessOffset (areas a) addr ∧ s.pages i = some p
  answered : FaultRet.oops ∉ s.answers

theorem State.Loaded.kept {s : State areas} (h : s.Loaded) : Kept s := by
  have hidle : ∀ t g, s.running t ≠ some g := fun t g hg ↦ by simp [h.running_eq t] at hg
  refine ⟨?_, ?_, fun i p ↦ ?_, fun t i hfill ↦ h.pages_eq i, fun t t' i hfill ↦ ?_,
    fun t c ht ↦ absurd ht (hidle t _), fun a addr p hshows ↦ ?_, ?_⟩
  · rw [h.allocated_eq]
    exact List.nodup_nil
  · rw [h.allocated_eq]
    exact List.nodup_nil
  · simp [h.allocated_eq, h.pages_eq]
  · obtain ⟨c, hc, -⟩ := hfill
    exact absurd hc (hidle t _)
  · exact absurd ((h.pte_eq ..).symm.trans hshows.pte_eq) (by simp)
  · rw [h.answers_eq]
    exact List.not_mem_nil

namespace Kept

variable {s s' : State areas} {t : Tid} {c : Call areas}

/-- What is kept is what is wanted. -/
theorem oneEach (h : Kept s) : OneEach s := by
  refine ⟨h.once, fun i p ↦ (h.mem_iff i p).mp, fun a addr p hshows ↦ ?_,
    fun a addr p a' addr' p' hshows hshows' ↦ ?_, h.answered⟩
  · obtain ⟨i, hi, hp⟩ := h.shown a addr p hshows
    exact ⟨i, hi, (h.mem_iff i p).mpr hp⟩
  · obtain ⟨i, hi, hp⟩ := h.shown a addr p hshows
    obtain ⟨i', hi', hp'⟩ := h.shown a' addr' p' hshows'
    rw [← hi, ← hi']
    constructor
    · rintro rfl
      have hmem := (h.mem_iff i p).mpr hp
      have hmem' := (h.mem_iff i' p).mpr hp'
      have heq := List.inj_on_of_nodup_map h.distinct hmem hmem' rfl
      exact congrArg (fun x ↦ (x.1 : ℕ)) heq
    · intro hoff
      obtain rfl := Fin.ext hoff
      exact Option.some_inj.mp (hp.symm.trans hp')

/-- A handler comes, or finds out what the table holds. -/
theorem move {g : Handler areas} (h : Kept s)
    (hfill : ∀ c, g = ⟨c, .alloc⟩ → s.pages c.index = none ∧ ∀ t', ¬ s.Filling t' c.index)
    (hfilled : ∀ c, g = ⟨c, .insert⟩ → ∃ p, s.pages c.index = some p) :
    Kept (s.move t (some g)) := by
  have hcases : ∀ t' i, (s.move t (some g)).Filling t' i →
      t' = t ∧ s.pages i = none ∧ (∀ t', ¬ s.Filling t' i) ∨ s.Filling t' i := by
    rintro t' i ⟨c', hc', rfl⟩
    rcases move_running hc' with ⟨heq, hg⟩ | ⟨-, hold⟩
    · exact .inl ⟨heq, hfill c' (Option.some_inj.mp hg)⟩
    · exact .inr ⟨c', hold, rfl⟩
  refine ⟨h.once, h.distinct, h.mem_iff, fun t' i ht' ↦ ?_, fun t₁ t₂ i h₁ h₂ ↦ ?_,
    fun t' c' ht' ↦ ?_, fun a addr p hshows ↦ h.shown a addr p ⟨hshows.inside, hshows.pte_eq⟩,
    h.answered⟩
  · rcases hcases t' i ht' with ⟨-, hnone, -⟩ | hold
    · exact hnone
    · exact h.filling t' i hold
  · rcases hcases t₁ i h₁ with ⟨rfl, -, hnobody⟩ | hold₁
    · rcases hcases t₂ i h₂ with ⟨rfl, -, -⟩ | hold₂
      · rfl
      · exact absurd hold₂ (hnobody t₂)
    · rcases hcases t₂ i h₂ with ⟨rfl, -, hnobody⟩ | hold₂
      · exact absurd hold₁ (hnobody t₁)
      · exact h.apart t₁ t₂ i hold₁ hold₂
  · rcases move_running ht' with ⟨-, hg⟩ | ⟨-, hold⟩
    · exact hfilled c' (Option.some_inj.mp hg)
    · exact h.filled t' c' hold

/-- The only handler that has found its entry empty fills it. -/
theorem store {p : Page} (h : Kept s) (ht : s.running t = some ⟨c, .alloc⟩)
    (hfresh : s.Fresh (some p)) : Kept ((s.store c (some p)).move t (some ⟨c, .insert⟩)) := by
  have hmine : s.Filling t c.index := ⟨c, ht, rfl⟩
  have hnone := h.filling t _ hmine
  have hold : ∀ {i q}, s.pages i = some q →
      i ≠ c.index ∧ (s.store c (some p)).pages i = some q := by
    intro i q hq
    have hne : i ≠ c.index := by
      rintro rfl
      rw [hnone] at hq
      exact absurd hq (by simp)
    exact ⟨hne, (Function.update_of_ne hne ..).trans hq⟩
  have hnew : (s.store c (some p)).pages c.index = some p := Function.update_self ..
  have hcases : ∀ t' i, ((s.store c (some p)).move t (some ⟨c, .insert⟩)).Filling t' i →
      s.Filling t' i ∧ i ≠ c.index := by
    intro t' i hfill
    obtain ⟨hne, c', hc', rfl⟩ := move_filling (by simp) hfill
    refine ⟨⟨c', hc', rfl⟩, fun heq ↦ hne ?_⟩
    exact h.apart t' t _ ⟨c', hc', heq⟩ hmine
  refine ⟨?_, ?_, fun i q ↦ ?_, fun t' i hfill ↦ ?_, fun t₁ t₂ i h₁ h₂ ↦ ?_, fun t' c' ht' ↦ ?_,
    fun a addr q hshows ↦ ?_, h.answered⟩
  · refine List.nodup_cons.mpr ⟨fun hmem ↦ ?_, h.once⟩
    obtain ⟨⟨i, q⟩, hiq, heq⟩ := List.mem_map.mp hmem
    exact (hold ((h.mem_iff i q).mp hiq)).1 heq
  · exact List.nodup_cons.mpr ⟨hfresh p rfl, h.distinct⟩
  · refine List.mem_cons.trans ⟨fun hmem ↦ ?_, fun hq ↦ ?_⟩
    · rcases hmem with heq | hmem
      · obtain ⟨rfl, rfl⟩ := Prod.mk.inj heq
        exact hnew
      · exact (hold ((h.mem_iff i q).mp hmem)).2
    · by_cases hi : i = c.index
      · subst hi
        rw [move_pages, hnew, Option.some_inj] at hq
        exact .inl (by rw [hq])
      · refine .inr ((h.mem_iff i q).mpr ?_)
        exact (Function.update_of_ne hi ..).symm.trans hq
  · obtain ⟨hfill', hne⟩ := hcases t' i hfill
    exact (Function.update_of_ne hne ..).trans (h.filling t' i hfill')
  · exact h.apart t₁ t₂ i (hcases t₁ i h₁).1 (hcases t₂ i h₂).1
  · rcases move_running ht' with ⟨-, hg⟩ | ⟨-, hc'⟩
    · obtain rfl : c = c' := by simpa using hg
      exact ⟨p, hnew⟩
    · obtain ⟨q, hq⟩ := h.filled t' c' hc'
      exact ⟨q, (hold hq).2⟩
  · obtain ⟨i, hi, hq⟩ := h.shown a addr q ⟨hshows.inside, hshows.pte_eq⟩
    exact ⟨i, hi, (hold hq).2⟩

/-- A handler inserts the page of its offset. -/
theorem insert {mem : Bool} (h : Kept s) (ht : s.running t = some ⟨c, .insert⟩) :
    Kept ((s.insert c mem).move t none) := by
  obtain ⟨p, hp⟩ := h.filled t c ht
  obtain ⟨hret, hpt⟩ := insertResolved_some c.vmf p mem (s.pt c.area)
  rw [← hp] at hret hpt
  have hcases : ∀ t' i, ((s.insert c mem).move t none).Filling t' i → s.Filling t' i :=
    fun t' i hfill ↦ (move_filling (by simp) hfill).2
  refine ⟨h.once, h.distinct, h.mem_iff, fun t' i hfill ↦ h.filling t' i (hcases t' i hfill),
    fun t₁ t₂ i h₁ h₂ ↦ h.apart t₁ t₂ i (hcases t₁ i h₁) (hcases t₂ i h₂), fun t' c' ht' ↦ ?_,
    fun a addr q hshows ↦ ?_, ?_⟩
  · rcases move_running ht' with ⟨-, hg⟩ | ⟨-, hold⟩
    · exact absurd hg (by simp)
    · exact h.filled t' c' hold
  · obtain ⟨hin, hpte⟩ := hshows
    change (Function.update s.pt c.area _ a).pte _ = some q at hpte
    by_cases ha : a = c.area
    · subst ha
      rw [Function.update_self] at hpte
      rcases hpt with hpt | hpt
      · exact h.shown _ addr q ⟨hin, hpt ▸ hpte⟩
      · rw [hpt] at hpte
        by_cases hpage : (vmFault (areas c.area) addr).address = c.vmf.address
        · rw [hpage, PageTable.install_pte_self] at hpte
          exact ⟨c.index, c.index_congr hin hpage, hp.trans hpte⟩
        · rw [PageTable.install_pte_of_ne _ _ hpage] at hpte
          exact h.shown _ addr q ⟨hin, hpte⟩
    · rw [Function.update_of_ne ha] at hpte
      exact h.shown a addr q ⟨hin, hpte⟩
  · exact fun hmem ↦ (List.mem_cons.mp hmem).elim (fun heq ↦ hret heq.symm) h.answered

/-- Dropping entries shows less. -/
theorem drop {a : ℕ} (h : Kept s) : Kept (s.drop a) := by
  refine ⟨h.once, h.distinct, h.mem_iff, h.filling, h.apart, h.filled, fun a' addr q hshows ↦ ?_,
    h.answered⟩
  obtain ⟨hin, hpte⟩ := hshows
  change (Function.update s.pt a _ a').pte _ = some q at hpte
  by_cases ha : a' = a
  · subst ha
    rw [Function.update_self] at hpte
    exact absurd hpte (by simp)
  · rw [Function.update_of_ne ha] at hpte
    exact h.shown a' addr q ⟨hin, hpte⟩

/-- **A step of orderly handlers.** -/
theorem step {a : Action areas} (h : Kept s) (hok : Orderly s a)
    (hstep : (machine areas).step s a = some s') : Kept s' := by
  rcases step_iff_effect.mp hstep with ⟨hidle, hempty⟩ | ht | ⟨ht, hfresh⟩ | ht | -
  · exact h.move (by simp) (by simp)
  · rename_i t c
    refine h.move (fun c' hc' ↦ ?_) fun c' hc' ↦ ?_
    · obtain ⟨rfl, hnext⟩ := Handler.mk.inj hc'
      have hnone := afterTest_eq_alloc.mp hnext
      exact ⟨hnone, hok c ht hnone⟩
    · obtain ⟨rfl, hnext⟩ := Handler.mk.inj hc'
      exact afterTest_eq_insert.mp hnext
  · rename_i t c mem
    cases mem with
    | none => exact absurd hok (by simp [Orderly])
    | some p => exact h.store ht hfresh
  · exact h.insert ht
  · exact h.drop

end Kept

/-! ## Handlers that are not orderly -/

section

variable {s s' : State areas} {t t' : Tid} {c : Call areas}

/-- There is always a page that nobody has. -/
theorem exists_fresh (s : State areas) : ∃ p, s.Fresh (some p) := by
  obtain ⟨p, hp⟩ := Infinite.exists_notMem_finset (s.allocated.map Prod.snd).toFinset
  refine ⟨p, fun q hq ↦ ?_⟩
  obtain rfl := Option.mem_some_iff.mp hq
  exact fun hmem ↦ hp (List.mem_toFinset.mpr hmem)

/-- A handler whose allocation has failed inserts `NULL`. -/
theorem canReach_of_null (ht : s.running t = some ⟨c, .insert⟩) (hnull : s.pages c.index = none) :
    (machine areas).CanReach (fun v ↦ ¬ OneEach v) s := by
  have hinsert : Effect s (.insert t true) _ := .insert ht
  refine .step (step_iff_effect.mpr hinsert) (.now fun hone ↦ ?_)
  refine hone.answered (List.mem_cons.mpr (.inl ?_))
  rw [hnull]
  rfl

/-- Two handlers that have found one entry empty allocate a page each. -/
theorem canReach_of_two (hne : t ≠ t') {i : Fin 3} (ht : s.Filling t i) (ht' : s.Filling t' i) :
    (machine areas).CanReach (fun v ↦ ¬ OneEach v) s := by
  obtain ⟨c, hc, rfl⟩ := ht
  obtain ⟨c', hc', hi⟩ := ht'
  obtain ⟨p, hp⟩ := exists_fresh s
  refine .step (step_iff_effect.mpr (Effect.alloc hc hp)) ?_
  obtain ⟨q, hq⟩ := exists_fresh ((s.store c (some p)).move t (some ⟨c, .insert⟩))
  have hstill : ((s.store c (some p)).move t (some ⟨c, .insert⟩)).running t' =
      some ⟨c', .alloc⟩ := (Function.update_of_ne hne.symm ..).trans hc'
  refine .step (step_iff_effect.mpr (Effect.alloc hstill hq)) (.now fun hone ↦ ?_)
  refine (List.nodup_cons.mp hone.once).1 ?_
  rw [hi]
  exact List.mem_cons_self

/-- **A step that is not orderly** can be continued to what the driver does not want. -/
theorem canReach_of_not_orderly {a : Action areas} (hstep : (machine areas).step s a = some s')
    (hok : ¬ Orderly s a) : (machine areas).CanReach (fun v ↦ ¬ OneEach v) s' := by
  rcases step_iff_effect.mp hstep with ⟨-, -⟩ | ht | ⟨ht, hfresh⟩ | - | -
  · exact absurd trivial hok
  · rename_i t c
    simp only [Orderly, not_forall, not_not] at hok
    obtain ⟨c', hc', hnone, t', hfill⟩ := hok
    obtain rfl : c = c' := by simpa using ht.symm.trans hc'
    obtain ⟨c'', hc'', hi⟩ := hfill
    have hne : t ≠ t' := by
      rintro rfl
      simpa using ht.symm.trans hc''
    rw [afterTest_eq_alloc.mpr hnone]
    refine canReach_of_two hne ⟨c, Function.update_self .., rfl⟩ ⟨c'', ?_, hi⟩
    exact (Function.update_of_ne hne.symm ..).trans hc''
  · rename_i t c mem
    cases mem with
    | none => exact canReach_of_null (Function.update_self ..) (Function.update_self ..)
    | some p => exact absurd rfl hok
  · exact absurd trivial hok
  · exact absurd trivial hok

end

theorem exactGuard_oneEach :
    (machine areas).ExactGuard State.Loaded OneEach Orderly :=
  .of_invariant (I := Kept) (fun _ h ↦ h.kept) (fun _ _ _ h hok hstep ↦ h.step hok hstep)
    (fun _ h ↦ h.oneEach) (fun _ _ _ _ hstep hok ↦ canReach_of_not_orderly hstep hok)

/-- **Allocate once.**  Whatever areas there are, and in whatever order their handlers run, mmap3
keeps one page for each offset, and shows it in every mapping of the offset and in no other, as long
as no entry is found empty while another handler is about to fill it and no allocation fails; and
after the first step of another kind, it can fail to. -/
theorem one_page_each {s₀ s : State areas} (h₀ : s₀.Loaded) {as : List (Action areas)}
    (hrun : (machine areas).Run Orderly s₀ as s) :
    OneEach s ∧ ∀ a s', (machine areas).step s a = some s' → ¬ Orderly s a →
      (machine areas).CanReach (fun v ↦ ¬ OneEach v) s' :=
  ⟨exactGuard_oneEach.safe h₀ hrun, fun _ _ hstep hok ↦ exactGuard_oneEach.tight h₀ hrun hstep hok⟩

/-- The module, just loaded. -/
def loaded (areas : Areas) : State areas :=
  ⟨fun _ ↦ none, [], fun _ ↦ ⟨fun _ ↦ none, []⟩, fun _ ↦ none, []⟩

theorem loaded_loaded (areas : Areas) : (loaded areas).Loaded :=
  ⟨fun _ ↦ rfl, rfl, fun _ _ ↦ rfl, fun _ ↦ rfl, rfl⟩

/-- Every process maps the device as the test program does. -/
def testAreas : Areas := fun _ ↦ testArea

theorem firstPage_inside : Inside testArea 4096 ∧ accessOffset testArea 4096 < 3 := by decide

/-- A process touches the first page. -/
def firstPage (a : ℕ) : Call testAreas := ⟨a, 4096, firstPage_inside.1, firstPage_inside.2⟩

/-- One process writes, another reads. -/
def writeThenRead : List (Action testAreas) :=
  [.call 0 (firstPage 0), .test 0, .alloc 0 (some 7), .insert 0 true, .call 1 (firstPage 1),
    .test 1, .insert 1 true]

theorem one_page_each_writeThenRead : ∃ s,
    (machine testAreas).exec (loaded testAreas) writeThenRead = some s ∧ OneEach s := by
  refine ⟨_, rfl, (one_page_each (loaded_loaded _)
    (?_ : (machine testAreas).Run Orderly (loaded testAreas) writeThenRead _)).1⟩
  refine .cons trivial rfl (.cons (fun c hc hnone t' hfill ↦ ?_) rfl (.cons rfl rfl (.cons trivial
    rfl (.cons trivial rfl (.cons (fun c hc hnone ↦ ?_) rfl (.single trivial rfl))))))
  · obtain ⟨c', hc', -⟩ := hfill
    rcases move_running hc' with ⟨-, hg⟩ | ⟨-, hold⟩
    · simp at hg
    · simp [loaded] at hold
  · obtain ⟨rfl, -⟩ := Handler.mk.inj (Option.some_inj.mp (hc : some _ = some _))
    exact absurd hnone (by decide)

/-- Two processes touch the first page at the same time: each is shown a page of its own, and the
first page is lost.  And a process whose page cannot be allocated inserts `NULL`. -/
theorem two_pages_or_null :
    (∃ s, (machine testAreas).exec (loaded testAreas) [.call 0 (firstPage 0), .call 1 (firstPage 1),
        .test 0, .test 1, .alloc 0 (some 7), .insert 0 true, .alloc 1 (some 8), .insert 1 true] =
          some s ∧ Shows s 0 4096 7 ∧ Shows s 1 4096 8 ∧ (∀ i, s.pages i ≠ some 7) ∧ ¬ OneEach s) ∧
      ∃ s, (machine testAreas).exec (loaded testAreas) [.call 0 (firstPage 0), .test 0,
        .alloc 0 none, .insert 0 true] = some s ∧ .oops ∈ s.answers ∧ ¬ OneEach s := by
  refine ⟨⟨_, rfl, ⟨by decide, rfl⟩, ⟨by decide, rfl⟩, by decide, fun h ↦ ?_⟩,
    ⟨_, rfl, List.mem_cons_self, fun h ↦ h.answered List.mem_cons_self⟩⟩
  exact absurd h.once (by decide)

end Mmap.AllocOnce
