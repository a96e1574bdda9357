import SampleDrivers.Lib.Transition
import SampleDrivers.Mmap.EagerLazy

/-!
# Two threads fault on one page

The handlers of mmap2 and mmap3 take every result of `vm_insert_page` but zero for a failure.  When
two threads touch a page before either of their faults is handled, the second handler finds the page
that the first has inserted, and the process is sent `SIGBUS` for it.

* `Driver`, `myFault` — the two handlers, with memory for whatever they allocate.
* `machine` — any number of threads, each of which touches pages, waits, and is served.
* `Alone` — no page is touched while a fault on it is being handled.
* `no_spurious_sigbus` — nobody gets a `SIGBUS` as long as pages are touched alone, and after the
  first touch that is not, somebody can.
-/

set_option autoImplicit false

namespace Mmap.FaultRace

open Kernel

/-- A thread of the process. -/
abbrev Tid := ℕ

/-- The drivers that insert their pages themselves. -/
inductive Driver
  | mmap2 (b : Buffer)
  | mmap3

/-- `my_fault`, when there is memory; `page` is what `alloc_page` would return. -/
def Driver.myFault (d : Driver) (pages : Pages) (vmf : VmFault) (page : Page) (pt : PageTable) :
    Handled × Pages :=
  match d with
  | .mmap2 b => (mmap2MyFault b vmf true pt, pages)
  | .mmap3 => mmap3MyFault pages vmf (some page) true pt

/-- The area of the process, the pages of mmap3, and the threads. -/
structure State where
  pt : PageTable
  pages : Pages
  /-- The address whose fault a thread is waiting for. -/
  inFlight : Tid → Option ℕ
  /-- The answers of the handler so far, latest first. -/
  answers : List FaultRet

/-- Nobody has touched anything yet. -/
structure State.Untouched (s : State) : Prop where
  inFlight_eq : ∀ t, s.inFlight t = none
  answers_eq : s.answers = []

/-- A thread touches an address, and waits if its page is not there. -/
def State.touch (s : State) (vma : Vma) (t : Tid) (addr : ℕ) : State :=
  if (s.pt.pte (vmFault vma addr).address).isSome then s
  else { s with inFlight := Function.update s.inFlight t (some addr) }

/-- The handler runs for a thread. -/
def State.serve (s : State) (d : Driver) (vma : Vma) (t : Tid) (page : Page) (addr : ℕ) : State :=
  let r := d.myFault s.pages (vmFault vma addr) page s.pt
  { pt := r.1.pt
    pages := r.2
    inFlight := Function.update s.inFlight t none
    answers := r.1.ret :: s.answers }

/-- A step of a thread. -/
inductive Action
  | touch (t : Tid) (addr : ℕ)
  | serve (t : Tid) (page : Page)

/-- The threads of a process that has mapped the area. -/
def machine (d : Driver) (vma : Vma) : Machine State Action where
  step s
    | .touch t addr =>
      if s.inFlight t = none ∧ Inside vma addr then some (s.touch vma t addr) else none
    | .serve t page => (s.inFlight t).map (s.serve d vma t page)

/-- A page that is not there is not touched while a fault on it is in flight. -/
def Alone (vma : Vma) (s : State) : Action → Prop
  | .touch _ addr => s.pt.pte (vmFault vma addr).address = none → ∀ t' addr',
      s.inFlight t' = some addr' → (vmFault vma addr').address ≠ (vmFault vma addr).address
  | .serve _ _ => True

/-! ## What a handler does -/

/-- Within the buffer, both handlers insert a page. -/
theorem Driver.myFault_eq (d : Driver) (pages : Pages) {vmf : VmFault} (page : Page)
    (pt : PageTable) (h : vmf.pgoff < 3) :
    ∃ p, (d.myFault pages vmf page pt).1 = insertResolved vmf (some p) true pt := by
  cases d with
  | mmap2 b => exact ⟨_, rfl⟩
  | mmap3 =>
    have hfilled : ∃ p, mmap3Fill pages ⟨vmf.pgoff, h⟩ (some page) ⟨vmf.pgoff, h⟩ = some p := by
      rw [mmap3Fill]
      split
      · exact ⟨page, Function.update_self ..⟩
      · rename_i hsome
        exact Option.ne_none_iff_exists'.mp fun hnone ↦ hsome (by rw [hnone]; rfl)
    obtain ⟨p, hp⟩ := hfilled
    refine ⟨p, ?_⟩
    simp only [Driver.myFault, mmap3MyFault, h, ↓reduceDIte, hp]

/-- Into an empty entry, with success. -/
theorem insertResolved_of_empty {vmf : VmFault} {p : Page} {pt : PageTable}
    (h : pt.pte vmf.address = none) : insertResolved vmf (some p) true pt =
      ⟨.nopage, some p, some p, true, pt.install vmf.address p⟩ := by
  have hinsert : vmInsertPage vmf.address p true pt = (0, pt.install vmf.address p) := by
    rw [vmInsertPage, h]
    rfl
  rw [insertResolved, hinsert]
  rfl

/-- A page that is there already is taken for a failure. -/
theorem insertResolved_of_present {vmf : VmFault} {p q : Page} {pt : PageTable}
    (h : pt.pte vmf.address = some q) :
    insertResolved vmf (some p) true pt = ⟨.sigbus, some p, none, true, pt⟩ := by
  have hbusy : vmInsertPage vmf.address p true pt = (-EBUSY, pt) := by
    rw [vmInsertPage, h]
    rfl
  rw [insertResolved, hbusy]
  rfl

/-! ## Pages that are touched alone -/

/-- What holds while pages are touched alone: each fault in flight is for a page that is not there,
no two are for the same page, and none was answered with `SIGBUS`. -/
structure Kept (vma : Vma) (s : State) : Prop where
  inside : ∀ t addr, s.inFlight t = some addr → Inside vma addr
  empty : ∀ t addr, s.inFlight t = some addr → s.pt.pte (vmFault vma addr).address = none
  apart : ∀ t t' addr addr', s.inFlight t = some addr → s.inFlight t' = some addr' →
    (vmFault vma addr).address = (vmFault vma addr').address → t = t'
  answered : FaultRet.sigbus ∉ s.answers

theorem State.Untouched.kept {vma : Vma} {s : State} (h : s.Untouched) : Kept vma s := by
  refine ⟨fun t addr ht ↦ ?_, fun t addr ht ↦ ?_, fun t t' addr addr' ht ↦ ?_, ?_⟩
  · exact absurd ((h.inFlight_eq t).symm.trans ht) (by simp)
  · exact absurd ((h.inFlight_eq t).symm.trans ht) (by simp)
  · exact absurd ((h.inFlight_eq t).symm.trans ht) (by simp)
  · rw [h.answers_eq]
    exact List.not_mem_nil

section

variable {d : Driver} {vma : Vma} {s s' : State}

/-- The offset of an access to an area in the buffer. -/
theorem pgoff_lt {addr : ℕ} (hvma : vma.vmPgoff + vma.pages ≤ 3) (h : Inside vma addr) :
    (vmFault vma addr).pgoff < 3 :=
  Nat.lt_of_lt_of_le (Nat.add_lt_add_left h.page.1 vma.vmPgoff) hvma

/-- Serving a fault on a page that is not there inserts it. -/
theorem serve_of_empty (d : Driver) (t : Tid) (page : Page) {addr : ℕ}
    (hoff : (vmFault vma addr).pgoff < 3) (h : s.pt.pte (vmFault vma addr).address = none) :
    ∃ p, (s.serve d vma t page addr).pt = s.pt.install (vmFault vma addr).address p ∧
      (s.serve d vma t page addr).answers = .nopage :: s.answers := by
  obtain ⟨p, hp⟩ := d.myFault_eq s.pages page s.pt hoff
  rw [insertResolved_of_empty h] at hp
  refine ⟨p, ?_, ?_⟩
  · rw [State.serve, hp]
  · rw [State.serve, hp]

/-- Serving a fault on a page that has come in the meantime is answered with `SIGBUS`. -/
theorem serve_of_present (d : Driver) (t : Tid) (page : Page) {q : Page} {addr : ℕ}
    (hoff : (vmFault vma addr).pgoff < 3) (h : s.pt.pte (vmFault vma addr).address = some q) :
    (s.serve d vma t page addr).answers = .sigbus :: s.answers := by
  obtain ⟨p, hp⟩ := d.myFault_eq s.pages page s.pt hoff
  rw [insertResolved_of_present h] at hp
  rw [State.serve, hp]

/-- Touching a page alone. -/
theorem Kept.touch {t : Tid} {addr : ℕ} (h : Kept vma s) (hin : Inside vma addr)
    (hok : Alone vma s (.touch t addr)) : Kept vma (s.touch vma t addr) := by
  rw [State.touch]
  split
  · exact h
  rename_i hsome
  have hnone := Option.not_isSome_iff_eq_none.mp hsome
  have hwaits : ∀ t' addr', Function.update s.inFlight t (some addr) t' = some addr' →
      t' = t ∧ addr' = addr ∨ t' ≠ t ∧ s.inFlight t' = some addr' := by
    intro t' addr' ht'
    rw [Function.update_apply] at ht'
    split at ht'
    · rename_i heq
      exact .inl ⟨heq, (Option.some_inj.mp ht').symm⟩
    · rename_i hne
      exact .inr ⟨hne, ht'⟩
  refine ⟨fun t' addr' ht' ↦ ?_, fun t' addr' ht' ↦ ?_, fun t₁ t₂ addr₁ addr₂ h₁ h₂ hpage ↦ ?_,
    h.answered⟩
  · rcases hwaits t' addr' ht' with ⟨-, rfl⟩ | ⟨-, hold⟩
    · exact hin
    · exact h.inside t' addr' hold
  · rcases hwaits t' addr' ht' with ⟨-, rfl⟩ | ⟨-, hold⟩
    · exact hnone
    · exact h.empty t' addr' hold
  · rcases hwaits t₁ addr₁ h₁ with ⟨rfl, rfl⟩ | ⟨-, hold₁⟩
    · rcases hwaits t₂ addr₂ h₂ with ⟨rfl, -⟩ | ⟨-, hold₂⟩
      · rfl
      · exact absurd hpage.symm (hok hnone t₂ addr₂ hold₂)
    · rcases hwaits t₂ addr₂ h₂ with ⟨rfl, rfl⟩ | ⟨-, hold₂⟩
      · exact absurd hpage (hok hnone t₁ addr₁ hold₁)
      · exact h.apart t₁ t₂ addr₁ addr₂ hold₁ hold₂ hpage

/-- Serving a fault leaves the other faults with pages that are not there. -/
theorem Kept.serve {t : Tid} {page : Page} {addr : ℕ} (hvma : vma.vmPgoff + vma.pages ≤ 3)
    (h : Kept vma s) (ht : s.inFlight t = some addr) : Kept vma (s.serve d vma t page addr) := by
  obtain ⟨p, hpt, hanswers⟩ := serve_of_empty d t page
    (pgoff_lt hvma (h.inside t addr ht)) (h.empty t addr ht)
  have hstill : ∀ t' addr', (s.serve d vma t page addr).inFlight t' = some addr' →
      t' ≠ t ∧ s.inFlight t' = some addr' := by
    intro t' addr' ht'
    change Function.update s.inFlight t none t' = some addr' at ht'
    rw [Function.update_apply] at ht'
    split at ht'
    · exact absurd ht' (by simp)
    · rename_i hne
      exact ⟨hne, ht'⟩
  refine ⟨fun t' addr' ht' ↦ ?_, fun t' addr' ht' ↦ ?_, fun t₁ t₂ addr₁ addr₂ h₁ h₂ ↦ ?_, ?_⟩
  · exact h.inside t' addr' (hstill t' addr' ht').2
  · obtain ⟨hne, hold⟩ := hstill t' addr' ht'
    rw [hpt, s.pt.install_pte_of_ne p fun hpage ↦ hne (h.apart t' t addr' addr hold ht hpage)]
    exact h.empty t' addr' hold
  · exact h.apart t₁ t₂ addr₁ addr₂ (hstill t₁ addr₁ h₁).2 (hstill t₂ addr₂ h₂).2
  · rw [hanswers, List.mem_cons, not_or]
    exact ⟨by simp, h.answered⟩

/-- **A step of pages touched alone.** -/
theorem Kept.step {a : Action} (hvma : vma.vmPgoff + vma.pages ≤ 3) (h : Kept vma s)
    (hok : Alone vma s a) (hstep : (machine d vma).step s a = some s') : Kept vma s' := by
  cases a with
  | touch t addr =>
    obtain ⟨⟨-, hin⟩, ⟨⟩⟩ := Option.ite_none_right_eq_some.mp hstep
    exact h.touch hin hok
  | serve t page =>
    obtain ⟨addr, ht, rfl⟩ := Option.map_eq_some_iff.mp hstep
    exact h.serve hvma ht

/-- Of two faults on one page, the one that is served last is answered with `SIGBUS`. -/
theorem canReach_sigbus {a : Action} (hvma : vma.vmPgoff + vma.pages ≤ 3) (h : Kept vma s)
    (hok : ¬ Alone vma s a) (hstep : (machine d vma).step s a = some s') :
    (machine d vma).CanReach (fun v ↦ ¬ FaultRet.sigbus ∉ v.answers) s' := by
  cases a with
  | serve t page => exact absurd trivial hok
  | touch t addr =>
    obtain ⟨⟨hidle, hin⟩, ⟨⟩⟩ := Option.ite_none_right_eq_some.mp hstep
    simp only [Alone, Classical.not_imp, not_forall, not_not] at hok
    obtain ⟨hnone, t', addr', ht', hpage⟩ := hok
    have hne : t' ≠ t := by
      rintro rfl
      rw [hidle] at ht'
      exact absurd ht' (by simp)
    have htouch : s.touch vma t addr =
        { s with inFlight := Function.update s.inFlight t (some addr) } :=
      if_neg (by rw [hnone]; simp)
    obtain ⟨p, hpt, -⟩ := serve_of_empty (s := s.touch vma t addr) d t' 0
      (pgoff_lt hvma (h.inside t' addr' ht')) (by rw [htouch]; exact h.empty t' addr' ht')
    have hpresent : ((s.touch vma t addr).serve d vma t' 0 addr').pt.pte
        (vmFault vma addr).address = some p := by
      rw [hpt, hpage]
      exact PageTable.install_pte_self ..
    have hsigbus := serve_of_present d t 0 (pgoff_lt hvma hin) hpresent
    have hfirst : (machine d vma).step (s.touch vma t addr) (.serve t' 0) =
        some ((s.touch vma t addr).serve d vma t' 0 addr') := by
      refine Option.map_eq_some_iff.mpr ⟨addr', ?_, rfl⟩
      rw [htouch]
      exact (Function.update_of_ne hne ..).trans ht'
    have hsecond : (machine d vma).step ((s.touch vma t addr).serve d vma t' 0 addr') (.serve t 0) =
        some (((s.touch vma t addr).serve d vma t' 0 addr').serve d vma t 0 addr) := by
      refine Option.map_eq_some_iff.mpr ⟨addr, ?_, rfl⟩
      rw [htouch]
      exact (Function.update_of_ne hne.symm ..).trans (Function.update_self ..)
    refine .step hfirst (.step hsecond (.now ?_))
    rw [hsigbus]
    exact not_not.mpr List.mem_cons_self

theorem exactGuard_sigbus (hvma : vma.vmPgoff + vma.pages ≤ 3) :
    (machine d vma).ExactGuard State.Untouched (fun v ↦ FaultRet.sigbus ∉ v.answers) (Alone vma) :=
  .of_invariant (I := Kept vma) (fun _ h ↦ h.kept) (fun _ _ _ h hok hstep ↦ h.step hvma hok hstep)
    (fun _ h ↦ h.answered) (fun _ _ _ h hstep hok ↦ canReach_sigbus hvma h hok hstep)

end

/-- **Spurious `SIGBUS` in mmap2 and mmap3.**  In an area that lies in the buffer, with memory for
every allocation, any number of threads and any order of their faults, no fault is answered with
`SIGBUS` as long as no page is touched while a fault on it is in flight; and after the first touch
of such a page the next two answers can be a page and a `SIGBUS`. -/
theorem no_spurious_sigbus (d : Driver) {vma : Vma} (hvma : vma.vmPgoff + vma.pages ≤ 3)
    {s₀ s : State} (h₀ : s₀.Untouched) {as : List Action}
    (hrun : (machine d vma).Run (Alone vma) s₀ as s) :
    FaultRet.sigbus ∉ s.answers ∧ ∀ a s', (machine d vma).step s a = some s' → ¬ Alone vma s a →
      (machine d vma).CanReach (fun v ↦ FaultRet.sigbus ∈ v.answers) s' := by
  refine ⟨(exactGuard_sigbus hvma).safe h₀ hrun, fun a s' hstep hok ↦ ?_⟩
  exact ((exactGuard_sigbus hvma).tight h₀ hrun hstep hok).mono fun _ ↦ not_not.mp

/-- A process with nothing touched, and no pages in mmap3. -/
def untouched : State := ⟨⟨fun _ ↦ none, []⟩, fun _ ↦ none, fun _ ↦ none, []⟩

/-- Two threads share the area of the test program, and touch its pages in turn. -/
def inTurn : List Action :=
  [.touch 0 4096, .touch 1 8192, .serve 1 7, .serve 0 8, .touch 1 4096]

theorem no_spurious_sigbus_inTurn : ∃ s, (machine .mmap3 testArea).exec untouched inTurn = some s ∧
    FaultRet.sigbus ∉ s.answers := by
  refine ⟨_, rfl, (no_spurious_sigbus .mmap3 (by decide) ⟨fun _ ↦ rfl, rfl⟩
    (?_ : (machine .mmap3 testArea).Run (Alone testArea) untouched inTurn _)).1⟩
  refine .cons (fun _ t' addr' ht' ↦ ?_) rfl (.cons (fun _ t' addr' ht' ↦ ?_) rfl
    (.cons trivial rfl (.cons trivial rfl (.single (fun hnone ↦ ?_) rfl))))
  · exact absurd ht' (by simp [untouched])
  · by_cases h0 : t' = 0
    · subst h0
      obtain rfl : 4096 = addr' := Option.some_inj.mp ht'
      decide
    · exact absurd ((Function.update_of_ne h0 ..).symm.trans ht') (by simp [untouched])
  · exact absurd hnone (by decide)

/-- Two threads touch the first page at the same time, and the second is sent a `SIGBUS`, whichever
of the two drivers it is. -/
theorem spurious_sigbus :
    (∃ s, (machine (.mmap2 testBuffer) testArea).exec untouched [.touch 0 4096, .touch 1 4100,
        .serve 0 7, .serve 1 8] = some s ∧ FaultRet.sigbus ∈ s.answers) ∧
      ∃ s, (machine .mmap3 testArea).exec untouched [.touch 0 4096, .touch 1 4100, .serve 0 7,
        .serve 1 8] = some s ∧ FaultRet.sigbus ∈ s.answers :=
  ⟨⟨_, rfl, List.mem_cons_self⟩, ⟨_, rfl, List.mem_cons_self⟩⟩

end Mmap.FaultRace
