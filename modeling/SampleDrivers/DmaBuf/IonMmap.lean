import SampleDrivers.DmaBuf.Ion

/-!
# Mapping an ion buffer into a process

`ion_mmap` calls `remap_pfn_range` once for every page of the buffer, whatever the length and the
offset of the area, and ignores what the calls return.

* `ionMmap` and `ionMmap_eq` — the loop and the page table it leaves, `afterRounds`.
* `Maps` — the rounds whose call succeeds.
* `MapsExactly` — page `k` of the area is mapped to page `vm_pgoff + k` of the buffer, and nothing
  is written outside the area.
* `ionMmap_mapsExactly_iff` — when this is so: for a shared area, when it starts at the first page
  of the buffer and the calls that succeed are those for the pages it has; for a private writable
  one, when it has one page, at the start of the buffer.
-/

set_option autoImplicit false

namespace DmaBuf

open Kernel

/-- `page_to_pfn`. -/
def pageToPfn : Slot → KProg ℕ
  | .page p => return p
  | .null => throw .nullDeref
  | .garbage => throw .uninitialised

/-- `remap_pfn_range` into the page table of process `pid`. -/
def remapPfn (pid : Pid) (vma : Vma) (addr pfn size : ℕ) (mem : Bool) : KProg ℤ := do
  let k ← get
  let r := remapPfnRange vma addr pfn size mem (k.tables pid)
  set (k.setTable pid r.2)
  return r.1

/-- `ion_mmap`; `mem i` says whether call `i` finds memory for the page table. -/
def ionMmap (buf : Buf) (pid : Pid) (vma : Vma) (mem : ℕ → Bool) : KProg ℤ := do
  let npages ← loadNpages (ionDataOf buf)
  let _ ← Prog.forFrom (fun i vmStart ↦ do
    let pfn ← pageToPfn (← loadPage (ionDataOf buf) i)
    let _ ← remapPfn pid vma vmStart pfn pageSize (mem i)
    return some ((vmStart + pageSize) % 2 ^ 64)) (rounds npages) 0 vma.vmStart
  return 0

/-! ## The page table after the loop -/

/-- The running address `vm_start` in round `i`. -/
def roundAddr (vma : Vma) (i : ℕ) : ℕ := (vma.vmStart + pageSize * i) % 2 ^ 64

/-- The page table after `i` rounds over the pages `ps`. -/
def afterRounds (vma : Vma) (ps : List Page) (mem : ℕ → Bool) (pt : PageTable) : ℕ → PageTable
  | 0 => pt
  | i + 1 => (remapPfnRange vma (roundAddr vma i) (ps.getD i 0) pageSize (mem i)
      (afterRounds vma ps mem pt i)).2

theorem roundAddr_zero (vma : Vma) : roundAddr vma 0 = vma.vmStart :=
  Nat.mod_eq_of_lt (Nat.lt_trans vma.start_lt_end vma.end_lt)

theorem roundAddr_succ (vma : Vma) (i : ℕ) :
    roundAddr vma (i + 1) = (roundAddr vma i + pageSize) % 2 ^ 64 := by
  rw [roundAddr, roundAddr, Nat.mod_add_mod, Nat.mul_succ, Nat.add_assoc]

/-- What `ion_mmap` does: it returns 0 and leaves the page table of the loop. -/
theorem ionMmap_eq {k : KState} {buf : Buf} {ps : List Page} (h : k.Holds buf ps) (pid : Pid)
    (vma : Vma) (mem : ℕ → Bool) : ionMmap buf pid vma mem k =
      .ok 0 (k.setTable pid (afterRounds vma ps mem (k.tables pid) ps.length)) := by
  obtain ⟨a, d, hpriv, hd, hholds⟩ := h.data
  obtain ⟨n, hn, hlen⟩ := hholds.npages
  have hdata : ionDataOf buf = .addr a := by rw [ionDataOf, hpriv]
  refine Prog.ok_of_wp ?_
  rw [ionMmap, hdata, Prog.wp_bind, wp_loadNpages hd hn, Prog.wp_bind, hlen]
  refine Prog.wp_mono (Prog.wp_forFrom
    (Q := fun _ s ↦ s = k.setTable pid (afterRounds vma ps mem (k.tables pid) ps.length))
    (fun j v s ↦ v = roundAddr vma j ∧
      s = k.setTable pid (afterRounds vma ps mem (k.tables pid) j))
    (fun j v s _ hj hs ↦ ?_) (fun v s hs ↦ ?_) ?_) (fun _ s hs ↦ ⟨rfl, hs⟩) fun _ _ he ↦ he
  · obtain ⟨rfl, rfl⟩ := hs
    rw [Nat.zero_add] at hj
    have hbytes := hholds.bytes
    have hd' : (k.setTable pid (afterRounds vma ps mem (k.tables pid) j)).heap a =
        some (.ionData d) := hd
    rw [Prog.wp_bind, wp_loadPage hd' (by omega), hholds.pages j hj]
    refine ⟨(roundAddr_succ vma j).symm, ?_⟩
    simp [afterRounds, hj]
  · rw [Nat.zero_add] at hs
    exact hs.2
  · exact ⟨(roundAddr_zero vma).symm, by simp [afterRounds]⟩

/-! ## Which rounds map their page -/

/-- The call of round `i` maps its page: there is memory, and the area of one page it is given is
the whole area if that is private and writable. -/
def Maps (vma : Vma) (mem : ℕ → Bool) (i : ℕ) : Prop :=
  mem i = true ∧ (vma.cow = true → i = 0 ∧ vma.pages = 1)

section

variable {vma : Vma} {ps : List Page} {mem : ℕ → Bool} {pt : PageTable} {i j n : ℕ}

theorem roundAddr_of_lt (h : i < vma.pages) : roundAddr vma i = vma.addr i :=
  Nat.mod_eq_of_lt (vma.addr_lt h)

/-- The running address does not come back to a page it has passed. -/
theorem roundAddr_injective (hi : i < 2 ^ 31) (hj : j < 2 ^ 31)
    (h : roundAddr vma i = roundAddr vma j) : i = j := by
  simp only [roundAddr, pageSize] at h
  omega

/-- The running address is in the area for the pages the area has, and for no others. -/
theorem roundAddr_mem (hi : i < 2 ^ 31) :
    vma.vmStart ≤ roundAddr vma i ∧ roundAddr vma i < vma.vmEnd ↔ i < vma.pages := by
  refine ⟨?_, ?_⟩
  · intro h
    by_contra hlt
    have hend := vma.end_lt
    rw [vma.vmEnd_eq, Vma.addr] at h hend
    simp only [roundAddr, pageSize] at h hend
    omega
  · intro h
    rw [roundAddr_of_lt h]
    exact ⟨vma.le_addr i, vma.addr_lt_vmEnd.mpr h⟩

/-- A call with one page is given the whole area in round 0 of an area of one page. -/
theorem whole_area_iff (hi : i < 2 ^ 31) :
    (roundAddr vma i = vma.vmStart ∧ roundAddr vma i + pageSize = vma.vmEnd) ↔
      i = 0 ∧ vma.pages = 1 := by
  have hstart : roundAddr vma i = vma.vmStart ↔ i = 0 := by
    refine ⟨?_, ?_⟩
    · intro h
      rw [← roundAddr_zero] at h
      exact roundAddr_injective hi (by decide) h
    · rintro rfl
      exact roundAddr_zero vma
  refine ⟨?_, ?_⟩
  · rintro ⟨h, hend⟩
    refine ⟨hstart.mp h, ?_⟩
    rw [h, vma.vmEnd_eq, Vma.addr] at hend
    simp only [pageSize] at hend
    omega
  · rintro ⟨rfl, hone⟩
    rw [roundAddr_zero, vma.vmEnd_eq, Vma.addr, hone, Nat.mul_one]
    exact ⟨rfl, rfl⟩

theorem remap_of_maps (hi : i < 2 ^ 31) (h : Maps vma mem i) (p : Page) :
    (remapPfnRange vma (roundAddr vma i) p pageSize (mem i) pt).2 =
      pt.install (roundAddr vma i) (p % 2 ^ 64) := by
  rw [remapPfnRange, if_neg, if_pos h.1]
  · rw [Nat.div_self pageSize_pos]
    simp [PageTable.installRange, roundAddr]
  · rintro ⟨hcow, hpart⟩
    exact hpart ((whole_area_iff hi).mpr (h.2 hcow))

theorem remap_of_not_maps (hi : i < 2 ^ 31) (h : ¬ Maps vma mem i) (p : Page) :
    (remapPfnRange vma (roundAddr vma i) p pageSize (mem i) pt).2 = pt := by
  rw [remapPfnRange]
  split
  · rfl
  · rename_i hwhole
    rw [if_neg]
    refine fun hmem ↦ h ⟨hmem, fun hcow ↦ (whole_area_iff hi).mp ?_⟩
    by_contra hpart
    exact hwhole ⟨hcow, hpart⟩

/-- The entry of a round that maps its page. -/
theorem afterRounds_pte (hn : n ≤ 2 ^ 31) (hj : j < n) (h : Maps vma mem j) :
    (afterRounds vma ps mem pt n).pte (roundAddr vma j) = some (ps.getD j 0 % 2 ^ 64) := by
  induction n with
  | zero => exact absurd hj (Nat.not_lt_zero j)
  | succ n ih =>
    rw [afterRounds]
    rcases Nat.lt_succ_iff_lt_or_eq.mp hj with hlt | rfl
    · by_cases hmaps : Maps vma mem n
      · have hne : roundAddr vma j ≠ roundAddr vma n := fun heq ↦
          Nat.ne_of_lt hlt (roundAddr_injective (by omega) (by omega) heq)
        rw [remap_of_maps (by omega) hmaps, PageTable.install_pte_of_ne _ _ hne]
        exact ih (by omega) hlt
      · rw [remap_of_not_maps (by omega) hmaps]
        exact ih (by omega) hlt
    · rw [remap_of_maps (by omega) h, PageTable.install_pte_self]

/-- The entry of a round that does not. -/
theorem afterRounds_pte_of_not (hn : n ≤ 2 ^ 31) (hj : j < 2 ^ 31) (h : ¬ Maps vma mem j) :
    (afterRounds vma ps mem pt n).pte (roundAddr vma j) = pt.pte (roundAddr vma j) := by
  induction n with
  | zero => rfl
  | succ n ih =>
    rw [afterRounds]
    by_cases hmaps : Maps vma mem n
    · have hne : roundAddr vma j ≠ roundAddr vma n := fun heq ↦
        h (roundAddr_injective hj (by omega) heq ▸ hmaps)
      rw [remap_of_maps (by omega) hmaps, PageTable.install_pte_of_ne _ _ hne]
      exact ih (by omega)
    · rw [remap_of_not_maps (by omega) hmaps]
      exact ih (by omega)

/-- The entries written are those of the rounds that map their page. -/
theorem afterRounds_writes (hn : n ≤ 2 ^ 31) :
    ∃ new, (afterRounds vma ps mem pt n).writes = new ++ pt.writes ∧
      ∀ a, a ∈ new ↔ ∃ j < n, Maps vma mem j ∧ a = roundAddr vma j := by
  induction n with
  | zero => exact ⟨[], rfl, fun a ↦ by simp⟩
  | succ n ih =>
    obtain ⟨new, hnew, hmem⟩ := ih (by omega)
    rw [afterRounds]
    by_cases hmaps : Maps vma mem n
    · rw [remap_of_maps (by omega) hmaps, PageTable.install_writes, hnew]
      refine ⟨roundAddr vma n :: new, rfl, fun a ↦ ?_⟩
      rw [List.mem_cons, hmem]
      refine ⟨?_, ?_⟩
      · rintro (rfl | ⟨j, hj, h⟩)
        · exact ⟨n, Nat.lt_succ_self n, hmaps, rfl⟩
        · exact ⟨j, Nat.lt_succ_of_lt hj, h⟩
      · rintro ⟨j, hj, h, rfl⟩
        rcases Nat.lt_succ_iff_lt_or_eq.mp hj with hlt | rfl
        · exact .inr ⟨j, hlt, h, rfl⟩
        · exact .inl rfl
    · rw [remap_of_not_maps (by omega) hmaps]
      refine ⟨new, hnew, fun a ↦ (hmem a).trans ⟨?_, ?_⟩⟩
      · rintro ⟨j, hj, h⟩
        exact ⟨j, Nat.lt_succ_of_lt hj, h⟩
      · rintro ⟨j, hj, h, rfl⟩
        rcases Nat.lt_succ_iff_lt_or_eq.mp hj with hlt | rfl
        · exact ⟨j, hlt, h, rfl⟩
        · exact absurd h hmaps

end

/-! ## Exactly the pages asked for -/

/-- Page `j` of the area is mapped to page `vm_pgoff + j` of the buffer, and no entry outside the
area was written. -/
def MapsExactly (ps : List Page) (vma : Vma) (pt pt' : PageTable) : Prop :=
  (∀ j < vma.pages, ∃ p, ps[vma.vmPgoff + j]? = some p ∧ pt'.pte (vma.addr j) = some p) ∧
    PageTable.WritesWithin vma pt pt'

/-- The area starts at the first page of the buffer; if it is private and writable, it has one
page, and otherwise the calls find memory for the pages it has and for no others. -/
def Fits (n : ℕ) (vma : Vma) (mem : ℕ → Bool) : Prop :=
  vma.vmPgoff = 0 ∧ (vma.cow = true → vma.pages = 1 ∧ mem 0 = true) ∧
    (vma.cow = false → ∀ i < n, (mem i = true ↔ i < vma.pages))

section

variable {vma : Vma} {ps : List Page} {mem : ℕ → Bool} {pt : PageTable} {n : ℕ}

/-- The area fits when the rounds that map their page are those of the pages it has. -/
theorem fits_iff (hn : vma.vmPgoff + vma.pages ≤ n) :
    Fits n vma mem ↔ vma.vmPgoff = 0 ∧ ∀ i < n, (Maps vma mem i ↔ i < vma.pages) := by
  have hpos := vma.pages_pos
  rw [Fits]
  refine and_congr_right fun _ ↦ ?_
  cases hcow : vma.cow with
  | false => simp [Maps, hcow]
  | true =>
    simp only [Maps, hcow, forall_true_left, Bool.true_eq_false, false_implies, and_true]
    refine ⟨?_, ?_⟩
    · rintro ⟨hone, hmem⟩ i hi
      refine ⟨?_, ?_⟩
      · exact fun h ↦ h.2.1 ▸ hpos
      · intro h
        obtain rfl : i = 0 := by omega
        exact ⟨hmem, rfl, hone⟩
    · intro h
      obtain ⟨hmem, -, hone⟩ := (h 0 (by omega)).mpr hpos
      exact ⟨hone, hmem⟩

theorem afterRounds_mapsExactly_iff (hlen : ps.length < 2 ^ 31) (hnodup : ps.Nodup)
    (hvalid : ∀ p ∈ ps, p < maxPfn) (hcore : vma.vmPgoff + vma.pages ≤ ps.length)
    (hfresh : ∀ j < vma.pages, pt.pte (vma.addr j) = none) :
    MapsExactly ps vma pt (afterRounds vma ps mem pt ps.length) ↔ Fits ps.length vma mem := by
  rw [fits_iff hcore]
  have hpte : ∀ j, (hj : j < ps.length) → Maps vma mem j →
      (afterRounds vma ps mem pt ps.length).pte (roundAddr vma j) = some ps[j] := by
    intro j hj hmaps
    have hp := hvalid _ (List.getElem_mem hj)
    rw [afterRounds_pte (Nat.le_of_lt hlen) hj hmaps, List.getD_eq_getElem?_getD,
      List.getElem?_eq_getElem hj, Option.getD_some, Nat.mod_eq_of_lt (Nat.lt_trans hp (by decide))]
  obtain ⟨new, hnew, hmem⟩ := @afterRounds_writes vma ps mem pt ps.length (Nat.le_of_lt hlen)
  refine ⟨?_, ?_⟩
  · rintro ⟨hmap, new', hnew', hin⟩
    obtain rfl : new' = new := List.append_cancel_right (hnew'.symm.trans hnew)
    -- A page of the area whose round maps nothing would still be unmapped.
    have hmaps : ∀ j < vma.pages, Maps vma mem j := by
      intro j hj
      by_contra hnot
      obtain ⟨p, -, hp⟩ := hmap j hj
      rw [← roundAddr_of_lt hj, afterRounds_pte_of_not (Nat.le_of_lt hlen) (by omega) hnot,
        roundAddr_of_lt hj, hfresh j hj] at hp
      exact absurd hp (by simp)
    refine ⟨?_, fun i hi ↦ ⟨fun h ↦ ?_, hmaps i⟩⟩
    · have hpos := vma.pages_pos
      obtain ⟨p, hps, hp⟩ := hmap 0 hpos
      rw [← roundAddr_of_lt hpos, hpte 0 (by omega) (hmaps 0 hpos), Option.some_inj] at hp
      rw [Nat.add_zero, ← hp, List.getElem?_eq_some_iff] at hps
      obtain ⟨hoff, heq⟩ := hps
      exact (hnodup.getElem_inj_iff).mp heq
    · exact (roundAddr_mem (by omega)).mp (hin _ ((hmem _).mpr ⟨i, hi, h, rfl⟩))
  · rintro ⟨hoff, hmaps⟩
    refine ⟨fun j hj ↦ ?_, new, hnew, fun a ha ↦ ?_⟩
    · have hj' : j < ps.length := by omega
      refine ⟨ps[j], ?_, ?_⟩
      · rw [hoff, Nat.zero_add, List.getElem?_eq_getElem hj']
      · rw [← roundAddr_of_lt hj]
        exact hpte j hj' ((hmaps j hj').mpr hj)
    · obtain ⟨j, hj, h, rfl⟩ := (hmem a).mp ha
      exact (roundAddr_mem (by omega)).mpr ((hmaps j hj).mp h)

end

/-- **`ion_mmap` maps exactly what was asked** for if and only if the area fits the buffer.  The
area is one the core lets through, and nothing is mapped in it yet. -/
theorem ionMmap_mapsExactly_iff {k : KState} {buf : Buf} {ps : List Page} (pid : Pid) {vma : Vma}
    (mem : ℕ → Bool) (hbuf : k.Holds buf ps) (hcore : vma.vmPgoff + vma.pages ≤ ps.length)
    (hfresh : ∀ j < vma.pages, (k.tables pid).pte (vma.addr j) = none) :
    Prog.wp (ionMmap buf pid vma mem) (fun r k' ↦ r < 0 ∨
        r = 0 ∧ MapsExactly ps vma (k.tables pid) (k'.tables pid)) (fun _ _ ↦ False) k ↔
      Fits ps.length vma mem := by
  rw [Prog.wp_of_ok (ionMmap_eq hbuf pid vma mem), KState.setTable_tables_self,
    afterRounds_mapsExactly_iff hbuf.length_lt hbuf.nodup (fun p hp ↦ (hbuf.inUse p hp).2) hcore
      hfresh]
  simp

/-- The header of an ion buffer of three pages. -/
def threePageData : IonData := ⟨32, some 3, fun i ↦ .page (5 + i)⟩

/-- A kernel with that one buffer. -/
def threePages : KState :=
  { KState.boot with
    pages := {5, 6, 7}
    heap := Function.update (fun _ ↦ none) 0 (some (.ionData threePageData)) }

/-- The buffer of `threePages`. -/
def threePageBuf : Buf := ⟨.ion, 12288, .data (.addr 0), []⟩

theorem threePages_holds : threePages.Holds threePageBuf [5, 6, 7] where
  data := by
    refine ⟨0, threePageData, rfl, rfl, ⟨3, rfl, by decide⟩, fun i hi ↦ ?_, by decide⟩
    match i, hi with
    | 0, _ | 1, _ | 2, _ => rfl
  nodup := by decide
  inUse := by decide

/-- All three pages, shared: exactly what was asked for. -/
theorem ionMmap_mapsExactly_whole :
    Prog.wp (ionMmap threePageBuf 0 (Vma.ofPages 16 3 0 false (by decide) (by decide) (by decide))
        fun i ↦ decide (i < 3)) (fun r k' ↦ r < 0 ∨ r = 0 ∧ MapsExactly [5, 6, 7]
          (Vma.ofPages 16 3 0 false (by decide) (by decide) (by decide)) (threePages.tables 0)
          (k'.tables 0)) (fun _ _ ↦ False) threePages := by
  refine (ionMmap_mapsExactly_iff 0 _ threePages_holds ?_ fun _ _ ↦ rfl).mpr ⟨rfl, ?_, ?_⟩
  · rw [Vma.ofPages_pages]
    exact Nat.le_refl 3
  · exact fun h ↦ absurd h (by decide)
  · intro _ i hi
    rw [Vma.ofPages_pages]
    simp

/-- The second page alone, shared: its address is mapped to the first page of the buffer. -/
theorem ionMmap_secondPage_not_exact :
    ¬ Prog.wp (ionMmap threePageBuf 0 (Vma.ofPages 16 1 1 false (by decide) (by decide) (by decide))
        fun _ ↦ true) (fun r k' ↦ r < 0 ∨ r = 0 ∧ MapsExactly [5, 6, 7]
          (Vma.ofPages 16 1 1 false (by decide) (by decide) (by decide)) (threePages.tables 0)
          (k'.tables 0)) (fun _ _ ↦ False) threePages := by
  rw [Prog.wp_of_ok (ionMmap_eq threePages_holds _ _ _)]
  rintro (hneg | ⟨-, hmap, -⟩)
  · exact absurd hneg (Int.lt_irrefl 0)
  · obtain ⟨p, hp, hpte⟩ := hmap 0 (by decide)
    obtain rfl : 6 = p := Option.some_inj.mp hp
    exact absurd hpte (by decide)

end DmaBuf
