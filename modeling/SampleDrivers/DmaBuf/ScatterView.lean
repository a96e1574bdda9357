import Mathlib.Algebra.Ring.Nat
import SampleDrivers.DmaBuf.Mapping

/-!
# What a device sees of an ion buffer

`dma_map_sg` may merge entries of a scatter list: it then describes the pages with fewer ranges than
there are entries, and returns how many it has made.  `ion_map_dma_buf` compares the result with
zero, and leaves `nents` of its table as it was.

* `DmaRange.pages` — the pages behind a range of device addresses, one after the other.
* `Coalesces` — the ranges a backend may make for an array of pages.
* `Describes` — what an importer that walks the entries of a table has to find.
* `scatterRight_iff` — it finds it if nothing was merged; otherwise it walks into entries that
  describe nothing.  The count `ion_unmap_dma_buf` passes on is right in any case.
-/

set_option autoImplicit false

namespace DmaBuf

open Kernel Prog

/-! ## Ranges -/

/-- The pages behind the device addresses of a range; `iommu` says where an address leads. -/
def DmaRange.pages (iommu : ℕ → Option Page) (r : DmaRange) : List (Option Page) :=
  (List.range (r.length / pageSize)).map fun i ↦ iommu (r.address + pageSize * i)

/-- What a backend may do: ranges of whole pages, not empty, that together cover the pages in
order. -/
structure Coalesces (iommu : ℕ → Option Page) (ps : List Page) (ranges : List DmaRange) : Prop where
  pos : ∀ r ∈ ranges, 0 < r.length
  whole : ∀ r ∈ ranges, pageSize ∣ r.length
  pages : ranges.flatMap (DmaRange.pages iommu) = ps.map some

/-- The range of an entry. -/
def SgEntry.range (e : SgEntry) : DmaRange := ⟨e.dmaAddress, e.dmaLength⟩

/-- The ranges of the entries are valid, and together they cover the pages in order. -/
structure Describes (iommu : ℕ → Option Page) (es : List SgEntry) (ps : List Page) : Prop where
  valid : ∀ e ∈ es, 0 < e.range.length
  pages : (es.map SgEntry.range).flatMap (DmaRange.pages iommu) = ps.map some
  total : ((es.map SgEntry.range).map DmaRange.length).sum = ps.length * pageSize

/-- The table is right for the device, and it will be right for `ion_unmap_dma_buf`: as long as the
table, its entries and the mapping are there, this mapping is undone, which was made for as many
entries as there are pages. -/
def ScatterRight (iommu : ℕ → Option Page) (ps : List Page) (dir : DmaDir) (table : KPtr)
    (k : KState) : Prop :=
  ∃ a s t es, table = .addr a ∧ k.heap a = some (.sgTable (some t)) ∧ t.sgl = .addr s ∧
    k.heap s = some (.sgl es) ∧ Describes iommu (es.take t.nents) ps ∧
    ∀ k' : KState, k'.heap a = k.heap a → k'.heap s = k.heap s →
      .sg (.addr s) ps.length dir ∈ k'.dma →
        wp (ionUnmapDmaBuf table dir)
          (fun _ k'' ↦ k''.dma = k'.dma.erase (.sg (.addr s) ps.length dir)) (fun _ _ ↦ False) k'

section

variable {iommu : ℕ → Option Page} {ps : List Page} {ranges : List DmaRange} {es : List SgEntry}

@[simp] theorem DmaRange.length_pages (r : DmaRange) :
    (r.pages iommu).length = r.length / pageSize := by
  rw [pages, List.length_map, List.length_range]

/-- Ranges of whole pages are as long as the pages behind them. -/
theorem sum_length_of_dvd (h : ∀ r ∈ ranges, pageSize ∣ r.length) :
    (ranges.map DmaRange.length).sum =
      (ranges.flatMap (DmaRange.pages iommu)).length * pageSize := by
  induction ranges with
  | nil => simp
  | cons r rs ih =>
    rw [List.map_cons, List.sum_cons, List.flatMap_cons, List.length_append, Nat.add_mul,
      ih fun r' hr' ↦ h r' (List.mem_cons_of_mem r hr'), DmaRange.length_pages,
      Nat.div_mul_cancel (h r List.mem_cons_self)]

/-- There is a page behind every range that has one. -/
theorem length_le_flatMap_pages (h : ∀ r ∈ ranges, 0 < r.length / pageSize) :
    ranges.length ≤ (ranges.flatMap (DmaRange.pages iommu)).length := by
  induction ranges with
  | nil => exact Nat.le_refl 0
  | cons r rs ih =>
    have hr := h r List.mem_cons_self
    have hrs := ih fun r' hr' ↦ h r' (List.mem_cons_of_mem r hr')
    rw [List.length_cons, List.flatMap_cons, List.length_append, DmaRange.length_pages]
    omega

namespace Coalesces

theorem length_flatMap (h : Coalesces iommu ps ranges) :
    (ranges.flatMap (DmaRange.pages iommu)).length = ps.length := by
  rw [h.pages, List.length_map]

/-- The ranges cover as many bytes as the pages have. -/
theorem total (h : Coalesces iommu ps ranges) :
    (ranges.map DmaRange.length).sum = ps.length * pageSize := by
  rw [sum_length_of_dvd h.whole, h.length_flatMap]

/-- There are not more ranges than pages. -/
theorem length_le (h : Coalesces iommu ps ranges) : ranges.length ≤ ps.length := by
  rw [← h.length_flatMap]
  refine length_le_flatMap_pages fun r hr ↦ Nat.div_pos ?_ pageSize_pos
  exact Nat.le_of_dvd (h.pos r hr) (h.whole r hr)

end Coalesces

/-- The first entries have the ranges, the others have none. -/
theorem withRanges_map_range (h : ranges.length ≤ es.length) :
    (withRanges es ranges).map SgEntry.range =
      ranges ++ List.replicate (es.length - ranges.length) ⟨0, 0⟩ := by
  induction es generalizing ranges with
  | nil =>
    obtain rfl := List.eq_nil_of_length_eq_zero (Nat.le_zero.mp h)
    rfl
  | cons e es ih =>
    cases ranges with
    | nil =>
      have htail : (withRanges es []).map SgEntry.range = [] ++ List.replicate es.length ⟨0, 0⟩ :=
        ih (Nat.zero_le es.length)
      simp only [List.nil_append, List.length_nil, Nat.sub_zero] at htail ⊢
      rw [withRanges, List.map_cons, htail]
      rfl
    | cons r rs =>
      rw [withRanges, List.map_cons, ih (Nat.le_of_succ_le_succ h), List.length_cons,
        List.length_cons, Nat.add_sub_add_right]
      rfl

/-- **Merged entries.**  The entries cover the pages whatever was merged, but they are all valid
only if nothing was. -/
theorem describes_withRanges_iff (h : Coalesces iommu ps ranges) (hes : es.length = ps.length) :
    Describes iommu (withRanges es ranges) ps ↔ ranges.length = ps.length := by
  have hle : ranges.length ≤ es.length := hes ▸ h.length_le
  have hmap := withRanges_map_range hle
  have hempty : ∀ n,
      (List.replicate n (⟨0, 0⟩ : DmaRange)).flatMap (DmaRange.pages iommu) = [] := by
    intro n
    rw [List.flatMap_eq_nil_iff]
    intro r hr
    rw [List.eq_of_mem_replicate hr]
    rfl
  constructor
  · intro hdesc
    by_contra hne
    have hlt : ranges.length < es.length := hes ▸ Nat.lt_of_le_of_ne h.length_le hne
    have hmem : (⟨0, 0⟩ : DmaRange) ∈ (withRanges es ranges).map SgEntry.range := by
      rw [hmap]
      exact List.mem_append_right _ (List.mem_replicate.mpr ⟨by omega, rfl⟩)
    obtain ⟨e, he, hrange⟩ := List.mem_map.mp hmem
    have hvalid := hdesc.valid e he
    rw [hrange] at hvalid
    exact absurd hvalid (Nat.lt_irrefl 0)
  · intro hlen
    refine ⟨fun e he ↦ ?_, ?_, ?_⟩
    · rw [hes, hlen, Nat.sub_self, List.replicate_zero, List.append_nil] at hmap
      exact h.pos _ (hmap ▸ List.mem_map_of_mem he)
    · rw [hmap, List.flatMap_append, hempty, List.append_nil, h.pages]
    · rw [hmap, List.map_append, List.sum_append, h.total, List.map_replicate,
        List.sum_replicate_nat, Nat.mul_zero, Nat.add_zero]

end

/-! ## The table -/

section

variable {iommu : ℕ → Option Page} {ps : List Page} {k : KState} {buf : Buf} {d : IonData}
  {b : Addr} {n : BitVec 32} {dir : DmaDir} {o : MapOutcome} {table : KPtr}

/-- The mapping of a table that is still there is undone as it was made. -/
theorem wp_ionUnmapDmaBuf_later {a s : Addr} {es : List SgEntry} {k' : KState}
    (htab : k.HasTable a s es) (ha : k'.heap a = k.heap a) (hs : k'.heap s = k.heap s)
    (hm : .sg (.addr s) es.length dir ∈ k'.dma) :
    wp (ionUnmapDmaBuf (.addr a) dir)
      (fun _ k'' ↦ k''.dma = k'.dma.erase (.sg (.addr s) es.length dir)) (fun _ _ ↦ False) k' := by
  rw [wp_ionUnmapDmaBuf ⟨ha.trans htab.table, hs.trans htab.sgl⟩ hm]
  rfl

/-- What a call of `ion_map_dma_buf` that succeeds has left. -/
theorem ionMapDmaBuf_obj (hpriv : buf.priv = .data (.addr b)) (hd : k.heap b = some (.ionData d))
    (h : d.Holds ps) (hn : d.npages = some n) (hps : n.toNat = ps.length)
    (hok : (ionMapDmaBuf buf dir o).result k = some (.obj table)) :
    ∃ a s es, table = .addr a ∧ es.length = ps.length ∧
      ((ionMapDmaBuf buf dir o).final k).HasTable a s (withRanges es o.ranges) := by
  have hdone := Prog.result_of_wp (wp_ionMapDmaBuf hpriv hd h hn dir o) hok
  rw [hps] at hdone
  generalize (ionMapDmaBuf buf dir o).final k = k' at hdone ⊢
  cases hdone with
  | mapped _ hfinds =>
    obtain ⟨-, -, hroom⟩ := hfinds
    have htab := KState.withTable_hasTable (k := k) hroom.ne
      (withRanges (scattered ps ps.length ps.length) o.ranges)
    exact ⟨_, _, scattered ps ps.length ps.length, rfl,
      length_scattered (Nat.le_refl _) (Nat.le_refl _), htab.table, htab.sgl⟩

/-- **The scatter table of ion.**  For a buffer of any number of pages, and for whatever ranges a
backend that is allowed to merge entries makes, a call of `ion_map_dma_buf` that succeeds returns a
table that describes the pages to a device, and is undone with the count it was made with, if and
only if the backend has merged nothing. -/
theorem scatterRight_iff (hpriv : buf.priv = .data (.addr b)) (hd : k.heap b = some (.ionData d))
    (h : d.Holds ps) (hn : d.npages = some n) (hps : n.toNat = ps.length)
    (hranges : Coalesces iommu ps o.ranges)
    (hok : (ionMapDmaBuf buf dir o).result k = some (.obj table)) :
    ScatterRight iommu ps dir table ((ionMapDmaBuf buf dir o).final k) ↔
      o.ranges.length = ps.length := by
  obtain ⟨a, s, es, rfl, hes, htab⟩ := ionMapDmaBuf_obj hpriv hd h hn hps hok
  have hlen : (withRanges es o.ranges).length = ps.length := (length_withRanges _ _).trans hes
  rw [← describes_withRanges_iff hranges hes]
  constructor
  · rintro ⟨a', s', t, es', ha', ht, hsgl, hes', hdesc, -⟩
    obtain rfl : a = a' := by simpa using ha'
    obtain rfl : _ = t := by simpa using htab.table.symm.trans ht
    obtain rfl : s = s' := by simpa using hsgl
    obtain rfl : _ = es' := by simpa using htab.sgl.symm.trans hes'
    simpa using hdesc
  · intro hdesc
    refine ⟨a, s, _, _, rfl, htab.table, rfl, htab.sgl, ?_, fun k' ha hs hm ↦ ?_⟩
    · simpa using hdesc
    · rw [← hlen] at hm ⊢
      exact wp_ionUnmapDmaBuf_later htab ha hs hm

end

/-- The header of an ion buffer of two pages. -/
def twoPagesData : IonData := ⟨24, some 2, fun i ↦ .page (5 + i)⟩

/-- A kernel with that header at address 0. -/
def twoPages : KState := KState.boot.setHeap 0 (some (.ionData twoPagesData))

/-- The buffer. -/
def twoPagesBuf : Buf := ⟨.ion, 8192, .data (.addr 0), []⟩

/-- An IOMMU that shows the two pages from device address 65536 on. -/
def testIommu (address : ℕ) : Option Page :=
  if address = 65536 then some 5 else if address = 69632 then some 6 else none

theorem twoPagesData_holds : twoPagesData.Holds [5, 6] := by
  refine ⟨⟨2, rfl, by decide⟩, fun i hi ↦ ?_, by decide⟩
  rcases i with - | - | i
  · rfl
  · rfl
  · exact absurd hi (by simp)

theorem scatterRight_twoPages : ScatterRight testIommu [5, 6] .bidirectional (.addr 1)
    ((ionMapDmaBuf twoPagesBuf .bidirectional
      ⟨some 1, some 2, [⟨65536, 4096⟩, ⟨69632, 4096⟩], 0⟩).final twoPages) :=
  (scatterRight_iff (n := 2) rfl rfl twoPagesData_holds rfl rfl
    ⟨by decide, by decide, by decide⟩ rfl).mpr rfl

/-- The backend merges the two entries into one range: the table still has two, and the second of
them describes nothing. -/
theorem merged_twoPages :
    (ionMapDmaBuf twoPagesBuf .bidirectional ⟨some 1, some 2, [⟨65536, 8192⟩], 0⟩).result twoPages =
        some (.obj (.addr 1)) ∧
      Coalesces testIommu [5, 6] [⟨65536, 8192⟩] ∧
      ¬ ScatterRight testIommu [5, 6] .bidirectional (.addr 1)
        ((ionMapDmaBuf twoPagesBuf .bidirectional
          ⟨some 1, some 2, [⟨65536, 8192⟩], 0⟩).final twoPages) := by
  refine ⟨rfl, ⟨by decide, by decide, by decide⟩, ?_⟩
  generalize hk : (ionMapDmaBuf twoPagesBuf .bidirectional
    ⟨some 1, some 2, [⟨65536, 8192⟩], 0⟩).final twoPages = k
  have htable : k.heap 1 = some (.sgTable (some ⟨.addr 2, 2, 2⟩)) := by rw [← hk]; rfl
  have hentries : k.heap 2 =
      some (.sgl [⟨.page 5, 4096, 65536, 8192⟩, ⟨.page 6, 4096, 0, 0⟩]) := by rw [← hk]; rfl
  rintro ⟨a, s, t, es, ha, ht, hsgl, hes, hdesc, -⟩
  obtain rfl : 1 = a := by simpa using ha
  obtain rfl : ⟨.addr 2, 2, 2⟩ = t := by simpa using htable.symm.trans ht
  obtain rfl : 2 = s := by simpa using hsgl
  obtain rfl : _ = es := by simpa using hentries.symm.trans hes
  exact absurd hdesc.valid (by decide)

end DmaBuf
