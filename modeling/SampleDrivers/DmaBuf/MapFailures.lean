import SampleDrivers.DmaBuf.MapPairing

/-!
# Failures of `map_dma_buf`

A `map_dma_buf` has three ways to fail: there is no memory for the table, or none for its scatter
chunks, or the mapping for the device cannot be made.  Of the last, `dma_map_sg` informs its caller
by the number 0, but `dma_map_single` and `dma_map_page` by an address that has to be put to
`dma_mapping_error`, which depends on the device and is a parameter here.  The exporters of
dma-buf/03 and dma-buf/08 do not ask.  And `dma_map_sg` may merge entries: it returns the number of
ranges it made, which ion does not write into `table->nents`, so the entries behind them, which have
no address, count as part of the table.

* `MapFails` — one of the steps has failed.
* `Reports` — a call that fails returns an error pointer and leaves the kernel as it was, and a
  table that a call returns has only valid addresses.
* `Unnoticed` — the mapping has not given every entry a valid address, and the exporter does not
  notice.
* `reports_iff` — the exporters do what `Reports` says unless that happens once there is a table.
-/

set_option autoImplicit false

namespace DmaBuf.MapFailures

open Kernel Prog MapPairing

/-! ## The promise -/

section

variable (mappingError : ℕ → Bool) (k : KState) (o : MapOutcome)

/-- The call that makes the mapping has failed. -/
def DmaFails : Exported → Prop
  | .sg => mappingError o.dmaAddress = true
  | .ops buf =>
    match buf.ops with
    | .page => mappingError o.dmaAddress = true
    | .ion => o.ranges = []

/-- The number of entries that `sg_alloc_table` is asked for. -/
def requested : Exported → ℕ
  | .sg => 1
  | .ops buf =>
    match buf.ops with
    | .page => 1
    | .ion => ((k.header buf).bind IonData.npages).elim 0 BitVec.toNat

/-- `kmalloc`, `sg_alloc_table`, which refuses to make a table without entries, or the mapping has
failed. -/
def MapFails (x : Exported) : Prop :=
  ¬ (requested k x ≠ 0 ∧ ∃ a s, o.Finds k a s) ∨ DmaFails mappingError o x

/-- What an importer may rely on. -/
structure Reports (x : Exported) (r : Ptr KPtr) (k' : KState) : Prop where
  /-- A failure is reported, and nothing is left of the call. -/
  failed : MapFails mappingError k o x → (∃ e, 0 < e ∧ r = .err e) ∧ k' = k
  /-- A table is returned only if nothing failed, and its `nents` entries have valid addresses. -/
  table : ∀ t, r = .obj t → ¬ MapFails mappingError k o x ∧
    ∃ a s es, t = .addr a ∧ k'.HasTable a s es ∧ ∀ e ∈ es, mappingError e.dmaAddress = false

/-- The mapping has failed, or merged entries where 0 is no valid address; the exporter returns its
table all the same. -/
def Unnoticed : Exported → Prop
  | .sg => mappingError o.dmaAddress = true
  | .ops buf =>
    match buf.ops with
    | .page => mappingError o.dmaAddress = true
    | .ion => o.ranges ≠ [] ∧ o.ranges.length < requested k (.ops buf) ∧ mappingError 0 = true

end

/-! ## Error pointers -/

/-- An error pointer is one. -/
def IsErrno (r : Ptr KPtr) : Prop := ∀ e, r = .err e → 0 < e

theorem isErrno_obj (t : KPtr) : IsErrno (.obj t) := nofun

theorem isErrno_err {e : ℤ} (he : 0 < e) : IsErrno (.err e) := by
  rintro _ ⟨⟩
  exact he

theorem returns_sgAllocTable (table : KPtr) (nents : ℕ) (o : Option Addr) :
    Returns (· ≤ 0) (sgAllocTable table nents o) := by
  refine .ite (fun _ ↦ .pure (by decide)) fun _ ↦ .last fun sgl ↦ ?_
  refine .ite (fun _ ↦ .pure (by decide)) fun _ ↦ .last fun _ ↦ .pure (Int.le_refl 0)

/-- Every exporter returns the errors of the functions it calls, or `-ENOMEM`. -/
theorem returns_mapDmaBuf (need : Bool) (x : Exported) (dir : DmaDir) (o : MapOutcome) :
    Returns IsErrno (x.mapDmaBuf need dir o) := by
  have henomem : IsErrno (.err ENOMEM) := isErrno_err (by decide)
  have hpassed : ∀ err : ℤ, err ≤ 0 → err ≠ 0 → IsErrno (.err (-err)) :=
    fun err hle hne ↦ isErrno_err (by omega)
  cases x with
  | sg =>
    refine .last fun table ↦ .ite (fun _ ↦ .pure henomem) fun _ ↦ ?_
    refine (returns_sgAllocTable table 1 o.sgl).bind fun err hle ↦ ?_
    refine .ite (fun hne ↦ .last fun _ ↦ .pure (hpassed err hle hne)) fun _ ↦ ?_
    exact .last fun t ↦ .last fun _ ↦ .last fun _ ↦ .last fun _ ↦ .pure (isErrno_obj table)
  | ops buf =>
    rw [Exported.mapDmaBuf]
    cases buf.ops with
    | page =>
      refine .last fun table ↦ .ite (fun _ ↦ .pure henomem) fun _ ↦ ?_
      refine (returns_sgAllocTable table 1 o.sgl).bind fun err hle ↦ ?_
      refine .ite (fun hne ↦ .last fun _ ↦ .pure (hpassed err hle hne)) fun _ ↦ ?_
      exact .last fun t ↦ .last fun _ ↦ .last fun _ ↦ .last fun _ ↦ .pure (isErrno_obj table)
    | ion =>
      refine .last fun table ↦ .ite (fun _ ↦ .pure henomem) fun _ ↦ .last fun npages ↦ ?_
      refine .last fun err ↦ .ite (fun _ ↦ .last fun _ ↦ .pure henomem) fun _ ↦ .last fun t ↦ ?_
      refine .last fun _ ↦ .last fun n ↦ .ite (fun _ ↦ ?_) fun _ ↦ .pure (isErrno_obj table)
      exact .last fun _ ↦ .last fun _ ↦ .pure henomem

/-! ## What the exporters promise -/

/-- The addresses of the entries of a list that was mapped: those of the ranges, as far as there are
entries, and 0 behind them. -/
theorem forall_withRanges_iff {P : ℕ → Prop} (es : List SgEntry) (ranges : List DmaRange) :
    (∀ e ∈ withRanges es ranges, P e.dmaAddress) ↔
      (∀ r ∈ ranges.take es.length, P r.address) ∧ (ranges.length < es.length → P 0) := by
  induction es generalizing ranges with
  | nil => simp [withRanges]
  | cons e es ih =>
    rcases ranges with _ | ⟨r, rs⟩
    · rw [withRanges, List.forall_mem_cons, ih]
      simp only [List.take_nil, List.length_nil, List.length_cons, List.not_mem_nil, false_imp_iff,
        implies_true, true_and, Nat.succ_pos]
      exact ⟨fun h _ ↦ h.1, fun h ↦ ⟨h trivial, fun _ ↦ h trivial⟩⟩
    · rw [withRanges, List.forall_mem_cons, ih, List.length_cons, List.take_succ_cons,
        List.forall_mem_cons, List.length_cons, Nat.succ_lt_succ_iff, and_assoc]

section

variable {mappingError : ℕ → Bool} {k : KState} {o : MapOutcome} {x : Exported}

/-- A call that has returned an error pointer and done nothing has kept its promise. -/
theorem reports_err {e : ℤ} (he : 0 < e) : Reports mappingError k o x (.err e) k where
  failed _ := ⟨⟨e, he, rfl⟩, rfl⟩
  table _ ht := nomatch ht

/-- A call that has made a table has kept its promise if nothing has failed, and the addresses are
valid. -/
theorem reports_obj_iff {a s : Addr} {es : List SgEntry} {m : DmaMapping} (hne : a ≠ s) :
    Reports mappingError k o x (.obj (.addr a)) { k.withTable a s es with dma := m ::ₘ k.dma } ↔
      ¬ MapFails mappingError k o x ∧ ∀ e ∈ es, mappingError e.dmaAddress = false := by
  have htable := KState.withTable_hasTable (k := k) hne es
  constructor
  · intro h
    obtain ⟨hok, a', s', es', ⟨⟩, htable', hvalid⟩ := h.table _ rfl
    have hs := htable.table.symm.trans htable'.table
    simp only [Option.some_inj, HeapObj.sgTable.injEq, SgTable.mk.injEq, KPtr.addr.injEq] at hs
    obtain ⟨rfl, -⟩ := hs
    have hes := htable.sgl.symm.trans htable'.sgl
    simp only [Option.some_inj, HeapObj.sgl.injEq] at hes
    exact ⟨hok, hes ▸ hvalid⟩
  · rintro ⟨hok, hvalid⟩
    refine ⟨fun hfails ↦ absurd hfails hok, ?_⟩
    rintro t ⟨⟩
    exact ⟨hok, a, s, es, rfl, ⟨htable.table, htable.sgl⟩, hvalid⟩

/-- The exporters with one entry, which do not ask whether the mapping has failed. -/
theorem reports_of_mapDone {e : SgEntry} {m : KPtr → DmaMapping} {r : Ptr KPtr} {k' : KState}
    (hdone : MapDone k o True [e] m r k') (herr : IsErrno r)
    (haddress : e.dmaAddress = o.dmaAddress) (hx : ∀ buf, x = .ops buf → buf.ops = .page) :
    Reports mappingError k o x r k' ↔
      ((∃ a s, o.Finds k a s) → ¬ Unnoticed mappingError k o x) := by
  have hsame : requested k x = 1 ∧
      (DmaFails mappingError o x ↔ mappingError o.dmaAddress = true) ∧
      (Unnoticed mappingError k o x ↔ mappingError o.dmaAddress = true) := by
    cases x with
    | sg => exact ⟨rfl, Iff.rfl, Iff.rfl⟩
    | ops buf =>
      rw [requested, DmaFails, Unnoticed, hx buf rfl]
      exact ⟨rfl, Iff.rfl, Iff.rfl⟩
  obtain ⟨hrequested, hfails, hunnoticed⟩ := hsame
  rw [hunnoticed]
  cases hdone with
  | failed err hno =>
    refine iff_of_true (reports_err (herr err rfl)) fun hfinds ↦ ?_
    exact absurd ⟨trivial, hfinds⟩ hno
  | mapped _ hfinds =>
    rw [reports_obj_iff hfinds.2.2.ne, MapFails, hfails, hrequested, List.forall_mem_singleton,
      haddress]
    constructor
    · rintro ⟨hok, -⟩ -
      exact (not_or.mp hok).2
    · intro hvalid
      have hvalid := hvalid ⟨_, _, hfinds⟩
      refine ⟨not_or.mpr ⟨not_not.mpr ⟨Nat.one_ne_zero, _, _, hfinds⟩, hvalid⟩, ?_⟩
      exact Bool.eq_false_iff.mpr hvalid

/-- Ion, which checks its mapping, and leaves `nents` as it was. -/
theorem reports_of_ionMapDone {buf : Buf} {b : Addr} {data : IonData} {n : BitVec 32}
    {es : List SgEntry} {m : KPtr → DmaMapping} {r : Ptr KPtr} {k' : KState} (hops : buf.ops = .ion)
    (hpriv : buf.priv = .data (.addr b)) (hdata : k.heap b = some (.ionData data))
    (hn : data.npages = some n) (hes : es.length = n.toNat)
    (hdone : MapDone k o (n.toNat ≠ 0 ∧ o.ranges ≠ []) (withRanges es o.ranges) m r k')
    (herr : IsErrno r) (hranges : ∀ r ∈ o.ranges, mappingError r.address = false) :
    Reports mappingError k o (.ops buf) r k' ↔
      ((∃ a s, o.Finds k a s) → ¬ Unnoticed mappingError k o (.ops buf)) := by
  have hrequested : requested k (.ops buf) = n.toNat := by
    simp only [requested, hops, KState.header_eq hpriv hdata, Option.bind_some, hn,
      Option.elim_some]
  have hunnoticed : Unnoticed mappingError k o (.ops buf) ↔
      o.ranges ≠ [] ∧ o.ranges.length < n.toNat ∧ mappingError 0 = true := by
    rw [← hrequested, Unnoticed, hops]
  rw [hunnoticed]
  cases hdone with
  | failed e hno =>
    refine iff_of_true (reports_err (herr e rfl)) fun hfinds ↦ ?_
    rintro ⟨hne, hlt, -⟩
    exact hno ⟨⟨Nat.ne_zero_of_lt hlt, hne⟩, hfinds⟩
  | mapped hok hfinds =>
    have hnot : ¬ MapFails mappingError k o (.ops buf) := by
      refine not_or.mpr ⟨not_not.mpr ⟨hrequested ▸ hok.1, _, _, hfinds⟩, ?_⟩
      rw [DmaFails, hops]
      exact hok.2
    rw [reports_obj_iff hfinds.2.2.ne, forall_withRanges_iff (P := (mappingError · = false)), hes,
      and_iff_right hnot, and_iff_right fun r hr ↦ hranges r (List.mem_of_mem_take hr)]
    refine ⟨fun hzero _ hmerged ↦ ?_, fun hnone hlt ↦ ?_⟩
    · rw [hzero hmerged.2.1] at hmerged
      cases hmerged.2.2
    · exact Bool.eq_false_iff.mpr fun hzero ↦ hnone ⟨_, _, hfinds⟩ ⟨hok.2, hlt, hzero⟩

end

/-- A `dma_mapping_error` that knows the address of all ones. -/
def allOnes (address : ℕ) : Bool := address = 2 ^ 64 - 1

/-- A buffer of the page exporter, with page 5. -/
def onePage : Buf := ⟨.page, 4096, .page 5, []⟩

/-- There is memory for a table and its entry, and the mapping is made at an address. -/
def mappedAt (address : ℕ) : MapOutcome := ⟨some 0, some 1, [], address⟩

/-- A `dma_mapping_error` that knows the address 0. -/
def zero (address : ℕ) : Bool := address = 0

/-- The three pages of an ion buffer are merged into one range. -/
def merged : MapOutcome := ⟨some 1, some 2, [⟨65536, 12288⟩], 0⟩

end DmaBuf.MapFailures
