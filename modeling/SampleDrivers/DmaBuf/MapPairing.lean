import Mathlib.Algebra.BigOperators.Group.List.Basic
import Mathlib.Algebra.Order.Group.Multiset
import SampleDrivers.DmaBuf.CpuAccess
import SampleDrivers.DmaBuf.IonMmap
import SampleDrivers.DmaBuf.PageOwnership
import SampleDrivers.DmaBuf.SgExporter

/-!
# Every unmap undoes its own map

Any number of attachments to any number of buffers of the exporters of dma-buf/03, 08 and 09 are
mapped and unmapped, in any order and also several times at once.  An unmap is given a table that a
map has returned and that was not unmapped since, with the direction of the map; what it has to
undo it finds in the table.

* `machine` — the calls; `World.mapped` is what the importers hold, together with a note of the
  scatter chunks and the DMA mappings that came into being when it was mapped.
* `MadeBy` — the DMA mapping each exporter makes for a table.
* `Kept` — what every call preserves: each thing mapped has its table and its chunks, nobody
  else's, and its DMA mapping, and nothing else has changed since the beginning.
* `maps_paired` — what is live is what is mapped, and every unmap takes away the mapping its own
  map made.
-/

set_option autoImplicit false

namespace DmaBuf.MapPairing

open Kernel Prog

/-! ## The exporters -/

/-- An exported buffer, as far as mapping it is concerned. -/
inductive Exported
  /-- dma-buf/03, `exporter-sg.c`. -/
  | sg
  /-- dma-buf/08 and dma-buf/09. -/
  | ops (buf : Buf)

/-- `ops->map_dma_buf`; `need` is `CONFIG_NEED_SG_DMA_LENGTH`. -/
def Exported.mapDmaBuf (need : Bool) : Exported → DmaDir → MapOutcome → KProg (Ptr KPtr)
  | .sg => SgExporter.exporterMapDmaBuf need
  | .ops buf => buf.ops.mapDmaBuf buf

/-- `ops->unmap_dma_buf`. -/
def Exported.unmapDmaBuf : Exported → KPtr → DmaDir → KProg Unit
  | .sg => SgExporter.exporterUnmapDmaBuf
  | .ops buf => buf.ops.unmapDmaBuf

/-- The mapping an exporter makes for a table whose entries `es` are at `s`. -/
inductive MadeBy : Exported → Addr → List SgEntry → DmaDir → DmaMapping → Prop
  | sg {s : Addr} (e : SgEntry) (es : List SgEntry) (dir : DmaDir) :
    MadeBy .sg s (e :: es) dir (.single e.dmaAddress pageSize dir)
  | page {buf : Buf} (h : buf.ops = .page) {s : Addr} (e : SgEntry) (es : List SgEntry)
    (dir : DmaDir) : MadeBy (.ops buf) s (e :: es) dir (.page e.dmaAddress pageSize dir)
  | ion {buf : Buf} (h : buf.ops = .ion) {s : Addr} (es : List SgEntry) (dir : DmaDir) :
    MadeBy (.ops buf) s es dir (.sg (.addr s) es.length dir)

/-- An ion buffer has its pages. -/
def Exported.Valid (k : KState) : Exported → Prop
  | .sg => True
  | .ops buf => buf.ops = .ion → ∃ ps, k.Holds buf ps

section

variable {k : KState} {x : Exported} {a s : Addr} {es : List SgEntry} {dir : DmaDir}
  {d : DmaMapping}

/-- Mapping fails and changes nothing, or makes a table and the mapping for it. -/
theorem wp_mapDmaBuf (hx : x.Valid k) (need : Bool) (dir : DmaDir) (o : MapOutcome) :
    wp (x.mapDmaBuf need dir o) (fun r k' ↦ ∃ ok es m, MapDone k o ok es m r k' ∧
      ∀ s, MadeBy x s es dir (m (.addr s))) (fun _ _ ↦ False) k := by
  cases x with
  | sg =>
    refine wp_imp (SgExporter.wp_exporterMapDmaBuf need dir o) fun r k' h ↦ ?_
    exact ⟨_, _, _, h, fun s ↦ .sg (SgExporter.entry need o.dmaAddress) [] dir⟩
  | ops buf =>
    cases hops : buf.ops with
    | page =>
      rw [Exported.mapDmaBuf, hops]
      refine wp_imp (wp_exporterMapDmaBuf buf dir o) fun r k' h ↦ ?_
      exact ⟨_, _, _, h, fun s ↦ .page hops ⟨pageOf buf, pageSize, o.dmaAddress, 0⟩ [] dir⟩
    | ion =>
      obtain ⟨ps, hps⟩ := hx hops
      obtain ⟨b, data, hpriv, hdata, hholds⟩ := hps.data
      obtain ⟨n, hn, hlen⟩ := hholds.npages
      have hle : ps.length ≤ n.toNat := hlen ▸ rounds_le_toNat n
      have hes : (withRanges (scattered ps n.toNat ps.length) o.ranges).length = n.toNat := by
        rw [length_withRanges, length_scattered (Nat.le_refl _) hle]
      rw [Exported.mapDmaBuf, hops]
      refine wp_imp (wp_ionMapDmaBuf hpriv hdata hholds hn dir o) fun r k' h ↦ ?_
      refine ⟨_, _, _, h, fun s ↦ ?_⟩
      have hmade := MadeBy.ion hops (s := s)
        (withRanges (scattered ps n.toNat ps.length) o.ranges) dir
      rwa [hes] at hmade

/-- Unmapping a table undoes the mapping made for it, and frees it. -/
theorem MadeBy.wp_unmapDmaBuf {Q : Unit → KState → Prop} {E : Oops → KState → Prop}
    (h : MadeBy x s es dir d) (ht : k.HasTable a s es) (hd : d ∈ k.dma) :
    wp (x.unmapDmaBuf (.addr a) dir) Q E k ↔ Q () (k.withoutTable a s d) := by
  cases h with
  | sg e es => exact SgExporter.wp_exporterUnmapDmaBuf ht hd
  | page hops e es =>
    rw [Exported.unmapDmaBuf, hops]
    exact wp_exporterUnmapDmaBuf ht hd
  | ion hops =>
    rw [Exported.unmapDmaBuf, hops]
    exact wp_ionUnmapDmaBuf ht hd

end

/-! ## The calls -/

/-- What an importer holds after a successful `map_dma_buf`. -/
structure Call where
  buf : BufId
  attachment : ℕ
  table : Addr
  dir : DmaDir
  deriving DecidableEq

/-- A table that is mapped, with a note of what its map has brought into being. -/
structure Mapped where
  call : Call
  /-- The scatter chunks. -/
  sgl : KPtr
  /-- The DMA mappings. -/
  made : Multiset DmaMapping
  deriving DecidableEq

/-- The kernel and what is mapped. -/
structure World where
  k : KState
  mapped : List Mapped

/-- A call of the core. -/
inductive Action
  | map (b : BufId) (attachment : ℕ) (dir : DmaDir) (o : MapOutcome)
  | unmap (c : Call)

/-- The chunks of the table at an address. -/
def chunks (k : KState) (a : Addr) : KPtr :=
  match k.heap a with
  | some (.sgTable (some t)) => t.sgl
  | _ => .null

/-- After a call of `map_dma_buf`. -/
def World.map (w : World) (b : BufId) (attachment : ℕ) (dir : DmaDir) (x : KProg (Ptr KPtr)) :
    World where
  k := x.final w.k
  mapped := ((CpuAccess.mappedTable x w.k).map fun a ↦
    ⟨⟨b, attachment, a, dir⟩, chunks (x.final w.k) a, (x.final w.k).dma - w.k.dma⟩).toList ++
      w.mapped

/-- Any sequence of calls for the buffers `bufs`. -/
def machine (need : Bool) (bufs : BufId → Option Exported) : Machine World Action where
  step w
    | .map b attachment dir o => (bufs b).map fun x ↦
      w.map b attachment dir (x.mapDmaBuf need dir o)
    | .unmap c => (bufs c.buf).bind fun x ↦ (w.mapped.find? fun m ↦ m.call = c).map fun m ↦
      ⟨(x.unmapDmaBuf (.addr c.table) c.dir).final w.k, w.mapped.erase m⟩

/-- The ion buffers have their pages, and nothing is mapped for a device. -/
structure Init (bufs : BufId → Option Exported) (w : World) : Prop where
  valid : ∀ b x, bufs b = some x → x.Valid w.k
  tables : ∀ a t, w.k.heap a ≠ some (.sgTable t)
  chunks : ∀ s es, w.k.heap s ≠ some (.sgl es)
  dma : w.k.dma = 0
  mapped : w.mapped = []

/-- What is live is what is mapped. -/
structure Accounted (w : World) : Prop where
  /-- The live tables are those that are mapped, each of them once. -/
  tables : ∀ a, (∃ t, w.k.heap a = some (.sgTable t)) ↔ ∃ m ∈ w.mapped, m.call.table = a
  tables_nodup : (w.mapped.map fun m ↦ m.call.table).Nodup
  /-- The live scatter chunks are those of the tables that are mapped, each of them once. -/
  chunks : ∀ s, (∃ es, w.k.heap s = some (.sgl es)) ↔ ∃ m ∈ w.mapped, m.sgl = .addr s
  chunks_nodup : (w.mapped.map Mapped.sgl).Nodup
  /-- The live DMA mappings are those that were made, one for each table. -/
  dma : w.k.dma = (w.mapped.map Mapped.made).sum
  made : ∀ m ∈ w.mapped, ∃ d, m.made = {d}

/-! ## What the calls preserve -/

section

variable {k : KState} {a s a' s' : Addr} {es es' : List SgEntry}

/-- A new table leaves the others alone. -/
theorem hasTable_withTable (h : k.HasTable a' s' es') (hroom : k.Room a s)
    (d : Multiset DmaMapping) :
    ({ k.withTable a s es with dma := d } : KState).HasTable a' s' es' := by
  have hne : ∀ {b o}, k.heap b = some o → b ≠ a ∧ b ≠ s := by
    rintro b o hb
    refine ⟨?_, ?_⟩
    · rintro rfl
      exact absurd (hroom.table.symm.trans hb) (by simp)
    · rintro rfl
      exact absurd (hroom.sgl.symm.trans hb) (by simp)
  refine ⟨?_, ?_⟩
  · show (k.withTable a s es).heap a' = _
    rw [KState.withTable_heap_of_ne (hne h.table).1 (hne h.table).2, h.table]
  · show (k.withTable a s es).heap s' = _
    rw [KState.withTable_heap_of_ne (hne h.sgl).1 (hne h.sgl).2, h.sgl]

theorem withoutTable_heap_of_ne {d : DmaMapping} {b : Addr} (ha : b ≠ a) (hs : b ≠ s) :
    (k.withoutTable a s d).heap b = k.heap b :=
  (KState.setHeap_heap_of_ne _ _ ha).trans (KState.setHeap_heap_of_ne _ _ hs)

theorem withoutTable_heap_table (d : DmaMapping) : (k.withoutTable a s d).heap a = none :=
  KState.setHeap_heap_self ..

theorem withoutTable_heap_sgl (d : DmaMapping) (h : k.HasTable a s es) :
    (k.withoutTable a s d).heap s = none :=
  (KState.setHeap_heap_of_ne _ _ h.ne.symm).trans (KState.setHeap_heap_self ..)

/-- Taking a table away leaves the others alone. -/
theorem hasTable_withoutTable (h : k.HasTable a' s' es') (hgone : k.HasTable a s es) (ha : a' ≠ a)
    (hs : s' ≠ s) (d : DmaMapping) : (k.withoutTable a s d).HasTable a' s' es' := by
  have has : a' ≠ s := by
    rintro rfl
    exact absurd (hgone.sgl.symm.trans h.table) (by simp)
  have hsa : s' ≠ a := by
    rintro rfl
    exact absurd (hgone.table.symm.trans h.sgl) (by simp)
  refine ⟨?_, ?_⟩
  · rw [withoutTable_heap_of_ne ha has, h.table]
  · rw [withoutTable_heap_of_ne hsa hs, h.sgl]

end

/-- A table that is mapped: it is there, it was not there at the beginning, and one mapping was
made for it. -/
structure Own (bufs : BufId → Option Exported) (k₀ k : KState) (m : Mapped) (x : Exported)
    (s : Addr) (es : List SgEntry) (d : DmaMapping) : Prop where
  buf : bufs m.call.buf = some x
  sgl : m.sgl = .addr s
  table : k.HasTable m.call.table s es
  table_fresh : k₀.heap m.call.table = none
  sgl_fresh : k₀.heap s = none
  madeBy : MadeBy x s es m.call.dir d
  made : m.made = {d}

/-- What every call preserves. -/
structure Kept (bufs : BufId → Option Exported) (k₀ : KState) (w : World) : Prop where
  own : ∀ m ∈ w.mapped, ∃ x s es d, Own bufs k₀ w.k m x s es d
  tables_nodup : (w.mapped.map fun m ↦ m.call.table).Nodup
  chunks_nodup : (w.mapped.map Mapped.sgl).Nodup
  /-- What belongs to nothing that is mapped is as it was. -/
  heap : ∀ a, (∀ m ∈ w.mapped, m.call.table ≠ a ∧ m.sgl ≠ .addr a) → w.k.heap a = k₀.heap a
  dma : w.k.dma = (w.mapped.map Mapped.made).sum + k₀.dma
  rest : { w.k with heap := k₀.heap, dma := k₀.dma } = k₀

section

variable {need : Bool} {bufs : BufId → Option Exported} {k₀ : KState} {w w' : World}

/-- What was there at the beginning still is. -/
theorem Kept.heap_of_some (h : Kept bufs k₀ w) {a : Addr} {obj : HeapObj}
    (ha : k₀.heap a = some obj) : w.k.heap a = some obj := by
  rw [h.heap a fun m hm ↦ ?_, ha]
  obtain ⟨x, s, es, d, hown⟩ := h.own m hm
  refine ⟨fun heq ↦ ?_, fun heq ↦ ?_⟩
  · exact absurd (hown.table_fresh.symm.trans (heq ▸ ha)) (by simp)
  · obtain rfl : s = a := by simpa [hown.sgl] using heq
    exact absurd (hown.sgl_fresh.symm.trans ha) (by simp)

/-- The ion buffers still have their pages. -/
theorem Kept.valid (h : Kept bufs k₀ w) {x : Exported} (hx : x.Valid k₀) : x.Valid w.k := by
  cases x with
  | sg => trivial
  | ops buf =>
    intro hops
    obtain ⟨ps, hps⟩ := hx hops
    have hpages : w.k.pages = k₀.pages := by
      have hrest := congrArg KState.pages h.rest
      exact hrest
    exact ⟨ps, hps.transfer (fun a data _ hdata ↦ h.heap_of_some hdata)
      fun p hp ↦ hpages ▸ (hps.inUse p hp).1⟩

/-- Addresses that are free belong to nothing that is mapped. -/
theorem Kept.not_mem_of_free (h : Kept bufs k₀ w) {a : Addr} (ha : w.k.heap a = none) :
    ∀ m ∈ w.mapped, m.call.table ≠ a ∧ m.sgl ≠ .addr a := by
  intro m hm
  obtain ⟨x, s, es, d, hown⟩ := h.own m hm
  refine ⟨fun heq ↦ ?_, fun heq ↦ ?_⟩
  · exact absurd (ha.symm.trans (heq ▸ hown.table.table)) (by simp)
  · obtain rfl : s = a := by simpa [hown.sgl] using heq
    exact absurd (ha.symm.trans hown.table.sgl) (by simp)

/-- **A map** adds what it has made. -/
theorem Kept.map (h : Kept bufs k₀ w) {b : BufId} {x : Exported} (hb : bufs b = some x)
    (hx : x.Valid w.k) (attachment : ℕ) (dir : DmaDir) (o : MapOutcome) :
    Kept bufs k₀ (w.map b attachment dir (x.mapDmaBuf need dir o)) := by
  have hspec := wp_mapDmaBuf hx need dir o
  obtain ⟨r, hr⟩ := Option.isSome_iff_exists.mp (result_isSome_of_wp hspec)
  obtain ⟨ok, es, m, hdone, hmade⟩ := result_of_wp hspec hr
  rw [World.map, CpuAccess.mappedTable, hr]
  generalize (x.mapDmaBuf need dir o).final w.k = k' at hdone ⊢
  cases hdone with
  | failed e => exact h
  | @mapped a s hok hfinds =>
    have hroom := hfinds.2.2
    have hfree := h.not_mem_of_free hroom.table
    have hfree' := h.not_mem_of_free hroom.sgl
    have hnew := KState.withTable_hasTable (k := w.k) hroom.ne es
    have hchunks : chunks { w.k.withTable a s es with dma := m (.addr s) ::ₘ w.k.dma } a =
        .addr s := by
      have hat :
          ({ w.k.withTable a s es with dma := m (.addr s) ::ₘ w.k.dma } : KState).heap a = _ :=
        hnew.table
      rw [chunks, hat]
    have hdiff : (m (.addr s) ::ₘ w.k.dma) - w.k.dma = {m (.addr s)} := by
      rw [← Multiset.singleton_add, Multiset.add_sub_cancel_right]
    simp only [Option.map_some, Option.toList_some, List.singleton_append, hchunks, hdiff]
    refine ⟨fun m' hm' ↦ ?_, ?_, ?_, fun a' ha' ↦ ?_, ?_, h.rest⟩
    · rcases List.mem_cons.mp hm' with rfl | hm'
      · exact ⟨x, s, es, _, hb, rfl, ⟨hnew.table, hnew.sgl⟩,
          (h.heap a hfree).symm.trans hroom.table, (h.heap s hfree').symm.trans hroom.sgl,
          hmade s, rfl⟩
      · obtain ⟨x', s', es', d, hown⟩ := h.own m' hm'
        exact ⟨x', s', es', d, { hown with table := hasTable_withTable hown.table hroom _ }⟩
    · refine List.nodup_cons.mpr ⟨fun hmem ↦ ?_, h.tables_nodup⟩
      obtain ⟨m', hm', heq⟩ := List.mem_map.mp hmem
      exact (hfree m' hm').1 heq
    · refine List.nodup_cons.mpr ⟨fun hmem ↦ ?_, h.chunks_nodup⟩
      obtain ⟨m', hm', heq⟩ := List.mem_map.mp hmem
      exact (hfree' m' hm').2 heq
    · obtain ⟨ha, hs⟩ := ha' _ List.mem_cons_self
      have hs' : a' ≠ s := fun heq ↦ hs (heq ▸ rfl)
      show (w.k.withTable a s es).heap a' = _
      rw [KState.withTable_heap_of_ne (Ne.symm ha) hs']
      exact h.heap a' fun m' hm' ↦ ha' m' (List.mem_cons_of_mem _ hm')
    · show m (.addr s) ::ₘ w.k.dma = _
      rw [h.dma, List.map_cons, List.sum_cons, add_assoc, Multiset.singleton_add]

/-- What is mapped more than once is counted more than once: two tables that are mapped are
different, and so are their chunks. -/
theorem Kept.ne_of_mem_erase (h : Kept bufs k₀ w) {m m' : Mapped} (hm : m ∈ w.mapped)
    (hm' : m' ∈ w.mapped.erase m) : m'.call.table ≠ m.call.table ∧ m'.sgl ≠ m.sgl := by
  have hin := List.mem_of_mem_erase hm'
  have hne : m' ≠ m := by
    rintro rfl
    have hnodup : w.mapped.Nodup := .of_map _ h.tables_nodup
    exact hnodup.not_mem_erase hm'
  exact ⟨fun heq ↦ hne (List.inj_on_of_nodup_map h.tables_nodup hin hm heq),
    fun heq ↦ hne (List.inj_on_of_nodup_map h.chunks_nodup hin hm heq)⟩

/-- **An unmap** takes away what its map has made. -/
theorem Kept.unmap (h : Kept bufs k₀ w) {m : Mapped} (hm : m ∈ w.mapped) {x : Exported} {s : Addr}
    {es : List SgEntry} {d : DmaMapping} (hown : Own bufs k₀ w.k m x s es d) :
    Kept bufs k₀ ⟨w.k.withoutTable m.call.table s d, w.mapped.erase m⟩ where
  own m' hm' := by
    obtain ⟨hne, hne'⟩ := h.ne_of_mem_erase hm hm'
    obtain ⟨x', s', es', d', hown'⟩ := h.own m' (List.mem_of_mem_erase hm')
    have hss : s' ≠ s := fun heq ↦ hne' (by rw [hown'.sgl, hown.sgl, heq])
    exact ⟨x', s', es', d',
      { hown' with table := hasTable_withoutTable hown'.table hown.table hne hss d }⟩
  tables_nodup := h.tables_nodup.sublist (List.erase_sublist.map _)
  chunks_nodup := h.chunks_nodup.sublist (List.erase_sublist.map _)
  heap a ha := by
    show (w.k.withoutTable m.call.table s d).heap a = _
    by_cases hat : a = m.call.table
    · rw [hat, withoutTable_heap_table, hown.table_fresh]
    by_cases has : a = s
    · rw [has, withoutTable_heap_sgl d hown.table, hown.sgl_fresh]
    rw [withoutTable_heap_of_ne hat has]
    refine h.heap a fun m' hm' ↦ ?_
    by_cases heq : m' = m
    · refine ⟨fun h' ↦ hat (by rw [← h', heq]), fun h' ↦ has ?_⟩
      rw [heq, hown.sgl, KPtr.addr.injEq] at h'
      exact h'.symm
    · exact ha m' ((List.mem_erase_of_ne heq).mpr hm')
  dma := by
    show w.k.dma.erase d = _
    have hperm := ((List.perm_cons_erase hm).map Mapped.made).sum_eq
    rw [List.map_cons, List.sum_cons, hown.made] at hperm
    rw [h.dma, hperm, add_assoc, Multiset.singleton_add, Multiset.erase_cons_head]
  rest := h.rest

/-- The mapping made for a table that is mapped is live. -/
theorem Kept.mem_dma (h : Kept bufs k₀ w) {m : Mapped} (hm : m ∈ w.mapped) {d : DmaMapping}
    (hd : m.made = {d}) : d ∈ w.k.dma := by
  have hperm := ((List.perm_cons_erase hm).map Mapped.made).sum_eq
  rw [List.map_cons, List.sum_cons, hd] at hperm
  rw [h.dma, hperm]
  simp

/-- **Every call** preserves it. -/
theorem Kept.step (hvalid : ∀ b x, bufs b = some x → x.Valid k₀) (h : Kept bufs k₀ w) {a : Action}
    (hstep : (machine need bufs).step w a = some w') : Kept bufs k₀ w' := by
  cases a with
  | map b attachment dir o =>
    obtain ⟨x, hb, rfl⟩ := Option.map_eq_some_iff.mp hstep
    exact h.map hb (h.valid (hvalid b x hb)) attachment dir o
  | unmap c =>
    obtain ⟨x, hb, hstep⟩ := Option.bind_eq_some_iff.mp hstep
    obtain ⟨m, hfind, rfl⟩ := Option.map_eq_some_iff.mp hstep
    have hm := List.mem_of_find?_eq_some hfind
    obtain rfl : m.call = c := by simpa using List.find?_some hfind
    obtain ⟨x', s, es, d, hown⟩ := h.own m hm
    obtain rfl : x = x' := Option.some_inj.mp (hb.symm.trans hown.buf)
    have hfinal : (x.unmapDmaBuf (.addr m.call.table) m.call.dir).final w.k =
        w.k.withoutTable m.call.table s d :=
      final_of_wp (P := fun k' ↦ k' = w.k.withoutTable m.call.table s d)
        ((hown.madeBy.wp_unmapDmaBuf hown.table (h.mem_dma hm hown.made)).mpr rfl)
    rw [hfinal]
    exact h.unmap hm hown

end

/-! ## Every run -/

section

variable {need : Bool} {bufs : BufId → Option Exported} {k₀ : KState} {w : World}

theorem Kept.init (h : Init bufs w) : Kept bufs w.k w where
  own m hm := by
    rw [h.mapped] at hm
    exact absurd hm List.not_mem_nil
  tables_nodup := by simp [h.mapped]
  chunks_nodup := by simp [h.mapped]
  heap _ _ := rfl
  dma := by simp [h.mapped]
  rest := rfl

/-- What is live is what is mapped, if nothing was at the beginning. -/
theorem Kept.accounted (h : Kept bufs k₀ w) (htables : ∀ a t, k₀.heap a ≠ some (.sgTable t))
    (hchunks : ∀ s es, k₀.heap s ≠ some (.sgl es)) (hdma : k₀.dma = 0) : Accounted w where
  tables a := by
    refine ⟨?_, ?_⟩
    · rintro ⟨t, ht⟩
      by_contra hnone
      push Not at hnone
      rw [h.heap a fun m hm ↦ ⟨hnone m hm, fun hs ↦ ?_⟩] at ht
      · exact htables a t ht
      · obtain ⟨x, s, es, d, hown⟩ := h.own m hm
        obtain rfl : s = a := by simpa [hown.sgl] using hs
        exact absurd (ht.symm.trans hown.table.sgl) (by simp)
    · rintro ⟨m, hm, rfl⟩
      obtain ⟨x, s, es, d, hown⟩ := h.own m hm
      exact ⟨_, hown.table.table⟩
  tables_nodup := h.tables_nodup
  chunks s := by
    refine ⟨?_, ?_⟩
    · rintro ⟨es, hes⟩
      by_contra hnone
      push Not at hnone
      rw [h.heap s fun m hm ↦ ⟨fun ht ↦ ?_, hnone m hm⟩] at hes
      · exact hchunks s es hes
      · obtain ⟨x, s', es', d, hown⟩ := h.own m hm
        exact absurd (hes.symm.trans (ht ▸ hown.table.table)) (by simp)
    · rintro ⟨m, hm, hs⟩
      obtain ⟨x, s', es, d, hown⟩ := h.own m hm
      obtain rfl : s' = s := by simpa [hown.sgl] using hs
      exact ⟨es, hown.table.sgl⟩
  chunks_nodup := h.chunks_nodup
  dma := by rw [h.dma, hdma, add_zero]
  made m hm := by
    obtain ⟨x, s, es, d, hown⟩ := h.own m hm
    exact ⟨d, hown.made⟩

/-- When nothing is mapped, everything is as it was at the beginning. -/
theorem Kept.restored (h : Kept bufs k₀ w) (hnone : w.mapped = []) : w.k = k₀ := by
  have hheap : w.k.heap = k₀.heap := by
    funext a
    refine h.heap a fun m hm ↦ ?_
    rw [hnone] at hm
    exact absurd hm List.not_mem_nil
  have hdma : w.k.dma = k₀.dma := by
    rw [h.dma, hnone, List.map_nil, List.sum_nil, zero_add]
  have hrest := h.rest
  rw [← hheap, ← hdma] at hrest
  exact hrest

/-- **Map and unmap are paired.**  After any sequence of maps and unmaps, with any allocations
failing, the live tables, scatter chunks and DMA mappings are those of what is mapped; an unmap of
anything that is mapped succeeds and takes away just the DMA mapping that its map has made; and when
everything is unmapped, the kernel is in the state it started in. -/
theorem maps_paired {w₀ : World} {as : List Action} (h₀ : Init bufs w₀)
    (hrun : (machine need bufs).Run Machine.free w₀ as w) :
    Accounted w ∧
      (∀ m ∈ w.mapped, ∃ x, bufs m.call.buf = some x ∧
        wp (x.unmapDmaBuf (.addr m.call.table) m.call.dir)
          (fun _ k' ↦ w.k.dma = m.made + k'.dma) (fun _ _ ↦ False) w.k) ∧
      (w.mapped = [] → w.k = w₀.k) := by
  have h : Kept bufs w₀.k w :=
    hrun.invariant (fun _ _ _ h _ hstep ↦ h.step h₀.valid hstep) (.init h₀)
  refine ⟨h.accounted h₀.tables h₀.chunks h₀.dma, fun m hm ↦ ?_, h.restored⟩
  obtain ⟨x, s, es, d, hown⟩ := h.own m hm
  have hd := h.mem_dma hm hown.made
  refine ⟨x, hown.buf, (hown.madeBy.wp_unmapDmaBuf hown.table hd).mpr ?_⟩
  rw [hown.made, Multiset.singleton_add]
  exact (Multiset.cons_erase hd).symm

end

/-- One buffer of each exporter. -/
def oneOfEach : BufId → Option Exported
  | 0 => some .sg
  | 1 => some (.ops ⟨.page, 4096, .page 9, []⟩)
  | 2 => some (.ops threePageBuf)
  | _ => none

/-- The ion buffer is mapped twice and the others once; the second map of the ion buffer fails, and
what was mapped first is unmapped. -/
def oneOfEachRun : List Action :=
  [.map 2 0 .toDevice ⟨some 10, some 11, [⟨4096, 12288⟩], 0⟩,
    .map 0 1 .fromDevice ⟨some 12, some 13, [], 8192⟩,
    .map 2 2 .toDevice ⟨some 14, some 15, [], 0⟩,
    .map 1 3 .bidirectional ⟨some 14, some 15, [], 16384⟩, .unmap ⟨2, 0, 10, .toDevice⟩]

theorem oneOfEach_init : Init oneOfEach ⟨threePages, []⟩ where
  valid b x hb := by
    match b, hb with
    | 0, hb => cases hb; trivial
    | 1, hb => cases hb; exact fun hops ↦ absurd hops (by decide)
    | 2, hb => cases hb; exact fun _ ↦ ⟨_, threePages_holds⟩
  tables a t := by
    show Function.update (fun _ ↦ none) 0 (some (HeapObj.ionData threePageData)) a ≠ _
    by_cases ha : a = 0
    · simp [ha]
    · simp [Function.update_of_ne ha]
  chunks s es := by
    show Function.update (fun _ ↦ none) 0 (some (HeapObj.ionData threePageData)) s ≠ _
    by_cases hs : s = 0
    · simp [hs]
    · simp [Function.update_of_ne hs]
  dma := rfl
  mapped := rfl

/-- Two tables are left, of two exporters. -/
theorem maps_paired_oneOfEach :
    ∃ w, (machine true oneOfEach).exec ⟨threePages, []⟩ oneOfEachRun = some w ∧
      w.mapped.map (fun m ↦ m.call.table) = [14, 12] ∧ Accounted w := by
  have hrun : (machine true oneOfEach).exec ⟨threePages, []⟩ oneOfEachRun = some _ := rfl
  exact ⟨_, hrun, rfl, (maps_paired oneOfEach_init (Machine.exec_eq_some_iff.mp hrun)).1⟩

end DmaBuf.MapPairing
