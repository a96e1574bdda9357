import SampleDrivers.DmaBuf.State

/-!
# Scatter tables and mappings for devices

The kernel functions with which an exporter describes its pages to a device.

* `sgAllocTable`, `sgFreeTable` — a table has a list of entries of its own, cleared when it is
  allocated; `sgSetPage` and `sgNext` walk it, and the list ends in `NULL`.
* `dmaMapSg` fills in the device addresses, merging entries if it likes: the ranges it chooses go
  to the first entries, the others get length 0.  `dmaMapPage` maps one page.
* `KState.memory` — the pages, the headers of ion buffers and the buffers: what none of this
  touches (`keeps_…`).
-/

set_option autoImplicit false

namespace DmaBuf

open Kernel

/-! ## Tables -/

/-- An entry as `sg_alloc_table` leaves it. -/
def SgEntry.blank : SgEntry := ⟨.null, 0, 0, 0⟩

/-- The `sg_table` a pointer designates. -/
def loadTable : KPtr → KProg SgTable
  | .addr a => do
    match (← get).heap a with
    | some (.sgTable (some t)) => return t
    | some (.sgTable none) => throw .uninitialised
    | _ => throw .useAfterFree
  | .zeroSize => throw .outOfBounds
  | .null => throw .nullDeref

/-- Write the fields of an `sg_table`. -/
def storeTable (table : KPtr) (t : SgTable) : KProg Unit := do
  match table with
  | .addr a =>
    match (← get).heap a with
    | some (.sgTable _) => modify fun k ↦ k.setHeap a (some (.sgTable (some t)))
    | _ => throw .useAfterFree
  | .zeroSize => throw .outOfBounds
  | .null => throw .nullDeref

/-- The entries of a scatter list. -/
def loadSgl : KPtr → KProg (List SgEntry)
  | .addr a => do
    match (← get).heap a with
    | some (.sgl es) => return es
    | _ => throw .useAfterFree
  | .zeroSize => throw .outOfBounds
  | .null => throw .nullDeref

/-- Write the entries of a scatter list. -/
def storeSgl (sgl : KPtr) (es : List SgEntry) : KProg Unit := do
  match sgl with
  | .addr a =>
    match (← get).heap a with
    | some (.sgl _) => modify fun k ↦ k.setHeap a (some (.sgl es))
    | _ => throw .useAfterFree
  | .zeroSize => throw .outOfBounds
  | .null => throw .nullDeref

/-- `sg_alloc_table`; `o` is where the entries are found a place. -/
def sgAllocTable (table : KPtr) (nents : ℕ) (o : Option Addr) : KProg ℤ := do
  if nents = 0 then return -EINVAL
  let sgl ← kmalloc (32 * nents) (.sgl (List.replicate nents .blank)) o
  if sgl = .null then return -ENOMEM
  storeTable table ⟨sgl, nents, nents⟩
  return 0

/-- `sg_free_table`. -/
def sgFreeTable (table : KPtr) : KProg Unit := do
  let t ← loadTable table
  kfree .sgl t.sgl
  storeTable table { t with sgl := .null }

/-- A `struct scatterlist *`: an entry of a list, or `NULL`. -/
inductive SgCursor
  | null
  | entry (sgl : KPtr) (i : ℕ)
  deriving DecidableEq, Repr

/-- `sg_set_page(sg, page, len, 0)`. -/
def sgSetPage (sg : SgCursor) (page : Slot) (len : ℕ) : KProg Unit := do
  match sg with
  | .null => throw .nullDeref
  | .entry sgl i =>
    let es ← loadSgl sgl
    match es[i]? with
    | some e => storeSgl sgl (es.set i { e with page := page, length := len })
    | none => throw .outOfBounds

/-- `sg_next`: `NULL` after the last entry. -/
def sgNext (sg : SgCursor) : KProg SgCursor := do
  match sg with
  | .null => throw .nullDeref
  | .entry sgl i =>
    let es ← loadSgl sgl
    return if i + 1 < es.length then .entry sgl (i + 1) else .null

/-! ## Mappings for devices -/

/-- A range of device addresses. -/
structure DmaRange where
  address : ℕ
  length : ℕ
  deriving DecidableEq, Repr

/-- The ranges go to the first entries, the other entries become invalid. -/
def withRanges : List SgEntry → List DmaRange → List SgEntry
  | [], _ => []
  | e :: es, [] => { e with dmaAddress := 0, dmaLength := 0 } :: withRanges es []
  | e :: es, r :: rs =>
    { e with dmaAddress := r.address, dmaLength := r.length } :: withRanges es rs

/-- `dma_map_sg`: the number of ranges it made, 0 for failure. -/
def dmaMapSg (sgl : KPtr) (nents : ℕ) (dir : DmaDir) (ranges : List DmaRange) : KProg ℕ := do
  let es ← loadSgl sgl
  if ranges = [] then return 0
  storeSgl sgl (withRanges es ranges)
  modify fun k ↦ { k with dma := .sg sgl nents dir ::ₘ k.dma }
  return ranges.length

/-- `dma_map_page` of a whole page; it returns an address in any case. -/
def dmaMapPage (dmaAddress : ℕ) (dir : DmaDir) : KProg ℕ := do
  modify fun k ↦ { k with dma := .page dmaAddress pageSize dir ::ₘ k.dma }
  return dmaAddress

/-- Undo a mapping, which has to be there. -/
def dmaUnmap (m : DmaMapping) : KProg Unit := do
  let k ← get
  if m ∈ k.dma then set { k with dma := k.dma.erase m } else throw .badUnmap

/-- `dma_unmap_sg`. -/
def dmaUnmapSg (sgl : KPtr) (nents : ℕ) (dir : DmaDir) : KProg Unit := do
  let _ ← loadSgl sgl
  dmaUnmap (.sg sgl nents dir)

/-- `dma_sync_sg_for_cpu` and `dma_sync_sg_for_device`. -/
def dmaSyncSg (forCpu : Bool) (sgl : KPtr) (nents : ℕ) (dir : DmaDir) : KProg Unit := do
  let _ ← loadSgl sgl
  modify fun k ↦ { k with syncs := ⟨forCpu, sgl, nents, dir⟩ :: k.syncs }

/-! ## What they do -/

section

variable {k : KState} {E : Oops → KState → Prop} {a s : Addr} {es : List SgEntry}

theorem wp_loadTable {t : SgTable} {Q : SgTable → KState → Prop}
    (h : k.heap a = some (.sgTable (some t))) : Prog.wp (loadTable (.addr a)) Q E k ↔ Q t k := by
  simp [loadTable, h]

theorem wp_storeTable {o : Option SgTable} {t : SgTable} {Q : Unit → KState → Prop}
    (h : k.heap a = some (.sgTable o)) :
    Prog.wp (storeTable (.addr a) t) Q E k ↔ Q () (k.setHeap a (some (.sgTable (some t)))) := by
  simp [storeTable, h]

theorem wp_loadSgl {Q : List SgEntry → KState → Prop} (h : k.heap s = some (.sgl es)) :
    Prog.wp (loadSgl (.addr s)) Q E k ↔ Q es k := by
  simp [loadSgl, h]

theorem wp_storeSgl {es' : List SgEntry} {Q : Unit → KState → Prop}
    (h : k.heap s = some (.sgl es)) :
    Prog.wp (storeSgl (.addr s) es') Q E k ↔ Q () (k.setHeap s (some (.sgl es'))) := by
  simp [storeSgl, h]

theorem wp_sgAllocTable_of_free {o : Option SgTable} {n : ℕ} {Q : ℤ → KState → Prop}
    (h : k.heap a = some (.sgTable o)) (hn : n ≠ 0) (hs : k.heap s = none) :
    Prog.wp (sgAllocTable (.addr a) n (some s)) Q E k ↔
      Q 0 ((k.setHeap s (some (.sgl (List.replicate n .blank)))).setHeap a
        (some (.sgTable (some ⟨.addr s, n, n⟩)))) := by
  have hne : a ≠ s := by
    rintro rfl
    rw [h] at hs
    exact absurd hs (by simp)
  have h' : (k.setHeap s (some (.sgl (List.replicate n .blank)))).heap a = some (.sgTable o) := by
    rw [KState.setHeap_heap_of_ne _ _ hne, h]
  have hbytes : 32 * n ≠ 0 := Nat.mul_ne_zero (Nat.succ_ne_zero 31) hn
  simp [sgAllocTable, hn, wp_kmalloc_of_free hbytes hs, wp_storeTable h']

/-- Without entries, or without a free place for them, no table is set up. -/
theorem wp_sgAllocTable_of_not_free {table : KPtr} {n : ℕ} {o : Option Addr}
    {Q : ℤ → KState → Prop} (h : n ≠ 0 → ∀ s, o = some s → k.heap s ≠ none) :
    Prog.wp (sgAllocTable table n o) Q E k ↔ Q (if n = 0 then -EINVAL else -ENOMEM) k := by
  by_cases hn : n = 0
  · simp [sgAllocTable, hn]
  · have hbytes : 32 * n ≠ 0 := Nat.mul_ne_zero (Nat.succ_ne_zero 31) hn
    simp [sgAllocTable, hn, wp_kmalloc_of_not_free hbytes (h hn)]

theorem wp_sgFreeTable {t : SgTable} {Q : Unit → KState → Prop}
    (h : k.heap a = some (.sgTable (some t))) (ht : t.sgl = .addr s)
    (hs : k.heap s = some (.sgl es)) :
    Prog.wp (sgFreeTable (.addr a)) Q E k ↔ Q () ((k.setHeap s none).setHeap a
      (some (.sgTable (some { t with sgl := .null })))) := by
  have hne : a ≠ s := by
    rintro rfl
    rw [h] at hs
    exact absurd hs (by simp)
  have h' : (k.setHeap s none).heap a = some (.sgTable (some t)) := by
    rw [KState.setHeap_heap_of_ne _ _ hne, h]
  rw [sgFreeTable, Prog.wp_bind, wp_loadTable h, Prog.wp_bind, ht]
  exact (wp_kfree hs).trans (wp_storeTable h')

theorem wp_sgSetPage {i : ℕ} {page : Slot} {len : ℕ} {e : SgEntry} {Q : Unit → KState → Prop}
    (h : k.heap s = some (.sgl es)) (he : es[i]? = some e) :
    Prog.wp (sgSetPage (.entry (.addr s) i) page len) Q E k ↔
      Q () (k.setHeap s (some (.sgl (es.set i { e with page := page, length := len })))) := by
  simp [sgSetPage, wp_loadSgl h, he, wp_storeSgl h]

theorem wp_sgNext {i : ℕ} {Q : SgCursor → KState → Prop} (h : k.heap s = some (.sgl es)) :
    Prog.wp (sgNext (.entry (.addr s) i)) Q E k ↔
      Q (if i + 1 < es.length then .entry (.addr s) (i + 1) else .null) k := by
  simp [sgNext, wp_loadSgl h]

theorem wp_dmaUnmap {m : DmaMapping} {Q : Unit → KState → Prop} (h : m ∈ k.dma) :
    Prog.wp (dmaUnmap m) Q E k ↔ Q () { k with dma := k.dma.erase m } := by
  simp [dmaUnmap, h]

theorem length_withRanges (es : List SgEntry) (rs : List DmaRange) :
    (withRanges es rs).length = es.length := by
  induction es generalizing rs with
  | nil => rfl
  | cons e es ih =>
    cases rs with
    | nil => exact congrArg (· + 1) (ih [])
    | cons r rs => exact congrArg (· + 1) (ih rs)

/-- The ranges are all that `dma_map_sg` writes into the entries. -/
theorem withRanges_getElem? (es : List SgEntry) (rs : List DmaRange) (i : ℕ) :
    ((withRanges es rs)[i]?).map (fun e ↦ (e.page, e.length)) =
      (es[i]?).map fun e ↦ (e.page, e.length) := by
  induction es generalizing rs i with
  | nil => rfl
  | cons e es ih =>
    cases rs with
    | nil =>
      cases i with
      | zero => rfl
      | succ i => exact ih [] i
    | cons r rs =>
      cases i with
      | zero => rfl
      | succ i => exact ih rs i

end

/-! ## What they do not touch -/

/-- The header of an ion buffer at an address. -/
def KState.ionDataAt (k : KState) (a : Addr) : Option IonData :=
  match k.heap a with
  | some (.ionData d) => some d
  | _ => none

/-- The pages, the headers of ion buffers, and the buffers. -/
def KState.memory (k : KState) :=
  (k.pages, k.gets, k.puts, k.ionDataAt, k.bufs)

theorem KState.ionDataAt_eq_some {k : KState} {a : Addr} {d : IonData} :
    k.ionDataAt a = some d ↔ k.heap a = some (.ionData d) := by
  rw [KState.ionDataAt]
  split
  · rename_i h
    rw [h]
    simp
  · rename_i h
    simp only [reduceCtorEq, false_iff]
    exact h d

/-- Replacing something else than the header of an ion buffer by something else. -/
theorem KState.setHeap_memory {k : KState} {a : Addr} {o : Option HeapObj}
    (h : k.ionDataAt a = none) (ho : ∀ d, o ≠ some (.ionData d)) :
    (k.setHeap a o).memory = k.memory := by
  have hat : (k.setHeap a o).ionDataAt = k.ionDataAt := by
    funext a'
    by_cases haa : a' = a
    · subst haa
      rw [h, ionDataAt, setHeap_heap_self]
      cases o with
      | none => rfl
      | some obj =>
        cases obj with
        | ionData d => exact absurd rfl (ho d)
        | sgTable t => rfl
        | sgl es => rfl
    · rw [ionDataAt, ionDataAt, setHeap_heap_of_ne _ _ haa]
  rw [memory, memory, hat]
  rfl

open Prog

theorem keeps_kmalloc {bytes : ℕ} {obj : HeapObj} {o : Option Addr}
    (hobj : ∀ d, obj ≠ .ionData d) : Keeps KState.memory (kmalloc bytes obj o) := by
  refine keeps_kmalloc_of fun k a ha ↦ KState.setHeap_memory ?_ fun d hd ↦ ?_
  · rw [KState.ionDataAt, ha]
  · exact hobj d (Option.some_inj.mp hd)

theorem keeps_kfree {kind : HeapKind} (hkind : kind ≠ .ionData) (p : KPtr) :
    Keeps KState.memory (kfree kind p) := by
  refine keeps_kfree_of (fun k a h ↦ KState.setHeap_memory ?_ fun d ↦ by simp) p
  cases hobj : k.heap a with
  | none => rw [KState.ionDataAt, hobj]
  | some obj =>
    rw [hobj, Option.map_some, Option.some_inj] at h
    cases obj with
    | ionData d => exact absurd h.symm hkind
    | sgTable t => rw [KState.ionDataAt, hobj]
    | sgl es => rw [KState.ionDataAt, hobj]

theorem keeps_loadTable (table : KPtr) : Keeps KState.memory (loadTable table) := by
  intro k
  cases table with
  | null => rfl
  | zeroSize => rfl
  | addr a =>
    simp only [loadTable, wp_bind, wp_get]
    split <;> rfl

theorem keeps_loadSgl (sgl : KPtr) : Keeps KState.memory (loadSgl sgl) := by
  intro k
  cases sgl with
  | null => rfl
  | zeroSize => rfl
  | addr a =>
    simp only [loadSgl, wp_bind, wp_get]
    split <;> rfl

theorem keeps_storeTable (table : KPtr) (t : SgTable) :
    Keeps KState.memory (storeTable table t) := by
  intro k
  cases table with
  | null => rfl
  | zeroSize => rfl
  | addr a =>
    simp only [storeTable, wp_bind, wp_get]
    split
    · rename_i h
      refine KState.setHeap_memory ?_ fun d ↦ by simp
      rw [KState.ionDataAt, h]
    · rfl

theorem keeps_storeSgl (sgl : KPtr) (es : List SgEntry) :
    Keeps KState.memory (storeSgl sgl es) := by
  intro k
  cases sgl with
  | null => rfl
  | zeroSize => rfl
  | addr a =>
    simp only [storeSgl, wp_bind, wp_get]
    split
    · rename_i h
      refine KState.setHeap_memory ?_ fun d ↦ by simp
      rw [KState.ionDataAt, h]
    · rfl

theorem keeps_sgAllocTable (table : KPtr) (nents : ℕ) (o : Option Addr) :
    Keeps KState.memory (sgAllocTable table nents o) := by
  refine .ite (.pure _) ((keeps_kmalloc fun d ↦ by simp).bind fun sgl ↦ .ite (.pure _) ?_)
  exact (keeps_storeTable _ _).bind fun _ ↦ .pure _

theorem keeps_sgFreeTable (table : KPtr) : Keeps KState.memory (sgFreeTable table) :=
  (keeps_loadTable table).bind fun t ↦ (keeps_kfree (by decide) t.sgl).bind fun _ ↦
    keeps_storeTable _ _

theorem keeps_sgSetPage (sg : SgCursor) (page : Slot) (len : ℕ) :
    Keeps KState.memory (sgSetPage sg page len) := by
  cases sg with
  | null => exact .throw _
  | entry sgl i =>
    refine (keeps_loadSgl sgl).bind fun es ↦ ?_
    split
    · exact keeps_storeSgl _ _
    · exact .throw _

theorem keeps_sgNext (sg : SgCursor) : Keeps KState.memory (sgNext sg) := by
  cases sg with
  | null => exact .throw _
  | entry sgl i => exact (keeps_loadSgl sgl).bind fun es ↦ .pure _

theorem keeps_dmaMapSg (sgl : KPtr) (nents : ℕ) (dir : DmaDir) (ranges : List DmaRange) :
    Keeps KState.memory (dmaMapSg sgl nents dir ranges) := by
  refine (keeps_loadSgl sgl).bind fun _ ↦ .ite (.pure _) ((keeps_storeSgl _ _).bind fun _ ↦ ?_)
  exact .bind (.modify _ fun _ ↦ rfl) fun _ ↦ .pure _

theorem keeps_dmaMapPage (dmaAddress : ℕ) (dir : DmaDir) :
    Keeps KState.memory (dmaMapPage dmaAddress dir) :=
  .bind (.modify _ fun _ ↦ rfl) fun _ ↦ .pure _

theorem keeps_dmaUnmap (m : DmaMapping) : Keeps KState.memory (dmaUnmap m) := by
  intro k
  simp only [dmaUnmap, wp_bind, wp_get]
  split <;> rfl

theorem keeps_dmaUnmapSg (sgl : KPtr) (nents : ℕ) (dir : DmaDir) :
    Keeps KState.memory (dmaUnmapSg sgl nents dir) :=
  (keeps_loadSgl sgl).bind fun _ ↦ keeps_dmaUnmap _

theorem keeps_dmaSyncSg (forCpu : Bool) (sgl : KPtr) (nents : ℕ) (dir : DmaDir) :
    Keeps KState.memory (dmaSyncSg forCpu sgl nents dir) :=
  (keeps_loadSgl sgl).bind fun _ ↦ .modify _ fun _ ↦ rfl

end DmaBuf
