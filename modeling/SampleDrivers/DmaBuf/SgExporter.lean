import SampleDrivers.DmaBuf.Mapping

/-!
# The exporter of dma-buf/03

`exporter-sg.c` exports a page it has got from `kzalloc`.  Its `map_dma_buf` makes a table with one
entry, of which it fills in only what the device reads, and maps the page with `dma_map_single`.

* `SgEntry.dmaLen`, `SgEntry.setDmaLen` — `sg_dma_len`, which is a field of its own or another name
  for the length of the page, depending on `CONFIG_NEED_SG_DMA_LENGTH`.
* `SgExporter.exporterMapDmaBuf`, `SgExporter.exporterUnmapDmaBuf` — the two callbacks, and
  `wp_exporterMapDmaBuf`, `wp_exporterUnmapDmaBuf` — what they do.
-/

set_option autoImplicit false

namespace DmaBuf

open Kernel Prog

/-- `sg_dma_len(sg)`; `need` is `CONFIG_NEED_SG_DMA_LENGTH`. -/
def SgEntry.dmaLen (need : Bool) (e : SgEntry) : ℕ := if need then e.dmaLength else e.length

/-- `sg_dma_len(sg) = len`. -/
def SgEntry.setDmaLen (need : Bool) (len : ℕ) (e : SgEntry) : SgEntry :=
  if need then { e with dmaLength := len } else { e with length := len }

/-- `dma_map_single`; it returns an address in any case. -/
def dmaMapSingle (dmaAddress size : ℕ) (dir : DmaDir) : KProg ℕ := do
  modify fun k ↦ { k with dma := .single dmaAddress size dir ::ₘ k.dma }
  return dmaAddress

namespace SgExporter

/-- Setting `sg_dma_len` of the first entry. -/
def setDmaLen (need : Bool) (sgl : KPtr) (len : ℕ) : KProg Unit := do
  match ← loadSgl sgl with
  | e :: es => storeSgl sgl (e.setDmaLen need len :: es)
  | [] => throw .outOfBounds

/-- `exporter_map_dma_buf` of dma-buf/03. -/
def exporterMapDmaBuf (need : Bool) (dir : DmaDir) (o : MapOutcome) : KProg (Ptr KPtr) := do
  let table ← kmalloc 16 (.sgTable none) o.table
  if table = .null then return .err ENOMEM
  let err ← sgAllocTable table 1 o.sgl
  if err ≠ 0 then
    kfree .sgTable table
    return .err (-err)
  let t ← loadTable table
  setDmaLen need t.sgl pageSize
  setDmaAddress t.sgl (← dmaMapSingle o.dmaAddress pageSize dir)
  return .obj table

/-- `exporter_unmap_dma_buf` of dma-buf/03. -/
def exporterUnmapDmaBuf (table : KPtr) (dir : DmaDir) : KProg Unit := do
  let t ← loadTable table
  dmaUnmap (.single (← getDmaAddress t.sgl) pageSize dir)
  sgFreeTable table
  kfree .sgTable table

/-- The entry of a table. -/
def entry (need : Bool) (dmaAddress : ℕ) : SgEntry :=
  { SgEntry.setDmaLen need pageSize .blank with dmaAddress := dmaAddress }

section

variable {k : KState} {E : Oops → KState → Prop} {a s : Addr}

theorem wp_setDmaLen {need : Bool} {len : ℕ} {e : SgEntry} {es : List SgEntry}
    {Q : Unit → KState → Prop} (h : k.heap s = some (.sgl (e :: es))) :
    wp (setDmaLen need (.addr s) len) Q E k ↔
      Q () (k.setHeap s (some (.sgl (e.setDmaLen need len :: es)))) := by
  rw [setDmaLen, wp_bind, wp_loadSgl h, wp_storeSgl h]

/-- **`exporter_map_dma_buf`** of dma-buf/03 makes a table with one entry, without a page. -/
theorem wp_exporterMapDmaBuf (need : Bool) (dir : DmaDir) (o : MapOutcome) :
    wp (exporterMapDmaBuf need dir o) (fun r k' ↦ MapDone k o True [entry need o.dmaAddress]
      (fun _ ↦ .single o.dmaAddress pageSize dir) r k') (fun _ _ ↦ False) k := by
  refine wp_allocTable (fun e h ↦ .failed e fun hok ↦ h hok.2) fun a s hfinds ↦ ?_
  have hne := hfinds.2.2.ne
  have htab := fun es ↦ KState.withTable_hasTable (k := k) hne es
  have hstore : (k.withTable a s [.blank]).setHeap s
      (some (.sgl [SgEntry.setDmaLen need pageSize .blank])) =
        k.withTable a s [SgEntry.setDmaLen need pageSize .blank] :=
    KState.withTable_storeSgl hne rfl
  rw [wp_bind, wp_loadTable (htab _).table, wp_bind, wp_setDmaLen (htab _).sgl, hstore,
    dmaMapSingle, wp_bind, wp_bind, wp_modify, wp_pure, wp_bind]
  exact (wp_setDmaAddress_withTable hne).mpr (.mapped trivial hfinds)

/-- `exporter_unmap_dma_buf` of dma-buf/03 undoes the mapping at the address it finds in the
table. -/
theorem wp_exporterUnmapDmaBuf {e : SgEntry} {es : List SgEntry} {dir : DmaDir}
    {Q : Unit → KState → Prop} (h : k.HasTable a s (e :: es))
    (hm : .single e.dmaAddress pageSize dir ∈ k.dma) :
    wp (exporterUnmapDmaBuf (.addr a) dir) Q E k ↔
      Q () (k.withoutTable a s (.single e.dmaAddress pageSize dir)) := by
  rw [exporterUnmapDmaBuf, wp_bind, wp_loadTable h.table, wp_bind, wp_getDmaAddress h.sgl, wp_bind,
    wp_dmaUnmap hm, wp_freeTable h]

end

end SgExporter

end DmaBuf
