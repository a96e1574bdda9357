import SampleDrivers.DmaBuf.Ion
import SampleDrivers.DmaBuf.Scatter

/-!
# The callbacks of the page and the ion exporter

What the two exporters put into their `dma_buf_ops` for devices and for the kernel: `attach` and
`detach`, which only print; `map_dma_buf` and `unmap_dma_buf`; `begin_cpu_access` and
`end_cpu_access`; and the `vmap` and `vunmap` of ion.  Where the two exporters differ, the function
of `Ops` picks the right one, as the core does through the table.

None of them touches a page, the header of an ion buffer or a buffer (`keeps_…`); in particular
none writes the `priv` of an attachment.
-/

set_option autoImplicit false

namespace DmaBuf

open Kernel Prog

/-! ## Mapping for a device -/

/-- What the kernel finds for one call of `map_dma_buf`. -/
structure MapOutcome where
  /-- The address of the table. -/
  table : Option Addr
  /-- The address of its entries. -/
  sgl : Option Addr
  /-- The ranges `dma_map_sg` makes, none if it fails. -/
  ranges : List DmaRange
  /-- The address `dma_map_page` returns. -/
  dmaAddress : ℕ

/-- `ion_map_dma_buf`. -/
def ionMapDmaBuf (buf : Buf) (dir : DmaDir) (o : MapOutcome) : KProg (Ptr KPtr) := do
  let table ← kmalloc 16 (.sgTable none) o.table
  if table = .null then return .err ENOMEM
  let npages ← loadNpages (ionDataOf buf)
  if (← sgAllocTable table npages.toNat o.sgl) ≠ 0 then
    kfree .sgTable table
    return .err ENOMEM
  let t ← loadTable table
  let _ ← forFrom (fun i sg ↦ do
    sgSetPage sg (← loadPage (ionDataOf buf) i) pageSize
    return some (← sgNext sg)) (rounds npages) 0 (SgCursor.entry t.sgl 0)
  if (← dmaMapSg t.sgl t.nents dir o.ranges) = 0 then
    sgFreeTable table
    kfree .sgTable table
    return .err ENOMEM
  return .obj table

/-- `ion_unmap_dma_buf`. -/
def ionUnmapDmaBuf (table : KPtr) (dir : DmaDir) : KProg Unit := do
  let t ← loadTable table
  dmaUnmapSg t.sgl t.nents dir
  sgFreeTable table
  kfree .sgTable table

/-- The `priv` of a buffer of the page exporter. -/
def pageOf (buf : Buf) : Slot :=
  match buf.priv with
  | .page p => .page p
  | .data _ => .garbage

/-- `sg_dma_address(sg) = address`. -/
def setDmaAddress (sgl : KPtr) (address : ℕ) : KProg Unit := do
  match ← loadSgl sgl with
  | e :: es => storeSgl sgl ({ e with dmaAddress := address } :: es)
  | [] => throw .outOfBounds

/-- `sg_dma_address(sg)`. -/
def getDmaAddress (sgl : KPtr) : KProg ℕ := do
  match ← loadSgl sgl with
  | e :: _ => return e.dmaAddress
  | [] => throw .outOfBounds

/-- `exporter_map_dma_buf` of dma-buf/08; it does not look at what `dma_map_page` returns. -/
def exporterMapDmaBuf (buf : Buf) (dir : DmaDir) (o : MapOutcome) : KProg (Ptr KPtr) := do
  let table ← kmalloc 16 (.sgTable none) o.table
  if table = .null then return .err ENOMEM
  let err ← sgAllocTable table 1 o.sgl
  if err ≠ 0 then
    kfree .sgTable table
    return .err (-err)
  let t ← loadTable table
  sgSetPage (.entry t.sgl 0) (pageOf buf) pageSize
  setDmaAddress t.sgl (← dmaMapPage o.dmaAddress dir)
  return .obj table

/-- `exporter_unmap_dma_buf` of dma-buf/08. -/
def exporterUnmapDmaBuf (table : KPtr) (dir : DmaDir) : KProg Unit := do
  let t ← loadTable table
  dmaUnmap (.page (← getDmaAddress t.sgl) pageSize dir)
  sgFreeTable table
  kfree .sgTable table

/-- `ops->map_dma_buf`. -/
def Ops.mapDmaBuf : Ops → Buf → DmaDir → MapOutcome → KProg (Ptr KPtr)
  | .page => exporterMapDmaBuf
  | .ion => ionMapDmaBuf

/-- `ops->unmap_dma_buf`. -/
def Ops.unmapDmaBuf : Ops → KPtr → DmaDir → KProg Unit
  | .page => exporterUnmapDmaBuf
  | .ion => ionUnmapDmaBuf

/-! ## Access by the CPU -/

/-- Synchronise the mapping of the first attachment for the CPU or for the device; the number of
entries is what the exporter says. -/
def cpuAccess (forCpu : Bool) (nents : SgTable → ℕ) (buf : Buf) (dir : DmaDir) : KProg ℤ := do
  match buf.attachments with
  | [] => return 0
  | attachment :: _ =>
    let table ← loadTable attachment.priv
    dmaSyncSg forCpu table.sgl (nents table) dir
    return 0

/-- `ion_begin_cpu_access`. -/
def ionBeginCpuAccess : Buf → DmaDir → KProg ℤ := cpuAccess true SgTable.nents
/-- `ion_end_cpu_access`. -/
def ionEndCpuAccess : Buf → DmaDir → KProg ℤ := cpuAccess false SgTable.nents
/-- `exporter_begin_cpu_access` of dma-buf/08. -/
def exporterBeginCpuAccess : Buf → DmaDir → KProg ℤ := cpuAccess true fun _ ↦ 1
/-- `exporter_end_cpu_access` of dma-buf/08. -/
def exporterEndCpuAccess : Buf → DmaDir → KProg ℤ := cpuAccess false fun _ ↦ 1

/-- `ops->begin_cpu_access`. -/
def Ops.beginCpuAccess : Ops → Buf → DmaDir → KProg ℤ
  | .page => exporterBeginCpuAccess
  | .ion => ionBeginCpuAccess

/-- `ops->end_cpu_access`. -/
def Ops.endCpuAccess : Ops → Buf → DmaDir → KProg ℤ
  | .page => exporterEndCpuAccess
  | .ion => ionEndCpuAccess

/-! ## Mapping for the kernel -/

/-- The pages `pages[0..n)` of an array. -/
def slotPages (pages : ℕ → Slot) (n : ℕ) : Option (List Page) :=
  (List.range n).mapM fun i ↦
    match pages i with
    | .page p => some p
    | _ => none

/-- `ion_vmap`: `vm_map_ram` of the pages of the buffer, `none` for `NULL`. -/
def ionVmap (buf : Buf) (o : Option Addr) : KProg (Option Addr) := do
  let data ← loadIonData (ionDataOf buf)
  let npages ← loadNpages (ionDataOf buf)
  match slotPages data.pages (rounds npages) with
  | none => throw .uninitialised
  | some ps =>
    let k ← get
    match o with
    | some v =>
      if (k.vmaps v).isNone then
        set { k with vmaps := Function.update k.vmaps v (some ps) }
        return some v
      else return none
    | none => return none

/-- `ion_vunmap`: `vm_unmap_ram` of as many pages as the buffer has. -/
def ionVunmap (buf : Buf) (vaddr : Addr) : KProg Unit := do
  let npages ← loadNpages (ionDataOf buf)
  let k ← get
  if (k.vmaps vaddr).map List.length = some (rounds npages) then
    set { k with vmaps := Function.update k.vmaps vaddr none }
  else throw .badUnmap

/-! ## What they do not touch -/

theorem keeps_loadIonData (data : KPtr) : Keeps KState.memory (loadIonData data) := by
  intro k
  cases data with
  | null => rfl
  | zeroSize => rfl
  | addr a =>
    simp only [loadIonData, wp_bind, wp_get]
    split <;> rfl

theorem keeps_loadNpages (data : KPtr) : Keeps KState.memory (loadNpages data) := by
  refine (keeps_loadIonData data).bind fun d ↦ ?_
  split
  · exact .pure _
  · exact .throw _

theorem keeps_loadPage (data : KPtr) (i : ℕ) : Keeps KState.memory (loadPage data i) :=
  (keeps_loadIonData data).bind fun _ ↦ .ite (.throw _) (.pure _)

/-- Freeing a table and its entries. -/
theorem keeps_freeTable {α : Type} (table : KPtr) (r : α) :
    Keeps KState.memory (do sgFreeTable table; kfree .sgTable table; return r : KProg α) :=
  (keeps_sgFreeTable table).bind fun _ ↦ (keeps_kfree (by decide) table).bind fun _ ↦ .pure r

theorem keeps_ionMapDmaBuf (buf : Buf) (dir : DmaDir) (o : MapOutcome) :
    Keeps KState.memory (ionMapDmaBuf buf dir o) := by
  refine (keeps_kmalloc fun d ↦ by simp).bind fun table ↦ .ite (.pure _) ?_
  refine (keeps_loadNpages _).bind fun npages ↦ (keeps_sgAllocTable table _ _).bind fun err ↦ ?_
  refine .ite ((keeps_kfree (by decide) table).bind fun _ ↦ .pure _) ?_
  refine (keeps_loadTable table).bind fun t ↦ .bind (.forFrom (fun i sg ↦ ?_) _ _ _) fun _ ↦ ?_
  · exact (keeps_loadPage _ i).bind fun page ↦ (keeps_sgSetPage sg page _).bind fun _ ↦
      (keeps_sgNext sg).bind fun _ ↦ .pure _
  · exact (keeps_dmaMapSg _ _ _ _).bind fun n ↦ .ite (keeps_freeTable table _) (.pure _)

theorem keeps_exporterMapDmaBuf (buf : Buf) (dir : DmaDir) (o : MapOutcome) :
    Keeps KState.memory (exporterMapDmaBuf buf dir o) := by
  refine (keeps_kmalloc fun d ↦ by simp).bind fun table ↦ .ite (.pure _) ?_
  refine (keeps_sgAllocTable table _ _).bind fun err ↦ ?_
  refine .ite ((keeps_kfree (by decide) table).bind fun _ ↦ .pure _) ?_
  refine (keeps_loadTable table).bind fun t ↦ (keeps_sgSetPage _ _ _).bind fun _ ↦ ?_
  refine (keeps_dmaMapPage _ _).bind fun address ↦ .bind ?_ fun _ ↦ .pure _
  refine (keeps_loadSgl t.sgl).bind fun es ↦ ?_
  split
  · exact keeps_storeSgl _ _
  · exact .throw _

theorem keeps_mapDmaBuf (ops : Ops) (buf : Buf) (dir : DmaDir) (o : MapOutcome) :
    Keeps KState.memory (ops.mapDmaBuf buf dir o) := by
  cases ops with
  | page => exact keeps_exporterMapDmaBuf buf dir o
  | ion => exact keeps_ionMapDmaBuf buf dir o

theorem keeps_unmapDmaBuf (ops : Ops) (table : KPtr) (dir : DmaDir) :
    Keeps KState.memory (ops.unmapDmaBuf table dir) := by
  cases ops with
  | page =>
    refine (keeps_loadTable table).bind fun t ↦ .bind ?_ fun address ↦ ?_
    · refine (keeps_loadSgl t.sgl).bind fun es ↦ ?_
      split
      · exact .pure _
      · exact .throw _
    · exact (keeps_dmaUnmap _).bind fun _ ↦ (keeps_sgFreeTable table).bind fun _ ↦
        keeps_kfree (by decide) table
  | ion =>
    exact (keeps_loadTable table).bind fun t ↦ (keeps_dmaUnmapSg _ _ _).bind fun _ ↦
      (keeps_sgFreeTable table).bind fun _ ↦ keeps_kfree (by decide) table

theorem keeps_cpuAccess (forCpu : Bool) (nents : SgTable → ℕ) (buf : Buf) (dir : DmaDir) :
    Keeps KState.memory (cpuAccess forCpu nents buf dir) := by
  rw [cpuAccess]
  split
  · exact .pure _
  · exact (keeps_loadTable _).bind fun t ↦ (keeps_dmaSyncSg _ _ _ _).bind fun _ ↦ .pure _

theorem keeps_ionVmap (buf : Buf) (o : Option Addr) : Keeps KState.memory (ionVmap buf o) := by
  refine (keeps_loadIonData _).bind fun data ↦ (keeps_loadNpages _).bind fun npages ↦ ?_
  split
  · exact .throw _
  · intro k
    rw [wp_bind, wp_get]
    split
    · split <;> rfl
    · rfl

theorem keeps_ionVunmap (buf : Buf) (vaddr : Addr) :
    Keeps KState.memory (ionVunmap buf vaddr) := by
  refine (keeps_loadNpages _).bind fun npages k ↦ ?_
  rw [wp_bind, wp_get]
  split <;> rfl

end DmaBuf
