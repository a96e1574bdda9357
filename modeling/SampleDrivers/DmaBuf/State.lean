import Mathlib.Data.Finset.Basic
import Mathlib.Data.Multiset.AddSub
import SampleDrivers.Kernel.Vma
import SampleDrivers.Lib.Prog

/-!
# The kernel as the exporters see it

Everything an exporter can touch is one record, `KState`: the pages handed out and their contents,
the heap, the mappings made for devices and for the kernel, the live buffers, and the descriptors
and page tables of the processes.  The kernel functions the exporters call are programs on it.

* What such a function cannot decide by itself (whether there is memory, which page or address or
  number is found) is an argument, its *outcome*.  An outcome that names something in use counts
  as a failure, so no outcome can break the state.
* A program faults (`Oops`) where the C code would crash or corrupt memory: a dereference of `NULL`
  or of an error pointer, a store outside an allocation, a use of something uninitialised or freed,
  a page put that was not handed out.
* `gets` and `puts` count, for every page, how often it was handed out and given back; the bytes of
  a page are `stale` as long as they were not written since it was last handed out.
-/

set_option autoImplicit false

namespace DmaBuf

open Kernel

/-! ## What there is -/

/-- An address in kernel memory. -/
abbrev Addr := ℕ
/-- A `dma_buf`. -/
abbrev BufId := ℕ
/-- A process. -/
abbrev Pid := ℕ

/-- How a kernel function can go wrong. -/
inductive Oops
  | nullDeref
  | errDeref
  | outOfBounds
  | uninitialised
  | useAfterFree
  | badPut
  | badUnmap
  deriving DecidableEq, Repr

/-- A pointer returned by `kmalloc`; `ZERO_SIZE_PTR` is not `NULL`, but points to nothing. -/
inductive KPtr
  | null
  | zeroSize
  | addr (a : Addr)
  deriving DecidableEq, Repr

/-- A `struct page *` in memory that `kmalloc` did not clear. -/
inductive Slot
  | garbage
  | null
  | page (p : Page)
  deriving DecidableEq, Repr

/-- `struct ion_data`, in an allocation of `bytes` bytes. -/
structure IonData where
  bytes : ℕ
  /-- `none` until it is first written. -/
  npages : Option (BitVec 32)
  pages : ℕ → Slot

/-- An entry of a scatter list. -/
structure SgEntry where
  page : Slot
  length : ℕ
  dmaAddress : ℕ
  dmaLength : ℕ
  deriving DecidableEq, Repr

/-- `struct sg_table`. -/
structure SgTable where
  sgl : KPtr
  nents : ℕ
  origNents : ℕ
  deriving DecidableEq, Repr

/-- What an address of the heap holds. -/
inductive HeapObj
  | ionData (d : IonData)
  /-- `none` until `sg_alloc_table` has filled it in. -/
  | sgTable (t : Option SgTable)
  /-- The chunks of a scatter list, their entries in the order of `sg_next`. -/
  | sgl (es : List SgEntry)

/-- The type of the pointers to an object. -/
inductive HeapKind
  | ionData
  | sgTable
  | sgl
  deriving DecidableEq, Repr

/-- The kind of an object. -/
def HeapObj.kind : HeapObj → HeapKind
  | .ionData _ => .ionData
  | .sgTable _ => .sgTable
  | .sgl _ => .sgl

/-- `enum dma_data_direction`. -/
inductive DmaDir
  | bidirectional
  | toDevice
  | fromDevice
  deriving DecidableEq, Repr

/-- A live mapping for a device, with what it was made for: `dma_map_sg`, `dma_map_page` or
`dma_map_single`. -/
inductive DmaMapping
  | sg (sgl : KPtr) (nents : ℕ) (dir : DmaDir)
  | page (dmaAddress : ℕ) (size : ℕ) (dir : DmaDir)
  | single (dmaAddress : ℕ) (size : ℕ) (dir : DmaDir)
  deriving DecidableEq, Repr

/-- `dma_sync_sg_for_cpu` and `dma_sync_sg_for_device`. -/
structure DmaSync where
  forCpu : Bool
  sgl : KPtr
  nents : ℕ
  dir : DmaDir
  deriving DecidableEq, Repr

/-- `struct dma_buf_attachment`. -/
structure Attachment where
  id : ℕ
  dev : ℕ
  /-- The exporter's pointer; the core clears it. -/
  priv : KPtr
  deriving DecidableEq, Repr

/-- The exporters, by their table of operations. -/
inductive Ops
  /-- dma-buf/08, `exporter-page.c`. -/
  | page
  /-- dma-buf/09, `exporter-ion.c`. -/
  | ion
  deriving DecidableEq, Repr

/-- `dma_buf->priv`: a page for the page exporter, the `ion_data` for ion. -/
inductive Priv
  | page (p : Page)
  | data (p : KPtr)
  deriving DecidableEq, Repr

/-- `struct dma_buf`. -/
structure Buf where
  ops : Ops
  size : BitVec 64
  priv : Priv
  /-- The list `attachments`, first entry first. -/
  attachments : List Attachment
  deriving DecidableEq, Repr

/-- A byte of memory. -/
structure Byte where
  val : UInt8
  /-- Nobody has written it since the page it is in was handed out. -/
  stale : Bool
  deriving DecidableEq

/-- The state of the kernel. -/
structure KState where
  /-- The pages that `alloc_page` has handed out and `put_page` has not taken back. -/
  pages : Finset Page
  gets : Page → ℕ
  puts : Page → ℕ
  ram : Page → ℕ → Byte
  heap : Addr → Option HeapObj
  dma : Multiset DmaMapping
  syncs : List DmaSync
  /-- Where `vm_map_ram` has mapped pages for the kernel. -/
  vmaps : Addr → Option (List Page)
  /-- The buffers that are live. -/
  bufs : BufId → Option Buf
  fds : Pid → ℕ → Option BufId
  tables : Pid → PageTable

/-- A kernel in which nothing was allocated yet. -/
def KState.boot : KState where
  pages := ∅
  gets _ := 0
  puts _ := 0
  ram _ _ := ⟨0, false⟩
  heap _ := none
  dma := 0
  syncs := []
  vmaps _ := none
  bufs _ := none
  fds _ _ := none
  tables _ := ⟨fun _ ↦ none, []⟩

/-- Change the page table of a process. -/
def KState.setTable (k : KState) (pid : Pid) (pt : PageTable) : KState :=
  { k with tables := Function.update k.tables pid pt }

@[simp] theorem KState.setTable_tables_self (k : KState) (pid : Pid) (pt : PageTable) :
    (k.setTable pid pt).tables pid = pt := Function.update_self ..

@[simp] theorem KState.setTable_setTable (k : KState) (pid : Pid) (pt pt' : PageTable) :
    (k.setTable pid pt).setTable pid pt' = k.setTable pid pt' :=
  congrArg (fun tables ↦ { k with tables := tables }) (Function.update_idem ..)

@[simp] theorem KState.setTable_self (k : KState) (pid : Pid) :
    k.setTable pid (k.tables pid) = k :=
  congrArg (fun tables ↦ { k with tables := tables }) (Function.update_eq_self ..)

/-- A kernel function. -/
abbrev KProg := Prog KState Oops

/-! ## Pages -/

/-- The number of page frames a 64-bit address space can have. -/
def maxPfn : ℕ := 2 ^ 52

/-- What `alloc_page` finds: a page, with what its last user left in it. -/
structure Grant where
  page : Page
  content : ℕ → UInt8

/-- The page is free. -/
def KState.Free (k : KState) (p : Page) : Prop := p ∉ k.pages ∧ p < maxPfn

instance (k : KState) (p : Page) : Decidable (k.Free p) :=
  inferInstanceAs (Decidable (_ ∧ _))

/-- Hand out a page. -/
def KState.grant (k : KState) (g : Grant) : KState :=
  { k with
    pages := insert g.page k.pages
    gets := Function.update k.gets g.page (k.gets g.page + 1)
    ram := Function.update k.ram g.page fun off ↦ ⟨g.content off, true⟩ }

/-- Take a page back. -/
def KState.put (k : KState) (p : Page) : KState :=
  { k with
    pages := k.pages.erase p
    puts := Function.update k.puts p (k.puts p + 1) }

/-- `alloc_page(GFP_KERNEL)`; `none` for `NULL`. -/
def allocPage (o : Option Grant) : KProg (Option Page) := do
  let k ← get
  match o with
  | some g =>
    if k.Free g.page then
      set (k.grant g)
      return some g.page
    else return none
  | none => return none

/-- `put_page`. -/
def putPage : Slot → KProg Unit
  | .page p => do
    let k ← get
    if p ∈ k.pages then set (k.put p) else throw .badPut
  | .null => throw .nullDeref
  | .garbage => throw .uninitialised

section

variable {k : KState} {E : Oops → KState → Prop}

@[simp] theorem mem_grant_pages {g : Grant} {p : Page} :
    p ∈ (k.grant g).pages ↔ p = g.page ∨ p ∈ k.pages := Finset.mem_insert

@[simp] theorem mem_put_pages {p q : Page} : q ∈ (k.put p).pages ↔ q ≠ p ∧ q ∈ k.pages :=
  Finset.mem_erase

theorem wp_allocPage_of_free {g : Grant} {Q : Option Page → KState → Prop} (h : k.Free g.page) :
    Prog.wp (allocPage (some g)) Q E k ↔ Q (some g.page) (k.grant g) := by
  simp [allocPage, h]

/-- Where nothing is found, or what is found is not free, there is no page. -/
theorem wp_allocPage_of_not_free {o : Option Grant} {Q : Option Page → KState → Prop}
    (h : ∀ g, o = some g → ¬ k.Free g.page) : Prog.wp (allocPage o) Q E k ↔ Q none k := by
  cases o with
  | none => simp [allocPage]
  | some g => simp [allocPage, h g rfl]

theorem wp_putPage {p : Page} {Q : Unit → KState → Prop} (h : p ∈ k.pages) :
    Prog.wp (putPage (.page p)) Q E k ↔ Q () (k.put p) := by
  simp [putPage, h]

end

/-! ## The heap -/

/-- Change what an address holds. -/
def KState.setHeap (k : KState) (a : Addr) (o : Option HeapObj) : KState :=
  { k with heap := Function.update k.heap a o }

/-- `kmalloc` of `bytes` bytes, for an object that is `obj` as long as it is not written. -/
def kmalloc (bytes : ℕ) (obj : HeapObj) (o : Option Addr) : KProg KPtr := do
  if bytes = 0 then return .zeroSize
  let k ← get
  match o with
  | some a =>
    if (k.heap a).isNone then
      set (k.setHeap a (some obj))
      return .addr a
    else return .null
  | none => return .null

/-- `kfree`, of a pointer to objects of a kind. -/
def kfree (kind : HeapKind) : KPtr → KProg Unit
  | .addr a => do
    let k ← get
    if (k.heap a).map HeapObj.kind = some kind then set (k.setHeap a none)
    else throw .useAfterFree
  | _ => return ()

/-- The `ion_data` a pointer designates. -/
def loadIonData : KPtr → KProg IonData
  | .addr a => do
    match (← get).heap a with
    | some (.ionData d) => return d
    | _ => throw .useAfterFree
  | .zeroSize => throw .outOfBounds
  | .null => throw .nullDeref

/-- `data->npages = npages`. -/
def storeNpages (data : KPtr) (npages : BitVec 32) : KProg Unit := do
  let d ← loadIonData data
  match data with
  | .addr a =>
    if d.bytes < 8 then throw .outOfBounds
    modify fun k ↦ k.setHeap a (some (.ionData { d with npages := some npages }))
  | _ => throw .nullDeref

/-- `data->pages[i] = page`. -/
def storePage (data : KPtr) (i : ℕ) (page : Slot) : KProg Unit := do
  let d ← loadIonData data
  match data with
  | .addr a =>
    if d.bytes < 8 + 8 * (i + 1) then throw .outOfBounds
    modify fun k ↦ k.setHeap a (some (.ionData { d with pages := Function.update d.pages i page }))
  | _ => throw .nullDeref

/-- `data->npages`. -/
def loadNpages (data : KPtr) : KProg (BitVec 32) := do
  match (← loadIonData data).npages with
  | some n => return n
  | none => throw .uninitialised

/-- `data->pages[i]`. -/
def loadPage (data : KPtr) (i : ℕ) : KProg Slot := do
  let d ← loadIonData data
  if d.bytes < 8 + 8 * (i + 1) then throw .outOfBounds
  return d.pages i

section

variable {k : KState} {E : Oops → KState → Prop} {a : Addr} {d : IonData}

theorem KState.setHeap_heap_self (k : KState) (a : Addr) (o : Option HeapObj) :
    (k.setHeap a o).heap a = o := Function.update_self ..

theorem KState.setHeap_heap_of_ne (k : KState) {a a' : Addr} (o : Option HeapObj) (h : a' ≠ a) :
    (k.setHeap a o).heap a' = k.heap a' := Function.update_of_ne h ..

@[simp] theorem KState.setHeap_pages (k : KState) (a : Addr) (o : Option HeapObj) :
    (k.setHeap a o).pages = k.pages := rfl

theorem wp_kmalloc_zero {obj : HeapObj} {o : Option Addr} {Q : KPtr → KState → Prop} :
    Prog.wp (kmalloc 0 obj o) Q E k ↔ Q .zeroSize k := by
  simp [kmalloc]

theorem wp_kmalloc_of_free {bytes : ℕ} {obj : HeapObj} {Q : KPtr → KState → Prop}
    (hb : bytes ≠ 0) (h : k.heap a = none) :
    Prog.wp (kmalloc bytes obj (some a)) Q E k ↔ Q (.addr a) (k.setHeap a (some obj)) := by
  simp [kmalloc, hb, h]

theorem wp_kmalloc_of_not_free {bytes : ℕ} {obj : HeapObj} {o : Option Addr}
    {Q : KPtr → KState → Prop} (hb : bytes ≠ 0) (h : ∀ a, o = some a → k.heap a ≠ none) :
    Prog.wp (kmalloc bytes obj o) Q E k ↔ Q .null k := by
  cases o with
  | none => simp [kmalloc, hb]
  | some a => simp [kmalloc, hb, h a rfl]

theorem wp_kfree {Q : Unit → KState → Prop} {obj : HeapObj} (h : k.heap a = some obj) :
    Prog.wp (kfree obj.kind (.addr a)) Q E k ↔ Q () (k.setHeap a none) := by
  simp [kfree, h]

/-- `kmalloc` keeps what does not depend on an address where nothing was. -/
theorem keeps_kmalloc_of {γ : Type} {view : KState → γ} {bytes : ℕ} {obj : HeapObj}
    {o : Option Addr}
    (h : ∀ k a, k.heap a = none → view (k.setHeap a (some obj)) = view k) :
    Prog.Keeps view (kmalloc bytes obj o) := by
  intro k
  by_cases hb : bytes = 0
  · rw [hb, wp_kmalloc_zero]
    rfl
  by_cases hfree : ∃ a, o = some a ∧ k.heap a = none
  · obtain ⟨a, rfl, ha⟩ := hfree
    rw [wp_kmalloc_of_free hb ha]
    exact h k a ha
  · rw [wp_kmalloc_of_not_free hb fun a ha hk ↦ hfree ⟨a, ha, hk⟩]
    rfl

/-- `kfree` keeps what does not depend on the objects it frees. -/
theorem keeps_kfree_of {γ : Type} {view : KState → γ} {kind : HeapKind}
    (h : ∀ k a, (k.heap a).map HeapObj.kind = some kind → view (k.setHeap a none) = view k)
    (p : KPtr) : Prog.Keeps view (kfree kind p) := by
  intro k
  cases p with
  | null => rfl
  | zeroSize => rfl
  | addr a =>
    simp only [kfree, Prog.wp_bind, Prog.wp_get]
    split
    · rename_i hkind
      exact h k a hkind
    · rfl

theorem wp_loadIonData {Q : IonData → KState → Prop} (h : k.heap a = some (.ionData d)) :
    Prog.wp (loadIonData (.addr a)) Q E k ↔ Q d k := by
  simp [loadIonData, h]

theorem wp_storeNpages {Q : Unit → KState → Prop} {n : BitVec 32}
    (h : k.heap a = some (.ionData d)) (hb : 8 ≤ d.bytes) :
    Prog.wp (storeNpages (.addr a) n) Q E k ↔
      Q () (k.setHeap a (some (.ionData { d with npages := some n }))) := by
  have hb' : ¬ d.bytes < 8 := Nat.not_lt.mpr hb
  simp [storeNpages, wp_loadIonData h, hb']

theorem wp_storePage {Q : Unit → KState → Prop} {i : ℕ} {page : Slot}
    (h : k.heap a = some (.ionData d)) (hb : 8 + 8 * (i + 1) ≤ d.bytes) :
    Prog.wp (storePage (.addr a) i page) Q E k ↔
      Q () (k.setHeap a (some (.ionData { d with pages := Function.update d.pages i page }))) := by
  have hb' : ¬ d.bytes < 8 + 8 * (i + 1) := Nat.not_lt.mpr hb
  simp [storePage, wp_loadIonData h, hb']

theorem wp_loadNpages {Q : BitVec 32 → KState → Prop} {n : BitVec 32}
    (h : k.heap a = some (.ionData d)) (hn : d.npages = some n) :
    Prog.wp (loadNpages (.addr a)) Q E k ↔ Q n k := by
  simp [loadNpages, wp_loadIonData h, hn]

theorem wp_loadPage {Q : Slot → KState → Prop} {i : ℕ} (h : k.heap a = some (.ionData d))
    (hb : 8 + 8 * (i + 1) ≤ d.bytes) :
    Prog.wp (loadPage (.addr a) i) Q E k ↔ Q (d.pages i) k := by
  have hb' : ¬ d.bytes < 8 + 8 * (i + 1) := Nat.not_lt.mpr hb
  simp [loadPage, wp_loadIonData h, hb']

end

/-! ## Buffers and descriptors -/

/-- The buffer, which has to be live. -/
def loadBuf (b : BufId) : KProg Buf := do
  match (← get).bufs b with
  | some buf => return buf
  | none => throw .useAfterFree

/-- `dma_buf_export`; it fails with an error pointer. -/
def dmaBufExport (buf : Buf) (o : Option BufId) : KProg (Ptr BufId) := do
  let k ← get
  match o with
  | some b =>
    if (k.bufs b).isNone then
      set { k with bufs := Function.update k.bufs b (some buf) }
      return .obj b
    else return .err ENOMEM
  | none => return .err ENOMEM

/-- `dma_buf_fd` by process `pid`.  It refuses `NULL`, and dereferences everything else. -/
def dmaBufFd (pid : Pid) (dmabuf : Ptr BufId) (o : Option ℕ) : KProg ℤ := do
  match dmabuf with
  | .null => return -EINVAL
  | .err _ => throw .errDeref
  | .obj b =>
    let _ ← loadBuf b
    let k ← get
    match o with
    | some fd =>
      if (k.fds pid fd).isNone then
        set { k with
          fds := Function.update k.fds pid (Function.update (k.fds pid) fd (some b)) }
        return fd
      else return -EMFILE
    | none => return -EMFILE

section

variable {k : KState} {E : Oops → KState → Prop} {b : BufId} {buf : Buf}

theorem wp_loadBuf {Q : Buf → KState → Prop} (h : k.bufs b = some buf) :
    Prog.wp (loadBuf b) Q E k ↔ Q buf k := by
  simp [loadBuf, h]

theorem wp_dmaBufExport_of_free {Q : Ptr BufId → KState → Prop} (h : k.bufs b = none) :
    Prog.wp (dmaBufExport buf (some b)) Q E k ↔
      Q (.obj b) { k with bufs := Function.update k.bufs b (some buf) } := by
  simp [dmaBufExport, h]

theorem wp_dmaBufExport_of_not_free {o : Option BufId} {Q : Ptr BufId → KState → Prop}
    (h : ∀ b, o = some b → k.bufs b ≠ none) :
    Prog.wp (dmaBufExport buf o) Q E k ↔ Q (.err ENOMEM) k := by
  cases o with
  | none => simp [dmaBufExport]
  | some b => simp [dmaBufExport, h b rfl]

end

end DmaBuf
