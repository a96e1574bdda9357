import SampleDrivers.DmaBuf.Callbacks
import SampleDrivers.DmaBuf.IonIoctl
import SampleDrivers.DmaBuf.IonMmap

/-!
# What user processes see of the exported pages

The processes get descriptors of buffers from the page exporter (dma-buf/08) and from ion
(dma-buf/09), map the buffers, and read and write the bytes of the mappings.

* `exporterAllocPage`, `exporterMmap`, `exporterRelease` — the rest of the page exporter: its page
  is filled with the greeting, which is shorter than the page.
* `dmaBufMmap` — the check the core makes before it calls the exporter.
* `World` — the kernel together with the private copies the processes have of pages they have
  written in a private area.
* `UserOp`, `World.next` — everything that can happen, in any order, and what it does.
* `reads` — the bytes read along a run.
-/

set_option autoImplicit false

namespace DmaBuf

open Kernel

/-! ## The page exporter of dma-buf/08 -/

/-- What `sprintf(_, "hello world!")` writes. -/
def greeting : List UInt8 := [104, 101, 108, 108, 111, 32, 119, 111, 114, 108, 100, 33, 0]

def sprintf (page : Page) (s : List UInt8) : KProg Unit :=
  modify fun k ↦ { k with
    ram := Function.update k.ram page fun off ↦
      match s[off]? with
      | some c => ⟨c, false⟩
      | none => k.ram page off }

/-- What the kernel finds for `exporter_alloc_page`. -/
structure PageOutcome where
  page : Option Grant
  dmabuf : Option BufId

def exporterAllocPage (o : PageOutcome) : KProg (Ptr BufId) := do
  match ← allocPage o.page with
  | none => return .null
  | some page =>
    let dmabuf ← dmaBufExport ⟨.page, 4096, .page page, []⟩ o.dmabuf
    if dmabuf.isErr then
      putPage (.page page)
      return .null
    sprintf page greeting
    return dmabuf

def exporterRelease (buf : Buf) : KProg Unit := putPage (pageOf buf)

def exporterMmap (buf : Buf) (pid : Pid) (vma : Vma) (mem : ℕ → Bool) : KProg ℤ := do
  let pfn ← pageToPfn (pageOf buf)
  remapPfn pid vma vma.vmStart pfn pageSize (mem 0)

/-- Process `pid` is given a descriptor. -/
def exporterIoctl (dmabufExported : Ptr BufId) (pid : Pid) (fd : Option ℕ) (copiedOut : Bool) :
    KProg ℤ := do
  let _ ← dmaBufFd pid dmabufExported fd
  if copiedOut = false then return -EFAULT
  return 0

def Ops.mmap : Ops → Buf → Pid → Vma → (ℕ → Bool) → KProg ℤ
  | .page => exporterMmap
  | .ion => ionMmap

def Ops.release : Ops → Buf → KProg Unit
  | .page => exporterRelease
  | .ion => ionRelease

def O_CLOEXEC : BitVec 32 := 0x80000

/-- `exp_info.flags`. -/
def Ops.flags : Ops → BitVec 32
  | .page => O_CLOEXEC
  | .ion => O_CLOEXEC

/-- The file that the core opens with `exp_info.flags` may be written: `FMODE_WRITE` of
`OPEN_FMODE(flags)`. -/
def fmodeWrite (flags : BitVec 32) : Bool := (flags + 1) &&& 3 &&& 2 ≠ 0

theorem Ops.fmodeWrite_flags (ops : Ops) : fmodeWrite ops.flags = false := by
  cases ops <;> decide

/-- `dma_buf_mmap_internal`: the area has to lie inside the buffer. -/
def dmaBufMmap (b : BufId) (pid : Pid) (vma : Vma) (mem : ℕ → Bool) : KProg ℤ := do
  let buf ← loadBuf b
  if buf.size.toNat / pageSize < vma.vmPgoff + vma.pages then return -EINVAL
  buf.ops.mmap buf pid vma mem

/-- The end of a buffer: the exporter's `release`, and the `dma_buf` is freed. -/
def dmaBufRelease (b : BufId) : KProg Unit := do
  let buf ← loadBuf b
  buf.ops.release buf
  modify fun k ↦ { k with bufs := Function.update k.bufs b none }

namespace UserMemory

/-! ## The memory of the processes -/

/-- What a process may do with a page of an area. -/
inductive Access
  | readOnly
  | shared
  | copyOnWrite
  deriving DecidableEq, Repr

/-- The access an area gives; one that is private and writable is copied when it is written. -/
def Access.ofVma (vma : Vma) (writable : Bool) : Access :=
  if writable then if vma.cow then .copyOnWrite else .shared else .readOnly

structure World where
  k : KState
  /-- The global of dma-buf/08. -/
  dmabufExported : Ptr BufId
  /-- How the page at an address was mapped. -/
  access : Pid → ℕ → Access
  /-- The copies made of pages of private areas, where no page of a buffer is mapped any more. -/
  copies : Pid → ℕ → Option (ℕ → Byte)

/-- Nothing is loaded and nothing is mapped. -/
def World.boot : World := ⟨.boot, .null, fun _ _ ↦ .readOnly, fun _ _ ↦ none⟩

def pageBase (addr : ℕ) : ℕ := pageSize * (addr / pageSize)

/-- The bytes of a page after one of them was written. -/
def storeByte (bytes : ℕ → Byte) (off : ℕ) (val : UInt8) : ℕ → Byte :=
  Function.update bytes off ⟨val, false⟩

namespace World

/-- Remove the mappings of the addresses from `start` up to `stop`. -/
def unmap (w : World) (pid : Pid) (start stop : ℕ) : World :=
  let pt := w.k.tables pid
  { w with
    k := w.k.setTable pid
      { pt with pte := fun a ↦ if start ≤ a ∧ a < stop then none else pt.pte a }
    copies := Function.update w.copies pid fun a ↦
      if start ≤ a ∧ a < stop then none else w.copies pid a }

/-- The byte at an address of a process, `none` where nothing is mapped. -/
def byte (w : World) (pid : Pid) (addr : ℕ) : Option Byte :=
  match (w.k.tables pid).pte (pageBase addr) with
  | some p => some (w.k.ram p (addr % pageSize))
  | none => (w.copies pid (pageBase addr)).map fun c ↦ c (addr % pageSize)

/-- Give a process a copy of its own in place of the page at an address. -/
def setCopy (w : World) (pid : Pid) (base : ℕ) (bytes : ℕ → Byte) : World :=
  let pt := w.k.tables pid
  { w with
    k := w.k.setTable pid { pt with pte := Function.update pt.pte base none }
    copies := Function.update w.copies pid (Function.update (w.copies pid) base (some bytes)) }

def storeRam (w : World) (p : Page) (off : ℕ) (val : UInt8) : World :=
  { w with k := { w.k with ram := Function.update w.k.ram p (storeByte (w.k.ram p) off val) } }

/-- A process writes a byte.  Where it may not, nothing is written. -/
def write (w : World) (pid : Pid) (addr : ℕ) (val : UInt8) : World :=
  match (w.k.tables pid).pte (pageBase addr) with
  | some p =>
    match w.access pid (pageBase addr) with
    | .readOnly => w
    | .shared => w.storeRam p (addr % pageSize) val
    | .copyOnWrite => w.setCopy pid (pageBase addr) (storeByte (w.k.ram p) (addr % pageSize) val)
  | none =>
    match w.copies pid (pageBase addr) with
    | some c => w.setCopy pid (pageBase addr) (storeByte c (addr % pageSize) val)
    | none => w

def call {α : Type} (w : World) (x : KProg α) : World := { w with k := x.final w.k }

def setAccess (w : World) (pid : Pid) (vma : Vma) (writable : Bool) : World :=
  { w with
    access := Function.update w.access pid fun a ↦
      if vma.vmStart ≤ a ∧ a < vma.vmEnd then .ofVma vma writable else w.access pid a }

/-- The buffer that `mmap` of a descriptor maps: one that is to be shared and written needs a file
that may be written. -/
def mappable (w : World) (pid : Pid) (fd : ℕ) (vma : Vma) (writable : Bool) : Option BufId :=
  (w.k.fds pid fd).filter fun b ↦
    vma.cow || !writable || (w.k.bufs b).any fun buf ↦ fmodeWrite buf.ops.flags

/-- `mmap` of a descriptor.  What was mapped in the area before is unmapped first, and so is the
area itself when the buffer cannot be mapped. -/
def mmap (w : World) (pid : Pid) (fd : ℕ) (vma : Vma) (writable : Bool) (mem : ℕ → Bool) : World :=
  match w.mappable pid fd vma writable with
  | none => w
  | some b =>
    let w₁ := (w.unmap pid vma.vmStart vma.vmEnd).setAccess pid vma writable
    let w₂ := w₁.call (dmaBufMmap b pid vma mem)
    if (dmaBufMmap b pid vma mem).result w₁.k = some 0 then w₂
    else w₂.unmap pid vma.vmStart vma.vmEnd

section

variable {w : World} {pid : Pid} {fd : ℕ} {vma : Vma} {writable : Bool} {b : BufId}

theorem fds_of_mappable (h : w.mappable pid fd vma writable = some b) : w.k.fds pid fd = some b :=
  (Option.filter_eq_some_iff.mp h).1

/-- **No file of an exporter may be written**: no area that is shared is writable. -/
theorem ofVma_of_mappable (h : w.mappable pid fd vma writable = some b) :
    Access.ofVma vma writable ≠ .shared := by
  have hmay := (Option.filter_eq_some_iff.mp h).2
  simp only [Ops.fmodeWrite_flags, Option.any_false, Bool.or_false, Bool.or_eq_true,
    Bool.not_eq_true'] at hmay
  rw [Access.ofVma]
  rcases hmay with hcow | hread
  · rw [if_pos hcow]
    split <;> decide
  · rw [hread, if_neg Bool.false_ne_true]
    decide

end

end World

/-! ## Runs -/

/-- What can happen, with what the environment decides about it. -/
inductive UserOp
  /-- dma-buf/08 is loaded. -/
  | exporterInit (o : PageOutcome)
  | exporterIoctl (pid : Pid) (fd : Option ℕ) (copiedOut : Bool)
  | ionIoctl (pid : Pid) (cmd : BitVec 32) (len : BitVec 64) (o : IonIoctlOutcome)
  | mmap (pid : Pid) (fd : ℕ) (vma : Vma) (writable : Bool) (mem : ℕ → Bool)
  | munmap (pid : Pid) (start stop : ℕ)
  | read (pid : Pid) (addr : ℕ)
  | write (pid : Pid) (addr : ℕ) (val : UInt8)
  | close (pid : Pid) (fd : ℕ)
  /-- The last reference to a buffer goes; this may happen at any moment. -/
  | release (b : BufId)

/-- What an operation does; `ionIocAlloc` is the number `ION_IOC_ALLOC`. -/
def World.next (ionIocAlloc : BitVec 32) (w : World) : UserOp → World
  | .exporterInit o =>
    let x := exporterAllocPage o
    { w.call x with dmabufExported := (x.result w.k).getD .null }
  | .exporterIoctl pid fd copiedOut => w.call (exporterIoctl w.dmabufExported pid fd copiedOut)
  | .ionIoctl pid cmd len o => w.call (ionIoctl ionIocAlloc pid cmd len o)
  | .mmap pid fd vma writable mem => w.mmap pid fd vma writable mem
  | .munmap pid start stop => w.unmap pid start stop
  | .read _ _ => w
  | .write pid addr val => w.write pid addr val
  | .close pid fd =>
    { w with k := { w.k with
      fds := Function.update w.k.fds pid (Function.update (w.k.fds pid) fd none) } }
  | .release b => w.call (dmaBufRelease b)

/-- The byte an operation reads, if it reads one: `none` if nothing is mapped where it reads. -/
def World.observe (w : World) : UserOp → List (Option UInt8)
  | .read pid addr => [(w.byte pid addr).map Byte.val]
  | _ => []

/-- The bytes the processes read in a run. -/
def reads (ionIocAlloc : BitVec 32) : World → List UserOp → List (Option UInt8)
  | _, [] => []
  | w, op :: ops => w.observe op ++ reads ionIocAlloc (w.next ionIocAlloc op) ops

end UserMemory

end DmaBuf
