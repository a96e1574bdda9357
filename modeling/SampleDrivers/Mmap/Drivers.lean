import Mathlib.Tactic.Common
import SampleDrivers.Kernel.Vma

/-!
# The four mmap demo drivers

Each of the drivers `mmap1.c` to `mmap4.c` lets a process map its three-page buffer, and each finds
the page for an address in its own way:

* mmap1 maps the whole area at once with `remap_pfn_range`, adding `vm_pgoff` to the frame number
  of the buffer;
* mmap2 inserts a page at each fault, at an offset into the buffer computed as an `int`;
* mmap3 has no buffer but a table of three pages, filled at the first fault and indexed by the page
  offset;
* mmap4 returns the page to the core, at an offset computed as an `unsigned long`.

None of them compares the offset with the size of the buffer.
-/

set_option autoImplicit false

namespace Mmap

open Kernel

/-- The buffer `kaddr` of mmap1, mmap2 and mmap4, once `kzalloc(PAGE_SIZE * 3)` has succeeded, and
the start of the linear map of physical memory it lies in. -/
structure Buffer where
  kaddr : ℕ
  pageOffset : ℕ
  kaddr_aligned : pageSize ∣ kaddr
  pageOffset_aligned : pageSize ∣ pageOffset
  pageOffset_le : pageOffset ≤ kaddr
  kaddr_fits : kaddr + 3 * pageSize ≤ 2 ^ 64

namespace Buffer

variable (b : Buffer)

/-- `virt_to_phys`, in 64-bit arithmetic. -/
def virtToPhys (v : ℕ) : ℕ := (v + (2 ^ 64 - b.pageOffset)) % 2 ^ 64

/-- `virt_to_page`. -/
def virtToPage (v : ℕ) : ℕ := b.virtToPhys v / pageSize

/-- The frame of page `i` of the buffer. -/
def frame (i : ℕ) : ℕ := (b.kaddr - b.pageOffset) / pageSize + i

/-- The pages of the buffer. -/
def page? (i : ℕ) : Option Page := if i < 3 then some (b.frame i) else none

/-- The address of the buffer and of the linear map, counted in pages. -/
theorem exists_pages : ∃ k p : ℕ, b.kaddr = pageSize * k ∧ b.pageOffset = pageSize * p ∧ p ≤ k ∧
    k + 3 ≤ 2 ^ 52 ∧ ∀ i, b.frame i = k - p + i := by
  obtain ⟨k, hk⟩ := b.kaddr_aligned
  obtain ⟨p, hp⟩ := b.pageOffset_aligned
  have hle := b.pageOffset_le
  have hfits := b.kaddr_fits
  rw [hk, hp] at hle
  rw [hk] at hfits
  simp only [pageSize] at hle hfits
  refine ⟨k, p, hk, hp, by omega, by omega, fun i ↦ ?_⟩
  rw [frame, hk, hp, ← Nat.mul_sub, Nat.mul_div_cancel_left _ pageSize_pos]

/-- Page arithmetic of `virt_to_page`, modulo the `2 ^ 52` pages of a 64-bit address space. -/
theorem virtToPage_pages {p : ℕ} (hp : b.pageOffset = pageSize * p) (n : ℕ) :
    b.virtToPage (pageSize * n) = (n + (2 ^ 52 - p)) % 2 ^ 52 := by
  have hphys : b.virtToPhys (pageSize * n) = pageSize * ((n + (2 ^ 52 - p)) % 2 ^ 52) := by
    rw [virtToPhys, hp, ← Nat.mul_mod_mul_left, Nat.mul_add, Nat.mul_sub]
    rfl
  rw [virtToPage, hphys, Nat.mul_div_cancel_left _ pageSize_pos]

/-- The frame number mmap1 starts from. -/
theorem virtToPhys_kaddr : b.virtToPhys b.kaddr / pageSize = b.frame 0 := by
  obtain ⟨k, p, hk, hp, hle, hfits, hframe⟩ := b.exists_pages
  rw [hframe, virtToPhys, hk, hp]
  simp only [pageSize]
  omega

/-- The address `pageSize * i` into the buffer is in its page `i`. -/
theorem virtToPage_kaddr {i : ℕ} (hi : i < 3) :
    b.virtToPage ((b.kaddr + pageSize * i % 2 ^ 64) % 2 ^ 64) = b.frame i := by
  obtain ⟨k, p, hk, hp, hle, hfits, hframe⟩ := b.exists_pages
  rw [hframe, virtToPage, virtToPhys, hk, hp]
  simp only [pageSize]
  omega

end Buffer

/-! ## mmap1 -/

/-- `my_mmap` of mmap1. -/
def mmap1MyMmap (b : Buffer) (vma : Vma) (mem : Bool) (pt : PageTable) : ℤ × PageTable :=
  remapPfnRange vma vma.vmStart ((b.virtToPhys b.kaddr / pageSize + vma.vmPgoff) % 2 ^ 64)
    (vma.vmEnd - vma.vmStart) mem pt

/-! ## The fault handlers -/

/-- A page fault: the address of the page and its offset in the file, in pages. -/
structure VmFault where
  address : ℕ
  pgoff : ℕ

/-- The fault the kernel raises for an access to `addr` in the area. -/
def vmFault (vma : Vma) (addr : ℕ) : VmFault :=
  ⟨addr - addr % pageSize, vma.vmPgoff + (addr - vma.vmStart) / pageSize⟩

/-- What a fault handler answers. -/
inductive FaultRet
  /-- `VM_FAULT_SIGBUS`. -/
  | sigbus
  /-- `VM_FAULT_NOPAGE`: the handler has installed the page. -/
  | nopage
  /-- Zero: the core installs `vmf->page`. -/
  | mapPage
  /-- No answer: the handler dereferenced `NULL` or left its table. -/
  | oops
  deriving DecidableEq, Repr

/-- A run of a fault handler. -/
structure Handled where
  ret : FaultRet
  /-- The page the handler resolved the fault to, `none` for `NULL`. -/
  resolved : Option Page
  /-- The page that is mapped at the address afterwards by this fault. -/
  installed : Option Page
  /-- The handler read `pages[]` only inside its bounds. -/
  inBounds : Bool
  pt : PageTable

/-- A handler that inserts its page with `vm_insert_page`, which reads the page first. -/
def insertResolved (vmf : VmFault) (page : Option Page) (mem : Bool) (pt : PageTable) : Handled :=
  match page with
  | none => ⟨.oops, none, none, true, pt⟩
  | some p =>
    if (vmInsertPage vmf.address p mem pt).1 ≠ 0 then
      ⟨.sigbus, some p, none, true, (vmInsertPage vmf.address p mem pt).2⟩
    else ⟨.nopage, some p, some p, true, (vmInsertPage vmf.address p mem pt).2⟩

/-- The conversion of an `unsigned long` to `int`. -/
def toInt32 (n : ℕ) : ℤ := (n : ℤ).bmod (2 ^ 32)

/-- The `int offset` of mmap2: the product is an `unsigned long`. -/
def mmap2Offset (pgoff : ℕ) : ℤ := toInt32 (pageSize * pgoff % 2 ^ 64)

/-- `my_fault` of mmap2. -/
def mmap2MyFault (b : Buffer) (vmf : VmFault) (mem : Bool) (pt : PageTable) : Handled :=
  insertResolved vmf (some (b.virtToPage ((b.kaddr + mmap2Offset vmf.pgoff) % 2 ^ 64).toNat)) mem pt

/-- The table `pages` of mmap3, `none` for `NULL`. -/
abbrev Pages := Fin 3 → Option Page

/-- The first half of `my_fault` of mmap3: an empty entry is filled by `alloc_page`, which returns
`none` when there is no memory. -/
def mmap3Fill (pages : Pages) (i : Fin 3) (alloc : Option Page) : Pages :=
  if (pages i).isNone then Function.update pages i alloc else pages

/-- `my_fault` of mmap3. -/
def mmap3MyFault (pages : Pages) (vmf : VmFault) (alloc : Option Page) (mem : Bool)
    (pt : PageTable) : Handled × Pages :=
  if h : vmf.pgoff < 3 then
    let pages' := mmap3Fill pages ⟨vmf.pgoff, h⟩ alloc
    (insertResolved vmf (pages' ⟨vmf.pgoff, h⟩) mem pt, pages')
  else (⟨.oops, none, none, false, pt⟩, pages)

/-- `my_fault` of mmap4; the core installs the page. -/
def mmap4MyFault (b : Buffer) (vmf : VmFault) (pt : PageTable) : Handled :=
  let page := b.virtToPage ((b.kaddr + pageSize * vmf.pgoff % 2 ^ 64) % 2 ^ 64)
  ⟨.mapPage, some page, some page, true, pt.install vmf.address page⟩

end Mmap
