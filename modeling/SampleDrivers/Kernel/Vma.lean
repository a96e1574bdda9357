import Mathlib.Logic.Function.Basic
import Mathlib.Data.List.Basic
import SampleDrivers.Kernel.Basic

/-!
# Virtual memory areas and page tables

What a driver's `mmap` and `fault` callbacks see of memory management: the area of user addresses
being mapped, and the two ways of putting pages into it.

* `Vma` — a `vm_area_struct`; the kernel guarantees that it is page aligned, not empty, and that
  neither its addresses nor its file offsets wrap.
* `PageTable` — the entries, together with the addresses that were ever written.
* `remapPfnRange` — installs the range it is given without comparing it with the end of the area;
  in a private writable area it insists on being given the whole of it.
* `vmInsertPage` — installs one page into an empty entry and refuses one that is present.
-/

set_option autoImplicit false

namespace Kernel

/-- A physical page, by its frame number. -/
abbrev Page := ℕ

/-- An area of user addresses that is being mapped. -/
structure Vma where
  /-- The first address. -/
  vmStart : ℕ
  /-- The address after the last. -/
  vmEnd : ℕ
  /-- The file offset of the first address, in pages. -/
  vmPgoff : ℕ
  /-- The area is private and writable (copy on write). -/
  cow : Bool
  start_aligned : pageSize ∣ vmStart
  end_aligned : pageSize ∣ vmEnd
  start_lt_end : vmStart < vmEnd
  end_lt : vmEnd < 2 ^ 64
  pgoff_lt : vmPgoff + (vmEnd - vmStart) / pageSize < 2 ^ 64

namespace Vma

variable (vma : Vma)

/-- The number of pages of the area. -/
def pages : ℕ := (vma.vmEnd - vma.vmStart) / pageSize

/-- The address of page `k` of the area. -/
def addr (k : ℕ) : ℕ := vma.vmStart + pageSize * k

theorem vmEnd_eq : vma.vmEnd = vma.addr vma.pages := by
  have hdvd : pageSize ∣ vma.vmEnd - vma.vmStart :=
    Nat.dvd_sub vma.end_aligned vma.start_aligned
  rw [addr, pages, Nat.mul_div_cancel' hdvd]
  exact (Nat.add_sub_cancel' (Nat.le_of_lt vma.start_lt_end)).symm

theorem pages_pos : 0 < vma.pages := by
  refine Nat.div_pos (Nat.le_of_dvd ?_ ?_) pageSize_pos
  · exact Nat.sub_pos_of_lt vma.start_lt_end
  · exact Nat.dvd_sub vma.end_aligned vma.start_aligned

theorem addr_lt {k : ℕ} (hk : k < vma.pages) : vma.addr k < 2 ^ 64 := by
  have hend := vma.vmEnd_eq ▸ vma.end_lt
  simp only [addr, pageSize] at hend ⊢
  omega

/-- An area of `n` pages at page `start`, mapping a file from page `off` on. -/
def ofPages (start n off : ℕ) (cow : Bool) (hn : 0 < n) (hend : pageSize * (start + n) < 2 ^ 64)
    (hoff : off + n < 2 ^ 64) : Vma where
  vmStart := pageSize * start
  vmEnd := pageSize * (start + n)
  vmPgoff := off
  cow := cow
  start_aligned := Nat.dvd_mul_right pageSize start
  end_aligned := Nat.dvd_mul_right pageSize (start + n)
  start_lt_end := Nat.mul_lt_mul_of_pos_left (Nat.lt_add_of_pos_right hn) pageSize_pos
  end_lt := hend
  pgoff_lt := by
    rw [← Nat.mul_sub, Nat.add_sub_cancel_left, Nat.mul_div_cancel_left n pageSize_pos]
    exact hoff

@[simp] theorem ofPages_pages {start n off : ℕ} {cow : Bool} (hn : 0 < n)
    (hend : pageSize * (start + n) < 2 ^ 64) (hoff : off + n < 2 ^ 64) :
    (ofPages start n off cow hn hend hoff).pages = n := by
  rw [pages, ofPages, ← Nat.mul_sub, Nat.add_sub_cancel_left,
    Nat.mul_div_cancel_left n pageSize_pos]

theorem le_addr (k : ℕ) : vma.vmStart ≤ vma.addr k := Nat.le_add_right ..

theorem addr_lt_vmEnd {k : ℕ} : vma.addr k < vma.vmEnd ↔ k < vma.pages := by
  rw [vma.vmEnd_eq, addr, addr, Nat.add_lt_add_iff_left]
  exact Nat.mul_lt_mul_left pageSize_pos

end Vma

/-- The page-table entries of a process, and which of them were written. -/
structure PageTable where
  /-- The page an address is mapped to. -/
  pte : ℕ → Option Page
  /-- The addresses whose entry was written, latest first. -/
  writes : List ℕ

namespace PageTable

/-- Write one entry. -/
def install (pt : PageTable) (addr : ℕ) (page : Page) : PageTable :=
  ⟨Function.update pt.pte addr (some page), addr :: pt.writes⟩

/-- Write `n` consecutive entries, in 64-bit arithmetic. -/
def installRange (pt : PageTable) (addr pfn : ℕ) : ℕ → PageTable
  | 0 => pt
  | n + 1 => (pt.installRange addr pfn n).install ((addr + pageSize * n) % 2 ^ 64)
      ((pfn + n) % 2 ^ 64)

variable (pt : PageTable)

@[simp] theorem install_pte_self (addr : ℕ) (page : Page) :
    (pt.install addr page).pte addr = some page := Function.update_self ..

theorem install_pte_of_ne {addr addr' : ℕ} (page : Page) (h : addr' ≠ addr) :
    (pt.install addr page).pte addr' = pt.pte addr' := Function.update_of_ne h ..

@[simp] theorem install_writes (addr : ℕ) (page : Page) :
    (pt.install addr page).writes = addr :: pt.writes := rfl

/-- In a range that does not wrap, page `k` is mapped to frame `pfn + k`. -/
theorem installRange_pte {addr pfn n k : ℕ} (hk : k < n) (hend : addr + pageSize * n ≤ 2 ^ 64) :
    (pt.installRange addr pfn n).pte (addr + pageSize * k) = some ((pfn + k) % 2 ^ 64) := by
  induction n with
  | zero => exact absurd hk (Nat.not_lt_zero k)
  | succ n ih =>
    have hlast : (addr + pageSize * n) % 2 ^ 64 = addr + pageSize * n := by
      refine Nat.mod_eq_of_lt ?_
      simp only [pageSize] at hend ⊢
      omega
    rw [installRange, hlast]
    rcases Nat.lt_succ_iff_lt_or_eq.mp hk with hk | rfl
    · have hne : addr + pageSize * k ≠ addr + pageSize * n := by
        simp only [pageSize]
        omega
      rw [install_pte_of_ne _ _ hne]
      exact ih hk (by simp only [pageSize] at hend ⊢; omega)
    · exact install_pte_self ..

/-- Since `pt`, only entries of addresses in the area were written. -/
def WritesWithin (vma : Vma) (pt pt' : PageTable) : Prop :=
  ∃ new, pt'.writes = new ++ pt.writes ∧ ∀ a ∈ new, vma.vmStart ≤ a ∧ a < vma.vmEnd

theorem installRange_writes (addr pfn n : ℕ) :
    (pt.installRange addr pfn n).writes =
      ((List.range n).map fun k ↦ (addr + pageSize * k) % 2 ^ 64).reverse ++ pt.writes := by
  induction n with
  | zero => rfl
  | succ n ih =>
    rw [installRange, install_writes, ih, List.range_succ, List.map_append, List.reverse_append]
    rfl

end PageTable

/-- `remap_pfn_range` of `size` bytes at `addr` to the frames from `pfn` on.  `mem` says whether
page-table memory is found. -/
def remapPfnRange (vma : Vma) (addr pfn size : ℕ) (mem : Bool) (pt : PageTable) : ℤ × PageTable :=
  if vma.cow = true ∧ ¬ (addr = vma.vmStart ∧ addr + size = vma.vmEnd) then (-EINVAL, pt)
  else if mem = true then (0, pt.installRange addr pfn (size / pageSize))
  else (-ENOMEM, pt)

/-- `vm_insert_page`: an entry that is present is refused. -/
def vmInsertPage (addr : ℕ) (page : Page) (mem : Bool) (pt : PageTable) : ℤ × PageTable :=
  if (pt.pte addr).isSome then (-EBUSY, pt)
  else if mem = true then (0, pt.install addr page)
  else (-ENOMEM, pt)

end Kernel
