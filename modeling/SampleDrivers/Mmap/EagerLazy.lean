import SampleDrivers.Lib.OnDemand
import SampleDrivers.Mmap.Isolation

/-!
# When the lazy drivers show what the eager driver maps

mmap1 maps its area in advance, from the frame of its buffer plus `vm_pgoff` on.  mmap2 and mmap4
wait for a fault and compute an address in the buffer, mmap2 in an `int`.  The page table of an area
of theirs is a table that is filled on demand, and every access, be it the first of its page or
not, sees the page the handler computes for its offset.

* `lazyTable` — the page table of an area under a fault handler, and `serves_of_installs`.
* `mmap1Page` — the page mmap1 maps at an address.
* `mmap_lazy_eq_eager_iff` — the three drivers show the same pages to a sequence of accesses
  exactly if the frame of each is one the address space has, and its byte offset fits into the
  `int`.
-/

set_option autoImplicit false

namespace Mmap

open Kernel

/-- The address is inside the area. -/
def Inside (vma : Vma) (addr : ℕ) : Prop := vma.vmStart ≤ addr ∧ addr < vma.vmEnd

instance (vma : Vma) (addr : ℕ) : Decidable (Inside vma addr) :=
  inferInstanceAs (Decidable (_ ∧ _))

/-- The page table of an area whose faults go to `handler`, which is told whether there is memory
for page tables. -/
def lazyTable (handler : VmFault → Bool → PageTable → Handled) (vma : Vma) :
    OnDemand ℕ Page PageTable Bool where
  lookup pt addr := pt.pte (addr - addr % pageSize)
  fetch pt addr mem :=
    ((handler (vmFault vma addr) mem pt).resolved, (handler (vmFault vma addr) mem pt).pt)

/-- The page mmap1 maps at an address. -/
def mmap1Page (b : Buffer) (vma : Vma) (pt : PageTable) (addr : ℕ) : Option Page :=
  (mmap1MyMmap b vma true pt).2.pte (addr - addr % pageSize)

/-- The page mmap2 computes for an offset. -/
def mmap2Page (b : Buffer) (off : ℕ) : ℕ :=
  b.virtToPage ((b.kaddr + mmap2Offset off) % 2 ^ 64).toNat

/-- The page mmap4 computes for an offset. -/
def mmap4Page (b : Buffer) (off : ℕ) : ℕ :=
  b.virtToPage ((b.kaddr + pageSize * off % 2 ^ 64) % 2 ^ 64)

/-- The frame at offset `off` is one the `2 ^ 52` pages of the address space have, and as an offset
in bytes, modulo the address space, `off` fits into an `int`. -/
def IntReaches (b : Buffer) (off : ℕ) : Prop :=
  (b.frame 0 + off) % 2 ^ 64 < 2 ^ 52 ∧ (off % 2 ^ 52 < 2 ^ 19 ∨ 2 ^ 52 - 2 ^ 19 ≤ off % 2 ^ 52)

instance (b : Buffer) (off : ℕ) : Decidable (IntReaches b off) :=
  inferInstanceAs (Decidable (_ ∧ (_ ∨ _)))

/-! ## What each driver finds -/

section

variable {vma : Vma} {addr : ℕ}

/-- The page of an access is one of the pages of the area. -/
theorem Inside.page (h : Inside vma addr) :
    (addr - vma.vmStart) / pageSize < vma.pages ∧
      addr - addr % pageSize = vma.addr ((addr - vma.vmStart) / pageSize) := by
  obtain ⟨n, hn⟩ := vma.start_aligned
  obtain ⟨hle, hlt⟩ := h
  have hend := vma.vmEnd_eq
  rw [Vma.addr, hn] at hend
  rw [hn] at hle
  rw [Vma.addr, hn]
  simp only [pageSize] at *
  omega

/-- Accesses to one page have one offset. -/
theorem accessOffset_congr {addr' : ℕ} (h : Inside vma addr) (h' : Inside vma addr')
    (hpage : addr' - addr' % pageSize = addr - addr % pageSize) :
    accessOffset vma addr' = accessOffset vma addr := by
  have hk := h.page.2
  rw [← hpage, h'.page.2, Vma.addr, Vma.addr, Nat.add_left_cancel_iff] at hk
  rw [accessOffset, accessOffset, Nat.eq_of_mul_eq_mul_left pageSize_pos hk]

/-- A handler that finds a page by the offset and installs at most this page serves the area. -/
theorem serves_of_installs {handler : VmFault → Bool → PageTable → Handled} {f : ℕ → Page}
    (h : ∀ vmf mem pt, (handler vmf mem pt).resolved = some (f vmf.pgoff) ∧
      ((handler vmf mem pt).pt = pt ∨
        (handler vmf mem pt).pt = pt.install vmf.address (f vmf.pgoff))) :
    (lazyTable handler vma).Serves (Inside vma) fun addr ↦ f (accessOffset vma addr) := by
  refine ⟨fun pt addr mem _ ↦ (h (vmFault vma addr) mem pt).1, fun pt addr mem addr' hin hin' ↦ ?_⟩
  simp only [lazyTable]
  rcases (h (vmFault vma addr) mem pt).2 with hpt | hpt <;> rw [hpt]
  · exact .inl rfl
  · by_cases hpage : addr' - addr' % pageSize = addr - addr % pageSize
    · refine .inr ?_
      rw [accessOffset_congr hin hin' hpage, hpage]
      exact PageTable.install_pte_self ..
    · exact .inl (pt.install_pte_of_ne _ hpage)

/-- A new area has no entries, right or wrong. -/
theorem filled_of_new {handler : VmFault → Bool → PageTable → Handled} {f : ℕ → Page}
    {pt : PageTable} (hnew : ∀ k < vma.pages, pt.pte (vma.addr k) = none) :
    (lazyTable handler vma).Filled (Inside vma) f pt := by
  intro addr v hin hv
  simp only [lazyTable] at hv
  rw [hin.page.2, hnew _ hin.page.1] at hv
  exact absurd hv (by simp)

variable (b : Buffer)

/-- mmap1 adds the offset to the frame. -/
theorem mmap1Page_eq (pt : PageTable) (h : Inside vma addr) :
    mmap1Page b vma pt addr = some ((b.frame 0 + accessOffset vma addr) % 2 ^ 64) := by
  have hend : vma.vmStart + pageSize * vma.pages ≤ 2 ^ 64 := by
    rw [← Vma.addr, ← vma.vmEnd_eq]
    exact Nat.le_of_lt vma.end_lt
  rw [mmap1Page, mmap1MyMmap_eq, if_pos rfl, h.page.2, Vma.addr, pt.installRange_pte h.page.1 hend,
    Nat.mod_add_mod, Nat.add_assoc, accessOffset]

/-- mmap2 finds the page at the `int` offset, and inserts no other. -/
theorem mmap2_installs (vmf : VmFault) (mem : Bool) (pt : PageTable) :
    (mmap2MyFault b vmf mem pt).resolved = some (mmap2Page b vmf.pgoff) ∧
      ((mmap2MyFault b vmf mem pt).pt = pt ∨
        (mmap2MyFault b vmf mem pt).pt = pt.install vmf.address (mmap2Page b vmf.pgoff)) := by
  have hresolved : (mmap2MyFault b vmf mem pt).resolved = some (mmap2Page b vmf.pgoff) ∧
      (mmap2MyFault b vmf mem pt).pt =
        (vmInsertPage vmf.address (mmap2Page b vmf.pgoff) mem pt).2 := by
    rw [mmap2MyFault, insertResolved]
    split <;> exact ⟨rfl, rfl⟩
  refine ⟨hresolved.1, ?_⟩
  rw [hresolved.2, vmInsertPage]
  split
  · exact .inl rfl
  · split
    · exact .inr rfl
    · exact .inl rfl

/-- mmap4 finds the page at the `unsigned long` offset. -/
theorem mmap4_installs (vmf : VmFault) (pt : PageTable) :
    (mmap4MyFault b vmf pt).resolved = some (mmap4Page b vmf.pgoff) ∧
      ((mmap4MyFault b vmf pt).pt = pt ∨
        (mmap4MyFault b vmf pt).pt = pt.install vmf.address (mmap4Page b vmf.pgoff)) :=
  ⟨rfl, .inr rfl⟩

/-- mmap4 finds the page mmap1 maps, modulo the address space. -/
theorem mmap4Page_eq (off : ℕ) : mmap4Page b off = (b.frame 0 + off) % 2 ^ 52 := by
  obtain ⟨k, p, hk, hp, hle, hfits, hframe⟩ := b.exists_pages
  have haddr : (b.kaddr + pageSize * off % 2 ^ 64) % 2 ^ 64 = pageSize * ((k + off) % 2 ^ 52) := by
    rw [Nat.add_mod_mod, hk, ← Nat.mul_add, ← Nat.mul_mod_mul_left]
    rfl
  rw [mmap4Page, haddr, b.virtToPage_pages hp, hframe]
  omega

/-- **One access**: the three formulas agree exactly where the offset fits into all of them. -/
theorem pages_agree_iff (off : ℕ) :
    mmap2Page b off = (b.frame 0 + off) % 2 ^ 64 ∧ mmap4Page b off = (b.frame 0 + off) % 2 ^ 64 ↔
      IntReaches b off := by
  obtain ⟨q, hq, hpage⟩ := mmap2_virtToPage_eq b off
  rw [mmap2Page, hpage, mmap4Page_eq, IntReaches]
  generalize b.frame 0 = frame
  split at hq <;> subst hq <;> omega

end

/-! ## Every sequence of accesses -/

/-- **Eager and lazy mappings.**  Whatever area is mapped, and whatever pages of it are accessed, in
any order, any number of times, and with or without memory for the page tables, mmap2 and mmap4
resolve each access to the page mmap1 maps at its address if and only if, for each access, that page
is one the address space has and the byte offset of the access fits into the `int` of mmap2. -/
theorem mmap_lazy_eq_eager_iff (b : Buffer) (vma : Vma) {pt : PageTable}
    (hnew : ∀ k < vma.pages, pt.pte (vma.addr k) = none) {accesses : List (ℕ × Bool)}
    (hin : ∀ a ∈ accesses, Inside vma a.1) :
    ((lazyTable (mmap2MyFault b) vma).reads pt accesses =
          accesses.map (fun a ↦ mmap1Page b vma pt a.1) ∧
        (lazyTable (fun vmf _ ↦ mmap4MyFault b vmf) vma).reads pt accesses =
          accesses.map fun a ↦ mmap1Page b vma pt a.1) ↔
      ∀ a ∈ accesses, IntReaches b (accessOffset vma a.1) := by
  rw [(serves_of_installs (mmap2_installs b)).reads_eq_map hin (filled_of_new hnew),
    (serves_of_installs fun vmf _ ↦ mmap4_installs b vmf).reads_eq_map hin (filled_of_new hnew),
    List.map_inj_left, List.map_inj_left, ← forall₂_and]
  refine forall₂_congr fun a ha ↦ ?_
  rw [mmap1Page_eq b pt (hin a ha), Option.some_inj, Option.some_inj]
  exact pages_agree_iff b _

/-- The area of the test program: three pages from the start of the buffer. -/
def testArea : Vma := Vma.ofPages 1 3 0 false (by decide) (by decide) (by decide)

/-- Two pages of the file beyond the reach of the `int`. -/
def farArea : Vma := Vma.ofPages 1 2 (2 ^ 19) false (by decide) (by decide) (by decide)

/-- The accesses of the test program and some more, in no particular order. -/
theorem mmap_lazy_eq_eager_testArea :
    (lazyTable (mmap2MyFault testBuffer) testArea).reads ⟨fun _ ↦ none, []⟩
        [(12288, true), (4096, true), (12289, true), (8192, false)] =
      [some 18, some 16, some 18, some 17] := by
  have hin : ∀ a ∈ [(12288, true), (4096, true), (12289, true), (8192, false)],
      Inside testArea a.1 := by
    decide
  rw [((mmap_lazy_eq_eager_iff testBuffer testArea (fun _ _ ↦ rfl) hin).mpr (by decide)).1]
  decide

/-- At offset `2 ^ 19` the `int` is negative, and mmap2 inserts a page from before its buffer. -/
theorem farArea_lazy_ne_eager :
    mmap1Page testBuffer farArea ⟨fun _ ↦ none, []⟩ 4096 = some (16 + 2 ^ 19) ∧
      (lazyTable (mmap2MyFault testBuffer) farArea).reads ⟨fun _ ↦ none, []⟩ [(4096, true)] =
        [some (2 ^ 52 + 16 - 2 ^ 19)] ∧
      (lazyTable (mmap2MyFault testBuffer) farArea).reads ⟨fun _ ↦ none, []⟩ [(4096, true)] ≠
        [mmap1Page testBuffer farArea ⟨fun _ ↦ none, []⟩ 4096] := by
  decide

end Mmap
