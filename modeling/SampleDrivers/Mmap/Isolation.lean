import SampleDrivers.Mmap.Drivers

/-!
# Which accesses the mmap demo drivers keep inside their buffer

A process chooses the length of its area and the file offset it starts at; nobody compares them
with the three pages the drivers have.  A driver is isolated at an access when it stays inside its
own buffer in finding the page, maps nothing but the page at the offset of the access, and refuses
an access beyond the third page.

`mmap_isolated_iff` says for each driver which accesses these are.  For mmap3 and mmap4 it is those
whose offset is below three, and no others.  For mmap1, which maps the whole area at once, the
whole area has to lie in the buffer.  The narrowed offset of mmap2 finds its way back into the
buffer every `2 ^ 20` pages; it then maps the wrong page, unless `vm_insert_page` refuses.
-/

set_option autoImplicit false

namespace Mmap

open Kernel

/-- What the eager driver has to have done to the area: refused it and mapped nothing, or mapped
each page of it to the page of the buffer at its offset and written nowhere else. -/
def EagerIsolated (b : Buffer) (vma : Vma) (pt : PageTable) (r : ℤ × PageTable) : Prop :=
  (r.1 < 0 ∧ r.2 = pt) ∨
    (r.1 = 0 ∧
      (∀ k < vma.pages, ∃ p, b.page? (vma.vmPgoff + k) = some p ∧ r.2.pte (vma.addr k) = some p) ∧
      PageTable.WritesWithin vma pt r.2)

/-- What a fault handler has to have done at offset `off`, for a driver whose pages are `own`. -/
structure FaultIsolated (own : ℕ → Option Page) (off : ℕ) (r : Handled) : Prop where
  /-- It did not read its table out of bounds. -/
  inBounds : r.inBounds = true
  /-- The page it found is one of the driver's. -/
  resolved_own : ∀ p, r.resolved = some p → ∃ i < 3, own i = some p
  /-- What it mapped is the driver's page at the offset. -/
  installed_own : ∀ p, r.installed = some p → off < 3 ∧ own off = some p
  /-- Beyond the buffer it refuses. -/
  refuses : 3 ≤ off → r.ret = .sigbus

/-- `vm_insert_page` would refuse the page. -/
def InsertRefuses (vmf : VmFault) (mem : Bool) (pt : PageTable) : Prop :=
  (pt.pte vmf.address).isSome = true ∨ mem = false

/-! ## mmap1 -/

theorem mmap1MyMmap_eq (b : Buffer) (vma : Vma) (mem : Bool) (pt : PageTable) :
    mmap1MyMmap b vma mem pt =
      if mem = true then
        (0, pt.installRange vma.vmStart ((b.frame 0 + vma.vmPgoff) % 2 ^ 64) vma.pages)
      else (-ENOMEM, pt) := by
  have hwhole : vma.vmStart + (vma.vmEnd - vma.vmStart) = vma.vmEnd :=
    Nat.add_sub_cancel' (Nat.le_of_lt vma.start_lt_end)
  rw [mmap1MyMmap, remapPfnRange, if_neg (by simp [hwhole]), b.virtToPhys_kaddr]
  rfl

/-- The eager driver is isolated exactly on the areas that lie in its buffer. -/
theorem mmap1_isolated_iff (b : Buffer) (vma : Vma) (mem : Bool) (pt : PageTable) :
    EagerIsolated b vma pt (mmap1MyMmap b vma mem pt) ↔
      mem = false ∨ vma.vmPgoff + vma.pages ≤ 3 := by
  rw [mmap1MyMmap_eq]
  cases mem with
  | false =>
    rw [if_neg (by simp)]
    exact iff_of_true (.inl ⟨by simp [ENOMEM], rfl⟩) (.inl rfl)
  | true =>
    rw [if_pos rfl]
    have hend : vma.vmStart + pageSize * vma.pages ≤ 2 ^ 64 := by
      have hlt := vma.end_lt
      rw [vma.vmEnd_eq, Vma.addr] at hlt
      exact Nat.le_of_lt hlt
    have hpte : ∀ k < vma.pages, (pt.installRange vma.vmStart
        ((b.frame 0 + vma.vmPgoff) % 2 ^ 64) vma.pages).pte (vma.addr k) =
          some (((b.frame 0 + vma.vmPgoff) % 2 ^ 64 + k) % 2 ^ 64) :=
      fun k hk ↦ pt.installRange_pte hk hend
    constructor
    · rintro (⟨hneg, -⟩ | ⟨-, hmap, -⟩)
      · exact absurd hneg (Int.lt_irrefl 0)
      · refine .inr ?_
        have hpos := vma.pages_pos
        obtain ⟨p, hp, -⟩ := hmap (vma.pages - 1) (by omega)
        rw [Buffer.page?] at hp
        split at hp
        · omega
        · exact absurd hp (by simp)
    · rintro (hmem | hin)
      · exact absurd hmem (by simp)
      · refine .inr ⟨rfl, fun k hk ↦ ⟨b.frame (vma.vmPgoff + k), ?_, ?_⟩,
          _, pt.installRange_writes _ _ _, fun a ha ↦ ?_⟩
        · rw [Buffer.page?, if_pos (by omega)]
        · obtain ⟨K, p, -, -, hle, hfits, hframe⟩ := b.exists_pages
          rw [hpte k hk, hframe, hframe]
          have hmod : ((K - p + 0 + vma.vmPgoff) % 2 ^ 64 + k) % 2 ^ 64 =
              K - p + (vma.vmPgoff + k) := by omega
          rw [hmod]
        · rw [List.mem_reverse, List.mem_map] at ha
          obtain ⟨k, hk, rfl⟩ := ha
          rw [List.mem_range] at hk
          have hlast : (vma.vmStart + pageSize * k) % 2 ^ 64 = vma.addr k :=
            Nat.mod_eq_of_lt (vma.addr_lt hk)
          rw [hlast]
          exact ⟨vma.le_addr k, vma.addr_lt_vmEnd.mpr hk⟩

/-! ## The handlers that insert their page -/

theorem vmInsertPage_ne_zero {vmf : VmFault} {p : Page} {mem : Bool} {pt : PageTable} :
    (vmInsertPage vmf.address p mem pt).1 ≠ 0 ↔ InsertRefuses vmf mem pt := by
  rw [vmInsertPage, InsertRefuses]
  split
  · rename_i h
    simp [h, EBUSY]
  · rename_i h
    cases mem <;> simp [h, ENOMEM]

/-- A handler that inserts the page it resolved is isolated when the page is the right one, or is
refused. -/
theorem insertResolved_isolated_iff {own : ℕ → Option Page} {vmf : VmFault} {off : ℕ} {p : Page}
    {mem : Bool} {pt : PageTable} :
    FaultIsolated own off (insertResolved vmf (some p) mem pt) ↔
      (∃ i < 3, own i = some p) ∧ (InsertRefuses vmf mem pt ∨ off < 3 ∧ own off = some p) := by
  rw [insertResolved]
  split
  · rename_i h
    have hrefuses := vmInsertPage_ne_zero.mp h
    constructor
    · exact fun hi ↦ ⟨hi.resolved_own p rfl, .inl hrefuses⟩
    · rintro ⟨hown, -⟩
      exact ⟨rfl, fun q hq ↦ Option.some_inj.mp hq ▸ hown, fun q hq ↦ absurd hq (by simp),
        fun _ ↦ rfl⟩
  · rename_i h
    have hinserts : ¬ InsertRefuses vmf mem pt := fun hr ↦ h (vmInsertPage_ne_zero.mpr hr)
    constructor
    · exact fun hi ↦ ⟨hi.resolved_own p rfl, .inr (hi.installed_own p rfl)⟩
    · rintro ⟨hown, hr | ⟨hoff, hp⟩⟩
      · exact absurd hr hinserts
      · exact ⟨rfl, fun q hq ↦ Option.some_inj.mp hq ▸ hown,
          fun q hq ↦ Option.some_inj.mp hq ▸ ⟨hoff, hp⟩, fun h3 ↦ absurd hoff (by omega)⟩

/-! ## mmap2 -/

/-- The `int` offset is a multiple of the page size, by the low 20 bits of the page offset. -/
theorem mmap2Offset_eq (off : ℕ) : ∃ q : ℤ, mmap2Offset off = pageSize * q ∧
    q = ((off % 2 ^ 20 : ℕ) : ℤ) - (if off % 2 ^ 20 < 2 ^ 19 then 0 else 2 ^ 20) := by
  refine ⟨_, ?_, rfl⟩
  have hlow : pageSize * off % 2 ^ 64 % 2 ^ 32 = pageSize * (off % 2 ^ 20) := by
    rw [Nat.mod_mod_of_dvd _ (by decide), ← Nat.mul_mod_mul_left]
    rfl
  have hcast : ((pageSize * off % 2 ^ 64 : ℕ) : ℤ) % ((2 ^ 32 : ℕ) : ℤ) =
      ((pageSize * (off % 2 ^ 20) : ℕ) : ℤ) := by
    rw [← Int.natCast_mod, hlow]
  have hhalf : (((2 ^ 32 : ℕ) : ℤ) + 1) / 2 = 2 ^ 31 := by decide
  unfold mmap2Offset toInt32
  rw [Int.bmod_def, hcast, hhalf]
  generalize off % 2 ^ 20 = low
  by_cases h : low < 2 ^ 19
  · rw [if_pos h, if_pos (by simp only [pageSize]; omega)]
    simp
  · rw [if_neg h, if_neg (by simp only [pageSize]; omega)]
    simp only [pageSize]
    omega

/-- The page mmap2 finds is `q` pages from the start of its buffer, around the address space. -/
theorem mmap2_virtToPage_eq (b : Buffer) (off : ℕ) : ∃ q : ℤ,
    q = ((off % 2 ^ 20 : ℕ) : ℤ) - (if off % 2 ^ 20 < 2 ^ 19 then 0 else 2 ^ 20) ∧
      b.virtToPage ((b.kaddr + mmap2Offset off) % 2 ^ 64).toNat =
        ((b.frame 0 + q) % 2 ^ 52).toNat := by
  obtain ⟨k, p, hk, hp, hle, hfits, hframe⟩ := b.exists_pages
  obtain ⟨q, hq, hqoff⟩ := mmap2Offset_eq off
  have haddr : ((b.kaddr + mmap2Offset off) % 2 ^ 64).toNat =
      pageSize * ((k + q) % 2 ^ 52).toNat := by
    have hmul : ((b.kaddr : ℤ) + mmap2Offset off) % 2 ^ 64 = pageSize * ((k + q) % 2 ^ 52) := by
      rw [hk, hq, Int.natCast_mul, ← Int.mul_add, ← Int.mul_emod_mul_of_pos _ _ (by decide)]
      rfl
    rw [hmul]
    simp only [pageSize]
    omega
  refine ⟨q, hqoff, ?_⟩
  rw [hframe, haddr, b.virtToPage_pages hp]
  omega

/-- The low 20 bits of the page offset decide which page mmap2 finds. -/
theorem mmap2_virtToPage (b : Buffer) (off i : ℕ) (hi : i < 3) :
    b.virtToPage ((b.kaddr + mmap2Offset off) % 2 ^ 64).toNat = b.frame i ↔ off % 2 ^ 20 = i := by
  obtain ⟨k, p, -, -, hle, hfits, hframe⟩ := b.exists_pages
  obtain ⟨q, hq, hpage⟩ := mmap2_virtToPage_eq b off
  have hlow : off % 2 ^ 20 < 2 ^ 20 := Nat.mod_lt _ (by decide)
  rw [hpage, hframe, hframe]
  generalize off % 2 ^ 20 = low at *
  split at hq <;> subst hq <;> omega

theorem mmap2_isolated_iff (b : Buffer) (vmf : VmFault) (mem : Bool) (pt : PageTable) :
    FaultIsolated b.page? vmf.pgoff (mmap2MyFault b vmf mem pt) ↔
      vmf.pgoff < 3 ∨ InsertRefuses vmf mem pt ∧ vmf.pgoff % 2 ^ 20 < 3 := by
  have hown : ∀ i p, b.page? i = some p ↔ i < 3 ∧ p = b.frame i := by
    intro i p
    rw [Buffer.page?]
    split
    · rename_i h
      simp [h, eq_comm]
    · rename_i h
      simp [h]
  rw [mmap2MyFault, insertResolved_isolated_iff]
  simp only [hown]
  constructor
  · rintro ⟨⟨i, hi, -, hp⟩, hr | ⟨hoff, -⟩⟩
    · rw [mmap2_virtToPage b _ i hi] at hp
      exact .inr ⟨hr, hp ▸ hi⟩
    · exact .inl hoff
  · rintro (hoff | ⟨hr, hoff⟩)
    · have hp := (mmap2_virtToPage b vmf.pgoff vmf.pgoff hoff).mpr (Nat.mod_eq_of_lt (by omega))
      exact ⟨⟨_, hoff, hoff, hp⟩, .inr ⟨hoff, hoff, hp⟩⟩
    · have hp := (mmap2_virtToPage b vmf.pgoff _ hoff).mpr rfl
      exact ⟨⟨_, hoff, hoff, hp⟩, .inl hr⟩

/-! ## mmap3 -/

/-- The pages of mmap3. -/
def Pages.page? (pages : Pages) (i : ℕ) : Option Page := if h : i < 3 then pages ⟨i, h⟩ else none

theorem mmap3_isolated_iff (pages : Pages) (vmf : VmFault) (alloc : Option Page) (mem : Bool)
    (pt : PageTable) :
    FaultIsolated (mmap3MyFault pages vmf alloc mem pt).2.page? vmf.pgoff
      (mmap3MyFault pages vmf alloc mem pt).1 ↔ vmf.pgoff < 3 := by
  by_cases h : vmf.pgoff < 3
  · simp only [mmap3MyFault, h, ↓reduceDIte, iff_true]
    have hown : Pages.page? (mmap3Fill pages ⟨vmf.pgoff, h⟩ alloc) vmf.pgoff =
        mmap3Fill pages ⟨vmf.pgoff, h⟩ alloc ⟨vmf.pgoff, h⟩ := by
      rw [Pages.page?, dif_pos h]
    cases hp : mmap3Fill pages ⟨vmf.pgoff, h⟩ alloc ⟨vmf.pgoff, h⟩ with
    | none =>
      exact ⟨rfl, fun _ hq ↦ absurd hq (by simp [insertResolved]),
        fun _ hq ↦ absurd hq (by simp [insertResolved]), fun h3 ↦ absurd h (by omega)⟩
    | some p =>
      rw [hp] at hown
      exact insertResolved_isolated_iff.mpr ⟨⟨_, h, hown⟩, .inr ⟨h, hown⟩⟩
  · simp only [mmap3MyFault, h, ↓reduceDIte, iff_false]
    exact fun hi ↦ absurd hi.inBounds (by simp)

/-! ## mmap4 -/

theorem mmap4_isolated_iff (b : Buffer) (vmf : VmFault) (pt : PageTable) :
    FaultIsolated b.page? vmf.pgoff (mmap4MyFault b vmf pt) ↔ vmf.pgoff < 3 := by
  constructor
  · intro h
    by_contra hoff
    exact absurd (h.refuses (Nat.le_of_not_lt hoff)) (by simp [mmap4MyFault])
  · intro h
    have hown : b.page? vmf.pgoff = some (b.virtToPage
        ((b.kaddr + pageSize * vmf.pgoff % 2 ^ 64) % 2 ^ 64)) := by
      rw [b.virtToPage_kaddr h, Buffer.page?, if_pos h]
    refine ⟨rfl, fun p hp ↦ ⟨_, h, ?_⟩, fun p hp ↦ ⟨h, ?_⟩, fun h3 ↦ absurd h (by omega)⟩
    · rw [hown]; exact hp
    · rw [hown]; exact hp

/-! ## All four -/

/-- The offset in the file, in pages, of an access. -/
def accessOffset (vma : Vma) (addr : ℕ) : ℕ :=
  vma.vmPgoff + (addr - vma.vmStart) / pageSize

/-- **Isolation of the mmap demo drivers.**  For every area a process can create and every access
to it, mmap3 and mmap4 are isolated if and only if the offset of the access is below three, mmap2
if and only if it is or the page it finds is in the buffer and not inserted, and mmap1 if and only
if the area lies in the buffer or is not mapped at all. -/
theorem mmap_isolated_iff (b : Buffer) (vma : Vma) (mem : Bool) (pt : PageTable) :
    (EagerIsolated b vma pt (mmap1MyMmap b vma mem pt) ↔
      mem = false ∨ vma.vmPgoff + vma.pages ≤ 3) ∧
    ∀ addr, (FaultIsolated b.page? (accessOffset vma addr)
        (mmap2MyFault b (vmFault vma addr) mem pt) ↔ accessOffset vma addr < 3 ∨
          InsertRefuses (vmFault vma addr) mem pt ∧ accessOffset vma addr % 2 ^ 20 < 3) ∧
      (∀ pages alloc, FaultIsolated
        (mmap3MyFault pages (vmFault vma addr) alloc mem pt).2.page? (accessOffset vma addr)
        (mmap3MyFault pages (vmFault vma addr) alloc mem pt).1 ↔ accessOffset vma addr < 3) ∧
      (FaultIsolated b.page? (accessOffset vma addr) (mmap4MyFault b (vmFault vma addr) pt) ↔
        accessOffset vma addr < 3) :=
  ⟨mmap1_isolated_iff b vma mem pt, fun addr ↦
    ⟨mmap2_isolated_iff b (vmFault vma addr) mem pt,
      fun pages alloc ↦ mmap3_isolated_iff pages (vmFault vma addr) alloc mem pt,
      mmap4_isolated_iff b (vmFault vma addr) pt⟩⟩

/-- A test process that asks for four pages, one more than the buffer has. -/
def fourPages : Vma := Vma.ofPages 1 4 0 false (by decide) (by decide) (by decide)

/-- The buffer of a driver at page 16 of the linear map. -/
def testBuffer : Buffer := ⟨65536, 0, by decide, by decide, by decide, by decide⟩

/-- **The fourth page is not the driver's.**  Asked for four pages, mmap1 maps the page after its
buffer; asked for the fourth page, mmap2 and mmap4 map it as well, and mmap3 leaves its table. -/
theorem fourPages_not_isolated :
    ¬ EagerIsolated testBuffer fourPages ⟨fun _ ↦ none, []⟩
        (mmap1MyMmap testBuffer fourPages true ⟨fun _ ↦ none, []⟩) ∧
      ¬ FaultIsolated testBuffer.page? 3
        (mmap2MyFault testBuffer (vmFault fourPages 16384) true ⟨fun _ ↦ none, []⟩) ∧
      ¬ FaultIsolated (mmap3MyFault (fun _ ↦ none) (vmFault fourPages 16384) none true
          ⟨fun _ ↦ none, []⟩).2.page? 3
        (mmap3MyFault (fun _ ↦ none) (vmFault fourPages 16384) none true ⟨fun _ ↦ none, []⟩).1 ∧
      ¬ FaultIsolated testBuffer.page? 3
        (mmap4MyFault testBuffer (vmFault fourPages 16384) ⟨fun _ ↦ none, []⟩) := by
  refine ⟨?_, ?_, ?_, ?_⟩
  · rintro (⟨hneg, -⟩ | ⟨-, hmap, -⟩)
    · exact absurd hneg (by decide)
    · obtain ⟨p, hp, -⟩ := hmap 3 (by decide)
      exact absurd hp (by simp [Buffer.page?, fourPages, Vma.ofPages])
  · exact fun h ↦ absurd (h.refuses (Nat.le_refl 3)) (by decide)
  · exact fun h ↦ absurd h.inBounds (by decide)
  · exact fun h ↦ absurd (h.refuses (Nat.le_refl 3)) (by decide)

end Mmap
