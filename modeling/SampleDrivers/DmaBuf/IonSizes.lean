import SampleDrivers.DmaBuf.Ion

/-!
# The sizes ion counts right

`ion_alloc` takes a 64-bit size, rounds it up to pages, and keeps the number of pages in an `int`.
The one check it makes is that this `int` is not zero.

* `pageCount` — the number of pages of a size, before it becomes an `int`.
* `SizesRight` — what the computation is for: the header has room for its pages, and a buffer is at
  least as large as it was asked for, by less than a page.
* `CountFits` — the sizes of less than `2 ^ 31` pages, and those whose number of pages becomes zero.
* `sizesRight_iff` — these are the sizes that are counted right, and all others are not.
-/

set_option autoImplicit false

namespace DmaBuf

open Kernel

/-- `PAGE_ALIGN(size) / PAGE_SIZE`. -/
def pageCount (size : BitVec 64) : ℕ := (size.toNat + 4095) % 2 ^ 64 / 4096

/-- What `ion_alloc` is to do with its size. -/
structure SizesRight (size : BitVec 64) : Prop where
  /-- Past the check, there are pages, and the header is as long as it has to be. -/
  header : ionNpages size ≠ 0 → 0 < (ionNpages size).toInt ∧
    ((ionBytes (ionNpages size)).toNat : ℤ) = 8 + 8 * (ionNpages size).toInt
  /-- No access leaves the header. -/
  inside : ∀ (k : KState) (o : AllocOutcome), ((ionAlloc size o).result k).isSome = true
  /-- A buffer has the size that was asked for, rounded up. -/
  rounded : ∀ (k : KState) (o : AllocOutcome) (b : BufId),
    (ionAlloc size o).result k = some (.obj b) →
      ∃ buf, ((ionAlloc size o).final k).bufs b = some buf ∧
        size.toNat ≤ buf.size.toNat ∧ buf.size.toNat < size.toNat + 4096

/-- The size has at most `2 ^ 31 - 1` pages, or it is rounded up to a multiple of `2 ^ 32` pages. -/
def CountFits (size : BitVec 64) : Prop :=
  size.toNat ≤ 2 ^ 43 - 4096 ∨ (size.toNat + 4095) % 2 ^ 44 < 4096

instance (size : BitVec 64) : Decidable (CountFits size) :=
  inferInstanceAs (Decidable (_ ∨ _))

/-! ## The arithmetic -/

/-- The mask of `PAGE_ALIGN` and the division are a shift. -/
theorem pageAlign_div (size : BitVec 64) : pageAlign size / 4096#64 = (size + 4095#64) >>> 12 := by
  have hdiv : 4096#64 = BitVec.twoPow 64 12 := by decide
  rw [hdiv, BitVec.udiv_twoPow_eq_of_lt (by decide), pageAlign]
  refine BitVec.eq_of_getLsbD_eq fun i hi ↦ ?_
  have hclear : (4095#64).getLsbD (12 + i) = false := by
    have hlow : 4095 < 2 ^ (12 + i) :=
      Nat.lt_of_lt_of_le (by decide) (Nat.pow_le_pow_right (by decide) (Nat.le_add_right 12 i))
    rw [BitVec.getLsbD_ofNat, Nat.testBit_lt_two_pow hlow, Bool.and_false]
  rw [BitVec.getLsbD_ushiftRight, BitVec.getLsbD_ushiftRight, BitVec.getLsbD_and,
    BitVec.getLsbD_not, hclear]
  by_cases hlt : 12 + i < 64
  · simp [hlt]
  · rw [BitVec.getLsbD_of_ge (size + 4095#64) (12 + i) (by omega), Bool.false_and]

theorem ionNpages_toNat (size : BitVec 64) : (ionNpages size).toNat = pageCount size % 2 ^ 32 := by
  rw [ionNpages, pageAlign_div, BitVec.toNat_setWidth, BitVec.toNat_ushiftRight,
    Nat.shiftRight_eq_div_pow, BitVec.toNat_add]
  rfl

theorem ionNpages_eq_zero_iff {size : BitVec 64} :
    ionNpages size = 0 ↔ pageCount size % 2 ^ 32 = 0 := by
  rw [← ionNpages_toNat, ← BitVec.toNat_inj]
  rfl

theorem toInt_pos_iff {n : BitVec 32} : 0 < n.toInt ↔ 0 < n.toNat ∧ n.toNat < 2 ^ 31 := by
  rw [BitVec.toInt_eq_toNat_cond]
  split <;> omega

/-- A positive number of pages is the number of rounds. -/
theorem rounds_of_toInt_pos {n : BitVec 32} (h : 0 < n.toInt) : rounds n = n.toNat := by
  obtain ⟨-, hlt⟩ := toInt_pos_iff.mp h
  rw [rounds, BitVec.toInt_eq_toNat_cond, if_pos (by omega)]
  rfl

/-- The size of a buffer with a positive number of pages. -/
theorem ionSize_toNat {n : BitVec 32} (h : 0 < n.toInt) : (ionSize n).toNat = 4096 * n.toNat := by
  obtain ⟨-, hlt⟩ := toInt_pos_iff.mp h
  have hmsb : n.msb = false := by
    rw [BitVec.msb_eq_false_iff_two_mul_lt]
    omega
  rw [ionSize, BitVec.signExtend_eq_setWidth_of_msb_false hmsb]
  simp only [BitVec.toNat_mul, BitVec.toNat_ofNat, BitVec.toNat_setWidth]
  omega

/-- The sizes whose number of pages is below `2 ^ 31`, or zero as an `int`. -/
theorem countFits_iff {size : BitVec 64} :
    CountFits size ↔ pageCount size < 2 ^ 31 ∨ pageCount size % 2 ^ 32 = 0 := by
  have hlt := size.isLt
  rw [CountFits, pageCount]
  omega

/-- A size of less than `2 ^ 31` pages is rounded up. -/
theorem pageCount_rounded {size : BitVec 64} (hlt : pageCount size < 2 ^ 31)
    (hpos : 0 < pageCount size) :
    size.toNat ≤ 4096 * pageCount size ∧ 4096 * pageCount size < size.toNat + 4096 := by
  have hsize := size.isLt
  rw [pageCount] at *
  omega

/-! ## The sizes that are counted right -/

/-- A header with a positive number of pages has room for them. -/
theorem header_of_toInt_pos {n : BitVec 32} (h : 0 < n.toInt) :
    ((ionBytes n).toNat : ℤ) = 8 + 8 * n.toInt := by
  have hrounds := rounds_of_toInt_pos h
  obtain ⟨hpos, hlt⟩ := toInt_pos_iff.mp h
  rw [ionBytes_of_rounds_pos (hrounds ▸ hpos), hrounds, BitVec.toInt_eq_toNat_cond,
    if_pos (by omega)]
  rfl

theorem ionBytes_ne_zero {n : BitVec 32} (h : 0 < n.toInt) : ionBytes n ≠ 0 := by
  intro hzero
  have hbytes := header_of_toInt_pos h
  have hnat : (ionBytes n).toNat = 0 := by
    rw [hzero]
    rfl
  rw [hnat] at hbytes
  omega

/-- With a positive number of pages, or none, `ion_alloc` returns. -/
theorem ionAlloc_isSome {size : BitVec 64} (h : ionNpages size ≠ 0 → 0 < (ionNpages size).toInt)
    (k : KState) (o : AllocOutcome) : ((ionAlloc size o).result k).isSome = true := by
  refine Prog.result_isSome_of_wp (Q := AllocDone k size o) ?_
  refine Prog.wp_mono (wp_ionAlloc k size o) (fun _ _ hdone ↦ hdone) fun _ _ hfault ↦ ?_
  exact ionBytes_ne_zero (h hfault.1) hfault.2.1

/-- The buffer `ion_alloc` returns has the size of its number of pages. -/
theorem ionAlloc_size {size : BitVec 64} {k : KState} {o : AllocOutcome} {b : BufId}
    (hb : (ionAlloc size o).result k = some (.obj b)) :
    ionNpages size ≠ 0 ∧ ∃ buf, ((ionAlloc size o).final k).bufs b = some buf ∧
      buf.size = ionSize (ionNpages size) := by
  have hdone := Prog.result_of_wp (wp_ionAlloc k size o) hb
  cases hdone with
  | allocated hok _ _ h => exact ⟨hok.npages_ne, _, h.bufs_self, rfl⟩

theorem CountFits.sizesRight {size : BitVec 64} (h : CountFits size) : SizesRight size := by
  have hpos : ionNpages size ≠ 0 →
      0 < (ionNpages size).toInt ∧ (ionNpages size).toNat = pageCount size ∧
        pageCount size < 2 ^ 31 ∧ 0 < pageCount size := by
    intro hne
    rw [Ne, ionNpages_eq_zero_iff] at hne
    have hlt := (countFits_iff.mp h).resolve_right hne
    rw [toInt_pos_iff, ionNpages_toNat]
    omega
  refine ⟨fun hne ↦ ?_, ionAlloc_isSome fun hne ↦ (hpos hne).1, fun k o b hb ↦ ?_⟩
  · exact ⟨(hpos hne).1, header_of_toInt_pos (hpos hne).1⟩
  · obtain ⟨hne, buf, hbuf, hsize⟩ := ionAlloc_size hb
    obtain ⟨hint, hnat, hlt, hzero⟩ := hpos hne
    refine ⟨buf, hbuf, ?_⟩
    rw [hsize, ionSize_toNat hint, hnat]
    exact pageCount_rounded hlt hzero

/-- A kernel that finds everything: page `i` for round `i`. -/
def everything : AllocOutcome := ⟨some 0, fun i ↦ some ⟨i, fun _ ↦ 0⟩, some 0⟩

theorem granted_everything (n : ℕ) : granted everything.pages n = List.range n := by
  induction n with
  | zero => rfl
  | succ n ih =>
    rw [granted, ih, List.range_succ]
    rfl

/-- A fresh kernel gives `ion_alloc` what it asks for, whatever it asks for. -/
theorem allocOk_everything {size : BitVec 64} (h : 0 < (ionNpages size).toInt) :
    AllocOk .boot size everything where
  npages_ne hz := by
    rw [hz] at h
    exact absurd h (by decide)
  bytes_ne := ionBytes_ne_zero h
  data := ⟨0, rfl, rfl⟩
  pages i hi := by
    have hlt := Nat.lt_trans hi (rounds_lt (ionNpages size))
    refine ⟨⟨i, fun _ ↦ 0⟩, rfl, ⟨Finset.notMem_empty _, Nat.lt_trans hlt (by decide)⟩, ?_⟩
    rw [granted_everything]
    simp
  dmabuf := ⟨0, rfl, rfl⟩

/-- So it can return a buffer for any positive number of pages. -/
theorem ionAlloc_everything {size : BitVec 64} (h : 0 < (ionNpages size).toInt) :
    ∃ b, (ionAlloc size everything).result .boot = some (.obj b) := by
  have hok := allocOk_everything h
  obtain ⟨r, hr⟩ := Option.isSome_iff_exists.mp (ionAlloc_isSome (fun _ ↦ h) .boot everything)
  have hdone := Prog.result_of_wp (wp_ionAlloc .boot size everything) hr
  cases hdone with
  | allocated => exact ⟨_, hr⟩
  | failed _ hnot _ => exact absurd hok hnot

/-- **Sizes.**  For a size of at most `2 ^ 43 - 4096` bytes, and for one that is rounded up to a
multiple of `2 ^ 44` bytes, the number of pages is positive or refused, the header has room for it,
and a buffer is as large as it should be; for any other size, one of these fails. -/
theorem sizesRight_iff (size : BitVec 64) : SizesRight size ↔ CountFits size := by
  refine ⟨fun h ↦ ?_, CountFits.sizesRight⟩
  by_contra hnot
  rw [countFits_iff, not_or] at hnot
  obtain ⟨hlarge, hne⟩ := hnot
  obtain ⟨hpos, -⟩ := h.header (ionNpages_eq_zero_iff.not.mpr hne)
  obtain ⟨b, hb⟩ := ionAlloc_everything hpos
  obtain ⟨buf, hbuf, hle, -⟩ := h.rounded .boot everything b hb
  obtain ⟨-, buf', hbuf', hsize⟩ := ionAlloc_size hb
  obtain rfl := Option.some_inj.mp (hbuf.symm.trans hbuf')
  -- the number of pages has lost a multiple of `2 ^ 32`, and the buffer is smaller than the size
  have hlt := (toInt_pos_iff.mp hpos).2
  rw [hsize, ionSize_toNat hpos, ionNpages_toNat] at hle
  rw [ionNpages_toNat] at hlt
  have hbound := size.isLt
  rw [pageCount] at *
  omega

/-- For a page more than `2 ^ 44` bytes, a kernel that has a page returns a buffer of one page; for
a page less, the header gets no bytes, and the store to its first field goes wrong. -/
theorem buffer_of_one_page :
    (∃ b buf, (ionAlloc 0x100000001000#64 everything).result .boot = some (.obj b) ∧
      ((ionAlloc 0x100000001000#64 everything).final .boot).bufs b = some buf ∧
        buf.size = 4096#64) ∧ ¬ SizesRight 0x100000001000#64 ∧
      (ionAlloc 0xffffffff000#64 everything).result .boot = none ∧
        ¬ SizesRight 0xffffffff000#64 := by
  obtain ⟨b, hb⟩ := ionAlloc_everything (by decide : 0 < (ionNpages 0x100000001000#64).toInt)
  obtain ⟨-, buf, hbuf, hsize⟩ := ionAlloc_size hb
  have hfault : (ionAlloc 0xffffffff000#64 everything).result .boot = none := by decide
  refine ⟨⟨b, buf, hb, hbuf, hsize.trans (by decide)⟩, fun h ↦ ?_, hfault, fun h ↦ ?_⟩
  · obtain ⟨buf', hbuf', hle, -⟩ := h.rounded .boot everything b hb
    obtain rfl := Option.some_inj.mp (hbuf.symm.trans hbuf')
    rw [hsize] at hle
    exact absurd hle (by decide)
  · have hsome := h.inside .boot everything
    rw [hfault] at hsome
    exact absurd hsome (by simp)

end DmaBuf
