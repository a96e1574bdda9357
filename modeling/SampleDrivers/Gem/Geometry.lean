import SampleDrivers.Gem.Accounting

/-!
# The geometry of a dumb buffer

`drm_gem_cma_dumb_create` computes the pitch of a buffer, and from it the size, in 32 bits.  The DRM
core has checked the request before, but it counts the *bytes* of a row, and it rounds the bytes of
a pixel up; the driver counts the bits, lets the product wrap, and rounds the bytes of a row down.

* `DumbArgs.rowBits` — the bits of a row, over the integers.
* `Admitted` — what the core lets through.
* `Sufficient` — the buffer holds the picture.  `sufficient_iff`: it does exactly if the bits of a
  row fit in 32 bits and are whole bytes.
* `PageAligned` — what the core wants of a size.  `pageAligned_iff`: it gets it exactly if the pitch
  is not zero and the height makes up for the factors of the page size that the pitch lacks.
-/

set_option autoImplicit false

namespace Gem

open Kernel

/-! ## Requests -/

namespace DumbArgs

variable (args : DumbArgs)

/-- The bits of a row. -/
def rowBits : ℕ := args.width.toNat * args.bpp.toNat

/-- The bytes of a pixel, as the core counts them. -/
def cpp : ℕ := (args.bpp.toNat + 7) / 8

theorem pitch_toNat : args.pitch.toNat = args.rowBits % 2 ^ 32 / 8 := by
  rw [pitch, BitVec.toNat_udiv, BitVec.toNat_mul]
  rfl

/-- The driver never makes a row longer than it has to be. -/
theorem eight_mul_pitch_le : 8 * args.pitch.toNat ≤ args.rowBits := by
  rw [pitch_toNat]
  exact Nat.le_trans (Nat.mul_div_le _ 8) (Nat.mod_le _ _)

/-- The core's row is at least as long as the picture's. -/
theorem rowBits_le : args.rowBits ≤ 8 * (args.cpp * args.width.toNat) := by
  have hcpp : args.bpp.toNat ≤ 8 * args.cpp := by
    rw [cpp]
    omega
  calc args.rowBits ≤ args.width.toNat * (8 * args.cpp) := Nat.mul_le_mul_left _ hcpp
    _ = 8 * (args.cpp * args.width.toNat) := by rw [Nat.mul_comm, Nat.mul_assoc]

/-- Wrapping the size does not change whether it is a whole number of pages. -/
theorem pageSize_dvd_size_iff :
    pageSize ∣ args.size ↔ pageSize ∣ args.rowBits % 2 ^ 32 / 8 * args.height.toNat := by
  rw [size, BitVec.toNat_mul, pitch_toNat]
  exact Nat.dvd_mod_iff (by decide)

end DumbArgs

/-- `PAGE_ALIGN` in 32 bits. -/
def pageAlign (n : ℕ) : ℕ := (n + (pageSize - 1)) % 2 ^ 32 / pageSize * pageSize

/-- The requests that `DRM_IOCTL_MODE_CREATE_DUMB` passes on to the driver. -/
structure Admitted (args : DumbArgs) : Prop where
  width : args.width ≠ 0
  height : args.height ≠ 0
  bpp : args.bpp ≠ 0
  stride : args.cpp * args.width.toNat ≤ 2 ^ 32 - 1
  size : args.cpp * args.width.toNat * args.height.toNat ≤ 2 ^ 32 - 1
  wrap : pageAlign (args.cpp * args.width.toNat * args.height.toNat) ≠ 0

section

variable {args : DumbArgs}

theorem Admitted.height_pos (h : Admitted args) : 0 < args.height.toNat :=
  Nat.pos_of_ne_zero fun hzero ↦ h.height (BitVec.eq_of_toNat_eq hzero)

theorem Admitted.rowBits_pos (h : Admitted args) : 0 < args.rowBits := by
  refine Nat.mul_pos (Nat.pos_of_ne_zero fun hzero ↦ ?_) (Nat.pos_of_ne_zero fun hzero ↦ ?_)
  · exact h.width (BitVec.eq_of_toNat_eq hzero)
  · exact h.bpp (BitVec.eq_of_toNat_eq hzero)

/-- **The size does not wrap**: a row of the driver is never longer than one of the core, and all
rows of the core together have been checked. -/
theorem Admitted.size_eq (h : Admitted args) :
    args.size = args.pitch.toNat * args.height.toNat := by
  have hpitch : args.pitch.toNat ≤ args.cpp * args.width.toNat :=
    Nat.le_of_mul_le_mul_left (Nat.le_trans args.eight_mul_pitch_le args.rowBits_le) (by decide)
  have hfits : args.pitch.toNat * args.height.toNat ≤ 2 ^ 32 - 1 :=
    Nat.le_trans (Nat.mul_le_mul_right _ hpitch) h.size
  rw [DumbArgs.size, BitVec.toNat_mul, Nat.mod_eq_of_lt (by omega)]

/-! ## Room for the picture -/

/-- The buffer holds every row, and with it the last byte of the last pixel. -/
structure Sufficient (args : DumbArgs) : Prop where
  row : args.rowBits ≤ 8 * args.pitch.toNat
  rows : args.pitch.toNat * args.height.toNat ≤ args.size
  last : args.pitch.toNat * (args.height.toNat - 1) + (args.rowBits - 1) / 8 < args.size

/-- A row fits if the product that the driver forms neither wraps nor is rounded. -/
theorem rowBits_le_pitch_iff :
    args.rowBits ≤ 8 * args.pitch.toNat ↔ args.rowBits < 2 ^ 32 ∧ 8 ∣ args.rowBits := by
  rw [DumbArgs.pitch_toNat]
  have hmod : args.rowBits % 2 ^ 32 < 2 ^ 32 := Nat.mod_lt _ (by decide)
  have hle : args.rowBits % 2 ^ 32 ≤ args.rowBits := Nat.mod_le _ _
  constructor
  · intro hrow
    have heq : args.rowBits % 2 ^ 32 = args.rowBits := by omega
    rw [heq] at hmod hrow
    exact ⟨hmod, Nat.dvd_of_mod_eq_zero (by omega)⟩
  · rintro ⟨hlt, hdvd⟩
    rw [Nat.mod_eq_of_lt hlt, Nat.mul_div_cancel' hdvd]

/-- **The buffer holds the picture** if and only if the bits of a row are a number of 32 bits, and a
whole number of bytes. -/
theorem sufficient_iff (h : Admitted args) :
    Sufficient args ↔ args.rowBits < 2 ^ 32 ∧ 8 ∣ args.rowBits := by
  rw [← rowBits_le_pitch_iff]
  refine ⟨Sufficient.row, fun hrow ↦ ⟨hrow, Nat.le_of_eq h.size_eq.symm, ?_⟩⟩
  have hlast : (args.rowBits - 1) / 8 < args.pitch.toNat := by
    have := h.rowBits_pos
    omega
  calc args.pitch.toNat * (args.height.toNat - 1) + (args.rowBits - 1) / 8
      < args.pitch.toNat * (args.height.toNat - 1) + args.pitch.toNat :=
        Nat.add_lt_add_left hlast _
    _ = args.pitch.toNat * args.height.toNat := by
        rw [← Nat.mul_succ, Nat.succ_eq_add_one, Nat.sub_add_cancel h.height_pos]
    _ = args.size := h.size_eq.symm

/-- The core lets the request of the test program through. -/
theorem admitted_testArgs : Admitted testArgs :=
  ⟨by decide, by decide, by decide, by decide, by decide, by decide⟩

/-- The request of the test program is met. -/
theorem sufficient_testArgs : Sufficient testArgs :=
  (sufficient_iff admitted_testArgs).mpr ⟨by decide, by decide⟩

/-- A row of `2 ^ 27` pixels of 32 bits has `2 ^ 32` bits: the driver makes a buffer with nothing in
it. -/
theorem wideRow_not_sufficient : Admitted ⟨0x8000000, 1, 32⟩ ∧ ¬ Sufficient ⟨0x8000000, 1, 32⟩ :=
  ⟨⟨by decide, by decide, by decide, by decide, by decide, by decide⟩,
    fun h ↦ absurd h.row (by decide)⟩

/-! ## What the core asserts -/

/-- The size is one that the core takes, and no call of the driver meets its assertion. -/
structure PageAligned (args : DumbArgs) : Prop where
  ne_zero : args.size ≠ 0
  dvd : pageSize ∣ args.size
  no_bug : ∀ w c o, (drmGemCmaDumbCreate w c args o).1 ≠ .bug

/-- The assertion depends on the size only. -/
theorem drmGemCmaDumbCreate_bug_iff {w : World} {c : Client} {o : CreateOutcome} :
    (drmGemCmaDumbCreate w c args o).1 = .bug ↔ ¬ pageSize ∣ args.size := by
  rw [Nat.dvd_iff_mod_eq_zero, drmGemCmaDumbCreate]
  split
  · rename_i hsize
    exact iff_of_true rfl hsize
  · rename_i hsize
    refine iff_of_false (fun hbug ↦ ?_) hsize
    split at hbug
    · cases hbug
    · split at hbug
      · cases hbug
      · cases hbug

/-- **The core takes the size** if and only if a row of the driver has a byte, and the height is a
multiple of what the row lacks to a number of pages. -/
theorem pageAligned_iff (h : Admitted args) :
    PageAligned args ↔ 8 ≤ args.rowBits % 2 ^ 32 ∧
      pageSize / Nat.gcd pageSize (args.rowBits % 2 ^ 32 / 8) ∣ args.height.toNat := by
  have hzero : args.size ≠ 0 ↔ 8 ≤ args.rowBits % 2 ^ 32 := by
    rw [h.size_eq, Nat.mul_ne_zero_iff, and_iff_left (Nat.ne_of_gt h.height_pos),
      DumbArgs.pitch_toNat]
    omega
  have hdvd : pageSize ∣ args.size ↔
      pageSize / Nat.gcd pageSize (args.rowBits % 2 ^ 32 / 8) ∣ args.height.toNat := by
    rw [args.pageSize_dvd_size_iff, Nat.div_dvd_iff_dvd_mul (Nat.gcd_dvd_left _ _)
      (Nat.gcd_pos_of_pos_left _ pageSize_pos), Nat.dvd_gcd_mul_iff_dvd_mul]
  rw [← hzero, ← hdvd]
  constructor
  · intro haligned
    exact ⟨haligned.ne_zero, haligned.dvd⟩
  · rintro ⟨hne, hsize⟩
    exact ⟨hne, hsize, fun w c o hbug ↦ drmGemCmaDumbCreate_bug_iff.mp hbug hsize⟩

end

/-- The request of the test program makes 75 pages. -/
theorem pageAligned_testArgs : PageAligned testArgs :=
  (pageAligned_iff admitted_testArgs).mpr ⟨by decide, by decide⟩

/-- A single pixel of 32 bits stops the machine. -/
theorem singlePixel_bug : Admitted ⟨1, 1, 32⟩ ∧
    (drmGemCmaDumbCreate mygemInit 0 ⟨1, 1, 32⟩ ⟨some 7, true, some 1, some 4096⟩).1 = .bug :=
  ⟨⟨by decide, by decide, by decide, by decide, by decide, by decide⟩, by decide⟩

end Gem
