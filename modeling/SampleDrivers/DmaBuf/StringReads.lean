import SampleDrivers.DmaBuf.Importers

/-!
# What the importers print

Both importers print the first page of a buffer, and then the whole of it, with `%s` and no
precision.  A string ends at its first zero byte, wherever that is: the importers do not say how
long the buffer is, and the exporter of dma-buf/09 has put no zero into it.

* `stringReads` — the bytes that are read of a string, one step after the other; `mem` is the memory
  of the kernel, and a byte that is not mapped ends the reading with a fault.
* `printString` — the same for what `%s` is given, where `NULL` and the rest of the first page are
  printed as `(null)`.
* `importerStrings` — the importers up to the point where both strings have been printed.
* `readsInside_iff` — the reads stay inside the page and inside the buffer exactly if each of what
  could be mapped contains a zero byte.
-/

set_option autoImplicit false

namespace DmaBuf.StringReads

open Kernel Prog Importers

variable {mem : VAddr → Option UInt8}

/-! ## Strings -/

/-- The bytes that are read of the string at an address, in the first steps. -/
def stringReads (mem : VAddr → Option UInt8) : VAddr → ℕ → List VAddr
  | _, 0 => []
  | s, n + 1 =>
    s :: match mem s with
      | none => []
      | some c => if c = 0 then [] else stringReads mem (s + 1) n

/-- The bytes that `%s` reads, in the first steps. -/
def printString (mem : VAddr → Option UInt8) : Option VAddr → ℕ → List VAddr
  | none, _ => []
  | some s, n => if s < pageSize then [] else stringReads mem s n

/-- At the address are the first bytes of a buffer, and the address is not one that is printed as
`(null)`. -/
structure Maps (mem : VAddr → Option UInt8) (s : VAddr) (len : ℕ) (content : ℕ → UInt8) : Prop where
  valid : pageSize ≤ s
  bytes : ∀ i < len, mem (s + i) = some (content i)

/-- However long it goes on, printing reads only what has been mapped. -/
def PrintsInside (mem : VAddr → Option UInt8) (vaddr : Option VAddr) (len : ℕ) : Prop :=
  ∀ n, ∀ a ∈ printString mem vaddr n, ∃ s, vaddr = some s ∧ s ≤ a ∧ a < s + len

/-- A byte of a string is read if all bytes before it are there and not zero. -/
theorem mem_stringReads_iff {s a : VAddr} {n : ℕ} :
    a ∈ stringReads mem s n ↔
      ∃ k < n, a = s + k ∧ ∀ i < k, ∃ c, mem (s + i) = some c ∧ c ≠ 0 := by
  induction n generalizing s with
  | zero => simp [stringReads]
  | succ n ih =>
    rw [stringReads, List.mem_cons]
    constructor
    · rintro (rfl | htail)
      · exact ⟨0, Nat.succ_pos n, rfl, fun i hi ↦ absurd hi (Nat.not_lt_zero i)⟩
      · split at htail
        · exact absurd htail List.not_mem_nil
        · rename_i c hc
          split at htail
          · exact absurd htail List.not_mem_nil
          · rename_i hne
            obtain ⟨k, hk, rfl, hbefore⟩ := ih.mp htail
            refine ⟨k + 1, Nat.succ_lt_succ hk, Nat.add_right_comm s 1 k, fun i hi ↦ ?_⟩
            cases i with
            | zero => exact ⟨c, hc, hne⟩
            | succ i =>
              have hi' := hbefore i (Nat.lt_of_succ_lt_succ hi)
              rwa [Nat.add_assoc, Nat.add_comm 1 i] at hi'
    · rintro ⟨k, hk, rfl, hbefore⟩
      cases k with
      | zero => exact .inl rfl
      | succ k =>
        obtain ⟨c, hc, hne⟩ := hbefore 0 (Nat.succ_pos k)
        rw [Nat.add_zero] at hc
        rw [hc]
        simp only [if_neg hne]
        refine .inr (ih.mpr ⟨k, Nat.lt_of_succ_lt_succ hk, (Nat.add_right_comm s 1 k).symm,
          fun i hi ↦ ?_⟩)
        have hi' := hbefore (i + 1) (Nat.succ_lt_succ hi)
        rwa [Nat.add_comm i 1, ← Nat.add_assoc] at hi'

@[simp] theorem printsInside_none (len : ℕ) : PrintsInside mem none len := by
  intro n a ha
  exact absurd ha List.not_mem_nil

/-- **Printing a mapping** reads only what is mapped if and only if there is a zero byte in it. -/
theorem Maps.printsInside_iff {s : VAddr} {len : ℕ} {content : ℕ → UInt8}
    (h : Maps mem s len content) :
    PrintsInside mem (some s) len ↔ ∃ i < len, content i = 0 := by
  have hprint : ∀ n, printString mem (some s) n = stringReads mem s n := fun n ↦ by
    rw [printString, if_neg (Nat.not_lt.mpr h.valid)]
  constructor
  · intro hinside
    by_contra hzero
    have hread : s + len ∈ printString mem (some s) (len + 1) := by
      rw [hprint, mem_stringReads_iff]
      refine ⟨len, Nat.lt_succ_self len, rfl, fun i hi ↦ ⟨content i, h.bytes i hi, fun hc ↦ ?_⟩⟩
      exact hzero ⟨i, hi, hc⟩
    obtain ⟨s', hs', -, hlt⟩ := hinside (len + 1) _ hread
    cases hs'
    exact Nat.lt_irrefl _ hlt
  · rintro ⟨i, hi, hc⟩ n a ha
    rw [hprint, mem_stringReads_iff] at ha
    obtain ⟨k, -, rfl, hbefore⟩ := ha
    refine ⟨s, rfl, Nat.le_add_right s k, Nat.add_lt_add_left ?_ s⟩
    -- a string that went on to the end of the mapping has passed the zero byte
    by_contra hle
    obtain ⟨c, hmem, hne⟩ := hbefore i (by omega)
    rw [h.bytes i hi, hc] at hmem
    cases hmem
    exact hne rfl

/-! ## The importers -/

/-- `importer_test` of dma-buf/06 and `importer_test1` of dma-buf/08, up to the second `pr_info`,
with what the two are given to print. -/
def importerStrings (b : Buffer) (o : Outcome) : CoreProg (Option VAddr × Option VAddr) := do
  let page ← dmaBufKmap b o
  dmaBufKunmap page
  let whole ← dmaBufVmap b o
  return (page, whole)

section

variable {s : State} {b : Buffer} {o : Outcome} {content : ℕ → UInt8} {size : ℕ}

/-- The two strings are where the exporter finds the first page, and where the core finds the
buffer. -/
theorem wp_importerStrings (h : s.buf.WellFormed) :
    wp (importerStrings b o) (fun r _ ↦ r = (b.exporter.map b.priv o, vmapAddress s.buf b o))
      (fun _ _ ↦ False) s := by
  simp only [importerStrings, dmaBufKmap, dmaBufKunmap, note, wp_bind, wp_modify, wp_pure]
  refine wp_imp (wp_dmaBufVmap h) fun r _ hr ↦ ?_
  rw [wp_pure, hr.2.2.1]

/-- What is printed of a mapping that may have failed. -/
theorem printsInside_iff {vaddr : Option VAddr} {len : ℕ}
    (h : ∀ p, vaddr = some p → Maps mem p len content) :
    PrintsInside mem vaddr len ↔ (vaddr.isSome → ∃ i < len, content i = 0) := by
  cases vaddr with
  | none => exact iff_of_true (printsInside_none len) (by simp)
  | some p =>
    rw [(h p rfl).printsInside_iff]
    simp

/-- **The importers read only the buffer** if and only if there is a zero byte in its first page,
should the exporter map it, and one in the whole of it, should the buffer be mapped.  Where either
is mapped, `content` is what is found there. -/
theorem readsInside_iff (h : s.buf.WellFormed)
    (hkmap : ∀ p, b.exporter.map b.priv o = some p → Maps mem p pageSize content)
    (hvmap : ∀ p, vmapAddress s.buf b o = some p → Maps mem p size content) :
    wp (importerStrings b o)
        (fun strings _ ↦ PrintsInside mem strings.1 pageSize ∧ PrintsInside mem strings.2 size)
        (fun _ _ ↦ False) s ↔
      ((b.exporter.map b.priv o).isSome → ∃ i < pageSize, content i = 0) ∧
        ((vmapAddress s.buf b o).isSome → ∃ i < size, content i = 0) := by
  rw [← printsInside_iff hkmap, ← printsInside_iff hvmap]
  have hstrings := wp_importerStrings (b := b) (o := o) h
  constructor
  · intro hinside
    by_contra hneg
    refine not_wp.mpr ?_ hinside
    refine wp_of_no_fault hstrings fun r _ hr ↦ ?_
    rw [hr]
    exact hneg
  · intro hinside
    refine wp_imp hstrings fun r _ hr ↦ ?_
    rw [hr]
    exact hinside

end

/-! ## Two buffers -/

/-- Two pages with a greeting each, mapped for both tests. -/
def greetings (i : ℕ) : UInt8 := if i % 4096 = 12 then 0 else 104

/-- Both strings end within a buffer of two pages. -/
theorem readsInside_greetings :
    wp (importerStrings ⟨.ion09, 0⟩ ⟨some 8192, some 16384, none⟩)
      (fun strings _ ↦ PrintsInside (fun a ↦ some (greetings a)) strings.1 4096 ∧
        PrintsInside (fun a ↦ some (greetings a)) strings.2 8192)
      (fun _ _ ↦ False) ⟨⟨1, none, 0⟩, []⟩ := by
  have hmaps : ∀ n len : ℕ, Maps (fun a ↦ some (greetings a)) (4096 * (n + 1)) len greetings := by
    refine fun n len ↦ ⟨Nat.le_mul_of_pos_right 4096 (Nat.succ_pos n), fun i _ ↦ ?_⟩
    simp only [greetings, Nat.mul_add_mod]
  have hzero : ∀ len, 12 < len → ∃ i < len, greetings i = 0 := fun len hlen ↦
    ⟨12, hlen, by decide⟩
  refine (readsInside_iff ?_ (fun p hp ↦ ?_) fun p hp ↦ ?_).mpr
    ⟨fun _ ↦ hzero 4096 (by decide), fun _ ↦ hzero 8192 (by decide)⟩
  · exact iff_of_false (by simp) (Nat.lt_irrefl 0)
  · cases hp
    exact hmaps 1 4096
  · cases hp
    exact hmaps 3 8192

/-- A page as `alloc_page` may hand it out, full of letters, mapped for both tests, with nothing
mapped behind it. -/
def letters (a : VAddr) : Option UInt8 := if a / 4096 = 2 ∨ a / 4096 = 4 then some 65 else none

/-- The ion exporter has not cleared its one page: both strings go on behind the page. -/
theorem letters_read_past_page :
    Maps letters 8192 4096 (fun _ ↦ 65) ∧ Maps letters 16384 4096 (fun _ ↦ 65) ∧
      wp (importerStrings ⟨.ion09, 0⟩ ⟨some 8192, some 16384, none⟩)
        (fun strings _ ↦ ¬ PrintsInside letters strings.1 4096 ∧
          ¬ PrintsInside letters strings.2 4096)
        (fun _ _ ↦ False) ⟨⟨1, none, 0⟩, []⟩ := by
  have hmaps : ∀ n : ℕ, n = 2 ∨ n = 4 → Maps letters (4096 * n) 4096 fun _ ↦ 65 := by
    intro n hn
    refine ⟨Nat.le_mul_of_pos_right 4096 (by omega), fun i hi ↦ ?_⟩
    rw [letters, if_pos]
    rw [Nat.mul_add_div (by decide), Nat.div_eq_of_lt hi]
    exact hn
  have hpast : ∀ n : ℕ, n = 2 ∨ n = 4 → ¬ PrintsInside letters (some (4096 * n)) 4096 := by
    intro n hn hinside
    obtain ⟨i, -, hzero⟩ := (hmaps n hn).printsInside_iff.mp hinside
    exact absurd hzero (by decide)
  refine ⟨hmaps 2 (.inl rfl), hmaps 4 (.inr rfl), ?_⟩
  refine wp_imp (wp_importerStrings ?_) fun r _ hr ↦ ?_
  · exact iff_of_false (by simp) (Nat.lt_irrefl 0)
  · rw [hr]
    exact ⟨hpast 2 (.inl rfl), hpast 4 (.inr rfl)⟩

end DmaBuf.StringReads
