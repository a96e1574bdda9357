import SampleDrivers.DmaBuf.MapPairing

/-!
# What the importers read from a table

The importers of dma-buf/03 and dma-buf/08 attach a device to the buffer of their exporter, map it,
and read from the first entry of the table what they would write into the registers of the device:
`sg_dma_address` and `sg_dma_len`, both stored in an `unsigned int`.  The exporter of dma-buf/03
sets these two; that of dma-buf/08 sets the address and the length of the page.

* `Pair` — the two pairs of an exporter and an importer.
* `importerTest` — the test of both importers, with every allocation succeeding or failing.
* `Lossless` — the registers have the address the mapping was made at, and the size of the buffer.
* `importerTest_lossless_iff` — when they have, for every address and both ways to configure
  `sg_dma_len`.
-/

set_option autoImplicit false

namespace DmaBuf.HandOff

open Kernel Prog
open MapPairing (Exported)

/-- An exporter and the importer that was written for it. -/
inductive Pair
  /-- dma-buf/03, `exporter-sg.c` and `importer-sg.c`. -/
  | sg
  /-- dma-buf/08, `exporter-page.c` and `importer-page.c`. -/
  | page
  deriving DecidableEq

/-- The buffer of the exporter; that of dma-buf/08 has the page `pg`. -/
def Pair.exported : Pair → Page → Exported
  | .sg, _ => .sg
  | .page, pg => .ops ⟨.page, 4096, .page pg, []⟩

/-- `dmabuf->size`. -/
def Pair.size : Pair → BitVec 64
  | .sg => 4096
  | .page => 4096

/-- The registers of the device. -/
structure Regs where
  regAddr : BitVec 32
  regSize : BitVec 32
  deriving DecidableEq

/-- `reg_addr = sg_dma_address(table->sgl); reg_size = sg_dma_len(table->sgl)`. -/
def readRegs (need : Bool) (sgl : KPtr) : KProg Regs := do
  match ← loadSgl sgl with
  | e :: _ => return ⟨.ofNat 32 e.dmaAddress, .ofNat 32 (e.dmaLen need)⟩
  | [] => throw .outOfBounds

/-- What the kernel finds for one test. -/
structure TestOutcome where
  /-- There is memory for the device. -/
  dev : Bool
  /-- The error number with which `dma_buf_attach` fails. -/
  attach : Option ℤ
  map : MapOutcome

/-- `importer_test` of dma-buf/03 and `importer_test2` of dma-buf/08: what it returns, and the
registers if it gets that far.  The core makes an error pointer of a table that is `NULL`. -/
def importerTest (need : Bool) (dmabuf : Option Exported) (o : TestOutcome) :
    KProg (ℤ × Option Regs) := do
  match dmabuf with
  | none => return (-EINVAL, none)
  | some x =>
    if o.dev = false then return (-ENOMEM, none)
    match o.attach with
    | some e => return (-e, none)
    | none =>
      match ← x.mapDmaBuf need .bidirectional o.map with
      | .err e => return (-e, none)
      | .null => return (-ENOMEM, none)
      | .obj table =>
        let t ← loadTable table
        let regs ← readRegs need t.sgl
        x.unmapDmaBuf table .bidirectional
        return (0, some regs)

/-- The test gets as far as the registers. -/
def Gets (o : TestOutcome) (k : KState) : Prop :=
  o.dev = true ∧ o.attach = none ∧ ∃ a s, o.map.Finds k a s

/-- Nothing is lost on the way from the exporter to the registers. -/
def Lossless (p : Pair) (dmaAddress : ℕ) (regs : Regs) : Prop :=
  regs.regAddr.toNat = dmaAddress ∧ regs.regSize.toNat = pageSize ∧ pageSize = p.size.toNat

instance (p : Pair) (dmaAddress : ℕ) (regs : Regs) : Decidable (Lossless p dmaAddress regs) :=
  inferInstanceAs (Decidable (_ ∧ _ ∧ _))

/-- The entry of the table. -/
def Pair.entry (p : Pair) (need : Bool) (pg : Page) (dmaAddress : ℕ) : SgEntry :=
  match p with
  | .sg => SgExporter.entry need dmaAddress
  | .page => ⟨.page pg, pageSize, dmaAddress, 0⟩

/-- The mapping that is made. -/
def Pair.mapping : Pair → ℕ → DmaMapping
  | .sg, dmaAddress => .single dmaAddress pageSize .bidirectional
  | .page, dmaAddress => .page dmaAddress pageSize .bidirectional

section

variable {k : KState} (p : Pair) (need : Bool) (pg : Page)

omit p pg in
theorem wp_readRegs {s : Addr} {e : SgEntry} {es : List SgEntry} {Q : Regs → KState → Prop}
    {E : Oops → KState → Prop} (h : k.heap s = some (.sgl (e :: es))) :
    wp (readRegs need (.addr s)) Q E k ↔
      Q ⟨.ofNat 32 e.dmaAddress, .ofNat 32 (e.dmaLen need)⟩ k := by
  rw [readRegs, wp_bind, wp_loadSgl h]
  rfl

theorem wp_mapDmaBuf (o : MapOutcome) :
    wp ((p.exported pg).mapDmaBuf need .bidirectional o) (fun r k' ↦
      MapDone k o True [p.entry need pg o.dmaAddress] (fun _ ↦ p.mapping o.dmaAddress) r k')
      (fun _ _ ↦ False) k := by
  cases p with
  | sg => exact SgExporter.wp_exporterMapDmaBuf need .bidirectional o
  | page => exact wp_exporterMapDmaBuf _ .bidirectional o

theorem madeBy (s : Addr) (dmaAddress : ℕ) :
    MapPairing.MadeBy (p.exported pg) s [p.entry need pg dmaAddress] .bidirectional
      (p.mapping dmaAddress) := by
  cases p with
  | sg => exact .sg (SgExporter.entry need dmaAddress) [] .bidirectional
  | page => exact .page rfl ⟨.page pg, pageSize, dmaAddress, 0⟩ [] .bidirectional

/-- Both exporters set the address; the length that is read is set by the one of dma-buf/03, and by
the one of dma-buf/08 if it is the length of the page. -/
theorem entry_fields (dmaAddress : ℕ) :
    (p.entry need pg dmaAddress).dmaAddress = dmaAddress ∧
      (p.entry need pg dmaAddress).dmaLen need =
        if p = .sg ∨ need = false then pageSize else 0 := by
  cases p <;> cases need <;> exact ⟨rfl, rfl⟩

/-- What the registers get. -/
theorem lossless_iff (dmaAddress : ℕ) :
    Lossless p dmaAddress ⟨.ofNat 32 (p.entry need pg dmaAddress).dmaAddress,
        .ofNat 32 ((p.entry need pg dmaAddress).dmaLen need)⟩ ↔
      dmaAddress < 2 ^ 32 ∧ (p = .sg ∨ need = false) := by
  obtain ⟨haddr, hlen⟩ := entry_fields p need pg dmaAddress
  have hsize : pageSize = p.size.toNat := by cases p <;> rfl
  rw [Lossless, haddr, hlen, BitVec.toNat_ofNat, BitVec.toNat_ofNat, and_iff_left hsize]
  refine and_congr ⟨fun h ↦ ?_, Nat.mod_eq_of_lt⟩ ?_
  · exact h ▸ Nat.mod_lt _ (by decide)
  · split
    · exact iff_of_true rfl ‹_›
    · exact iff_of_false (by decide) ‹_›

/-- **The hand-off is lossless** if and only if the address fits into 32 bits and, for the exporter
of dma-buf/08, `sg_dma_len` is another name for the length of the page.  The test gets as far as
reading the registers whenever the allocations succeed. -/
theorem importerTest_lossless_iff (o : TestOutcome) :
    wp (importerTest need (some (p.exported pg)) o) (fun r _ ↦
      (r.2.isSome ↔ Gets o k) ∧ ∀ regs, r.2 = some regs →
        (Lossless p o.map.dmaAddress regs ↔
          o.map.dmaAddress < 2 ^ 32 ∧ (p = .sg ∨ need = false))) (fun _ _ ↦ False) k := by
  rw [importerTest]
  by_cases hdev : o.dev = false
  · rw [if_pos hdev]
    exact ⟨by simp [Gets, hdev], by simp⟩
  rw [if_neg hdev]
  cases hattach : o.attach with
  | some e => exact ⟨by simp [Gets, hattach], by simp⟩
  | none =>
    rw [Bool.not_eq_false] at hdev
    rw [wp_bind]
    refine wp_imp (wp_mapDmaBuf p need pg o.map) fun r k' hdone ↦ ?_
    cases hdone with
    | failed e hnot =>
      exact ⟨iff_of_false (by simp) fun hgets ↦ hnot ⟨trivial, hgets.2.2⟩, by simp⟩
    | @mapped a s hok hfinds =>
      have htable : ({ k.withTable a s [p.entry need pg o.map.dmaAddress] with
          dma := p.mapping o.map.dmaAddress ::ₘ k.dma } : KState).HasTable a s
            [p.entry need pg o.map.dmaAddress] :=
        ⟨(KState.withTable_hasTable hfinds.2.2.ne _).table,
          (KState.withTable_hasTable hfinds.2.2.ne _).sgl⟩
      refine (wp_bind _ _).mpr ?_
      rw [wp_loadTable htable.table, wp_bind, wp_readRegs need htable.sgl, wp_bind]
      refine ((madeBy p need pg s o.map.dmaAddress).wp_unmapDmaBuf htable
        (Multiset.mem_cons_self ..)).mpr
          ⟨iff_of_true rfl ⟨hdev, hattach, a, s, hfinds⟩, fun regs hregs ↦ ?_⟩
      obtain rfl := Option.some_inj.mp hregs
      exact lossless_iff p need pg o.map.dmaAddress

end

/-- A size is lost between exporter and importer of dma-buf/08 if `sg_dma_len` is a field of its
own, and in both pairs an address beyond 4 GiB is cut off. -/
theorem importerTest_not_lossless :
    (∃ regs, (importerTest true (some (Pair.exported .page 5))
        ⟨true, none, some 8, some 9, [], 4096⟩).result .boot = some (0, some regs) ∧
      ¬ Lossless .page 4096 regs) ∧
    ∀ p : Pair, ∃ regs, (importerTest false (some (p.exported 5))
        ⟨true, none, some 8, some 9, [], 2 ^ 32⟩).result .boot = some (0, some regs) ∧
      ¬ Lossless p (2 ^ 32) regs := by
  refine ⟨⟨⟨4096, 0⟩, rfl, by decide⟩, fun p ↦ ?_⟩
  cases p with
  | sg => exact ⟨⟨0, 4096⟩, rfl, by decide⟩
  | page => exact ⟨⟨0, 4096⟩, rfl, by decide⟩

end DmaBuf.HandOff
