import Mathlib.Data.Multiset.AddSub
import SampleDrivers.Kernel.Basic
import SampleDrivers.Lib.Prog

/-!
# Importers and exporters that were not written for each other

The importers of dma-buf/06 and dma-buf/08 take whatever buffer a process names: any exporter can
be behind it, and each of them has its own idea of what `map` and `vmap` are.  The importers map
page 0, print it and unmap it, and do the same with the whole buffer, without looking at what the
two calls returned.

* `Exporter` — the nine exporters, with what their callbacks return: the memory they have
  allocated, what the kernel finds for them, or nothing.
* `dmaBufVmap`, `dmaBufVunmap` — the functions of the core, which count how often a buffer is
  mapped, and stop the machine when the books do not balance.
* `Paired` — in a sequence of calls, everything that is unmapped was mapped before and not unmapped
  since; `NULL` never was.
* `importerIoctl_paired_iff` — the exporter and the kernel have to play along: the importers unmap
  only what they have mapped exactly if both calls return an address.
-/

set_option autoImplicit false

namespace DmaBuf.Importers

open Kernel Prog

abbrev VAddr := ℕ

/-! ## The exporters -/

/-- The exporters, from dma-buf/01 to dma-buf/09. -/
inductive Exporter
  | dummy01
  | kmap02
  | sg03
  | fd04
  | mmap05
  | fd06
  | sync07
  | page08
  | ion09
  deriving DecidableEq

/-- What the kernel finds when the callbacks ask for it; `none` for `NULL`. -/
structure Outcome where
  /-- `kmap` of the first page. -/
  kmap : Option VAddr
  /-- `vmap` or `vm_map_ram`. -/
  vmap : Option VAddr
  /-- The table of `map_dma_buf`, or `none` when it fails. -/
  table : Option VAddr

/-- `ops->map(dmabuf, 0)`. -/
def Exporter.map (priv : VAddr) (o : Outcome) : Exporter → Option VAddr
  | .dummy01 | .sg03 | .fd04 | .mmap05 => none
  | .kmap02 | .fd06 | .sync07 => some priv
  | .page08 | .ion09 => o.kmap

/-- `ops->vmap(dmabuf)`, if the exporter sets `vmap`. -/
def Exporter.vmap (priv : VAddr) (o : Outcome) : Exporter → Option (Option VAddr)
  | .dummy01 | .sg03 | .fd04 | .mmap05 => none
  | .kmap02 | .fd06 | .sync07 => some (some priv)
  | .page08 | .ion09 => some o.vmap

/-- `ops->map_dma_buf`, where `NULL` and an error pointer are the same to the core. -/
def Exporter.mapDmaBuf (o : Outcome) : Exporter → Option VAddr
  | .sg03 | .page08 | .ion09 => o.table
  | _ => none

/-- A buffer: its exporter, and the memory the exporter has allocated for it. -/
structure Buffer where
  exporter : Exporter
  priv : VAddr

/-! ## The core -/

inductive Resource
  | kmap
  | vmap
  | attachment
  deriving DecidableEq

/-- A call that maps something, with what it returned, or that unmaps something. -/
inductive Event
  | map (r : Resource) (p : Option VAddr)
  | unmap (r : Resource) (p : Option VAddr)

/-- The fields of a `dma_buf` that change. -/
structure CoreBuf where
  fCount : ℕ
  vmapPtr : Option VAddr
  vmappingCounter : ℕ

/-- The core has an address for the buffer while it is mapped. -/
def CoreBuf.WellFormed (c : CoreBuf) : Prop := c.vmapPtr.isSome ↔ 0 < c.vmappingCounter

structure State where
  buf : CoreBuf
  events : List Event

inductive Bug
  | vmap
  | vunmap

abbrev CoreProg := Prog State Bug

def note (e : Event) : CoreProg Unit := modify fun s ↦ { s with events := s.events ++ [e] }

/-- `dma_buf_kmap` of page 0. -/
def dmaBufKmap (b : Buffer) (o : Outcome) : CoreProg (Option VAddr) := do
  note (.map .kmap (b.exporter.map b.priv o))
  return b.exporter.map b.priv o

def dmaBufKunmap (vaddr : Option VAddr) : CoreProg Unit := note (.unmap .kmap vaddr)

/-- `dma_buf_vmap`: a buffer that is mapped already is mapped once more at the same address. -/
def dmaBufVmap (b : Buffer) (o : Outcome) : CoreProg (Option VAddr) := do
  match b.exporter.vmap b.priv o with
  | none =>
    note (.map .vmap none)
    return none
  | some found =>
    let c := (← get).buf
    if c.vmappingCounter ≠ 0 then
      if c.vmapPtr = none then throw .vmap
      modify fun s ↦ { s with buf := { c with vmappingCounter := c.vmappingCounter + 1 } }
      note (.map .vmap c.vmapPtr)
      return c.vmapPtr
    else
      if c.vmapPtr ≠ none then throw .vmap
      if found ≠ none then
        modify fun s ↦ { s with buf := { c with vmapPtr := found, vmappingCounter := 1 } }
      note (.map .vmap found)
      return found

def dmaBufVunmap (vaddr : Option VAddr) : CoreProg Unit := do
  note (.unmap .vmap vaddr)
  let c := (← get).buf
  if c.vmapPtr = none ∨ c.vmappingCounter = 0 ∨ c.vmapPtr ≠ vaddr then throw .vunmap
  if c.vmappingCounter = 1 then
    modify fun s ↦ { s with buf := { c with vmapPtr := none, vmappingCounter := 0 } }
  else
    modify fun s ↦ { s with buf := { c with vmappingCounter := c.vmappingCounter - 1 } }

/-! ## The importers -/

/-- `importer_test` of dma-buf/06 and `importer_test1` of dma-buf/08. -/
def importerTest (b : Buffer) (o : Outcome) : CoreProg ℤ := do
  let vaddr ← dmaBufKmap b o
  dmaBufKunmap vaddr
  let vaddr ← dmaBufVmap b o
  dmaBufVunmap vaddr
  return 0

/-- `importer_test2` of dma-buf/08, as far as it maps and unmaps.  `attached` says whether there is
memory for the device and it can be attached. -/
def importerTest2 (b : Buffer) (o : Outcome) (attached : Bool) : CoreProg ℤ := do
  if attached = false then return -ENOMEM
  note (.map .attachment (b.exporter.mapDmaBuf o))
  match b.exporter.mapDmaBuf o with
  | none => return -ENOMEM
  | some table =>
    note (.unmap .attachment (some table))
    return 0

inductive Importer
  | fd06
  | page08
  deriving DecidableEq

/-- What the environment decides for one call of `importer_ioctl`. -/
structure Request where
  /-- The descriptor could be read. -/
  copied : Bool
  /-- The buffer it names, if it names one. -/
  dmabuf : Option Buffer
  found : Outcome
  attached : Bool

def importerIoctl (i : Importer) (r : Request) : CoreProg ℤ := do
  if r.copied = false then return -EFAULT
  match r.dmabuf with
  | none => return -EBADF
  | some b =>
    modify fun s ↦ { s with buf := { s.buf with fCount := s.buf.fCount + 1 } }
    let _ ← importerTest b r.found
    if i = .page08 then
      let _ ← importerTest2 b r.found r.attached
    modify fun s ↦ { s with buf := { s.buf with fCount := s.buf.fCount - 1 } }
    return 0

/-! ## What is unmapped was mapped -/

/-- Whatever the calls unmap, they or somebody before them have mapped and not unmapped since;
`held` is what was mapped before. -/
def Paired : Multiset (Resource × VAddr) → List Event → Prop
  | _, [] => True
  | held, .map _ none :: es => Paired held es
  | held, .map r (some p) :: es => Paired ((r, p) ::ₘ held) es
  | _, .unmap _ none :: _ => False
  | held, .unmap r (some p) :: es => (r, p) ∈ held ∧ Paired (held.erase (r, p)) es

instance decidablePaired : (held : Multiset (Resource × VAddr)) → (es : List Event) →
    Decidable (Paired held es)
  | _, [] => isTrue trivial
  | held, .map _ none :: es => decidablePaired held es
  | held, .map r (some p) :: es => decidablePaired ((r, p) ::ₘ held) es
  | _, .unmap _ none :: _ => isFalse id
  | held, .unmap r (some p) :: es =>
    haveI := decidablePaired (held.erase (r, p)) es
    inferInstanceAs (Decidable (_ ∧ _))

theorem paired_map_unmap {held : Multiset (Resource × VAddr)} {r : Resource} {p : Option VAddr}
    {es : List Event} :
    Paired held (.map r p :: .unmap r p :: es) ↔ p.isSome ∧ Paired held es := by
  cases p with
  | none => simp [Paired]
  | some p => simp [Paired]

/-- Both calls return an address: the exporter's `map` does, and the buffer is mapped already or
the exporter's `vmap`, if it has one, returns one. -/
def Plays (c : CoreBuf) (b : Buffer) (o : Outcome) : Prop :=
  (b.exporter.map b.priv o).isSome ∧ ∃ found, b.exporter.vmap b.priv o = some found ∧
    (0 < c.vmappingCounter ∨ found.isSome)

/-- The address at which `dma_buf_vmap` finds the buffer: where it is mapped already, or where the
exporter maps it. -/
def vmapAddress (c : CoreBuf) (b : Buffer) (o : Outcome) : Option VAddr :=
  match b.exporter.vmap b.priv o with
  | none => none
  | some found => if c.vmappingCounter = 0 then found else c.vmapPtr

section

variable {s : State} {b : Buffer} {o : Outcome}

/-- There is an address if the buffer has a `vmap` that returns one, or is mapped already. -/
theorem vmapAddress_isSome_iff {c : CoreBuf} (h : c.WellFormed) :
    (vmapAddress c b o).isSome ↔ ∃ found, b.exporter.vmap b.priv o = some found ∧
      (0 < c.vmappingCounter ∨ found.isSome) := by
  rw [CoreBuf.WellFormed] at h
  rw [vmapAddress]
  cases b.exporter.vmap b.priv o with
  | none => simp
  | some found =>
    by_cases hcount : c.vmappingCounter = 0
    · simp [hcount]
    · have hpos := Nat.pos_of_ne_zero hcount
      simp only [if_neg hcount]
      exact iff_of_true (h.mpr hpos) ⟨found, rfl, .inl hpos⟩

/-- `dma_buf_vmap` returns that address, and then the buffer is mapped there. -/
theorem wp_dmaBufVmap (h : s.buf.WellFormed) :
    wp (dmaBufVmap b o) (fun r t ↦ t.events = s.events ++ [.map .vmap r] ∧ t.buf.WellFormed ∧
      r = vmapAddress s.buf b o ∧ (r.isSome → t.buf.vmapPtr = r)) (fun _ _ ↦ False) s := by
  rw [CoreBuf.WellFormed] at h
  rw [dmaBufVmap, vmapAddress]
  cases b.exporter.vmap b.priv o with
  | none => exact ⟨rfl, h, rfl, by simp⟩
  | some found =>
    simp only [wp_bind, wp_get]
    by_cases hcount : s.buf.vmappingCounter = 0
    · have hnone : s.buf.vmapPtr = none := by
        rw [← Option.not_isSome_iff_eq_none, h, hcount]
        exact Nat.lt_irrefl 0
      rw [if_neg (not_not.mpr hcount), if_neg (not_not.mpr hnone), if_pos hcount]
      cases found with
      | none =>
        rw [if_neg (by simp)]
        exact ⟨rfl, h, rfl, by simp⟩
      | some p =>
        rw [if_pos (by simp)]
        exact ⟨rfl, iff_of_true rfl Nat.one_pos, rfl, fun _ ↦ rfl⟩
    · obtain ⟨p, hp⟩ := Option.isSome_iff_exists.mp (h.mpr (Nat.pos_of_ne_zero hcount))
      rw [if_pos hcount, hp, if_neg (by simp), if_neg hcount]
      exact ⟨rfl, iff_of_true rfl (Nat.succ_pos _), rfl, fun _ ↦ rfl⟩

/-- `dma_buf_vunmap` of the address a buffer is mapped at. -/
theorem wp_dmaBufVunmap {p : VAddr} (h : s.buf.WellFormed) (hp : s.buf.vmapPtr = some p) :
    wp (dmaBufVunmap (some p)) (fun _ t ↦ t.events = s.events ++ [.unmap .vmap (some p)] ∧
      t.buf.WellFormed) (fun _ _ ↦ False) s := by
  rw [CoreBuf.WellFormed, hp] at h
  have hpos : 0 < s.buf.vmappingCounter := h.mp rfl
  simp only [dmaBufVunmap, note, wp_bind, wp_modify, wp_get, hp]
  rw [if_neg (by simp; omega)]
  split
  · exact ⟨rfl, by simp [CoreBuf.WellFormed]⟩
  · refine ⟨rfl, ?_⟩
    simp only [CoreBuf.WellFormed, Option.isSome_some, true_iff]
    omega

/-- `dma_buf_vunmap` of `NULL` stops the machine, before it has changed anything. -/
theorem wp_dmaBufVunmap_none :
    wp (dmaBufVunmap none) (fun _ _ ↦ False)
      (fun _ t ↦ t.events = s.events ++ [.unmap .vmap none] ∧ t.buf = s.buf) s := by
  simp only [dmaBufVunmap, note, wp_bind, wp_modify, wp_get]
  rw [if_pos]
  · exact ⟨rfl, rfl⟩
  · by_cases hnone : s.buf.vmapPtr = none
    · exact .inl hnone
    · exact .inr (.inr hnone)

/-- **The first test** unmaps what it has mapped if and only if both calls return an address;
otherwise the core stops it. -/
theorem wp_importerTest (h : s.buf.WellFormed) :
    wp (importerTest b o) (fun _ t ↦ t.buf.WellFormed ∧ ∃ es, t.events = s.events ++ es ∧
        ∀ es', Paired 0 (es ++ es') ↔ Plays s.buf b o ∧ Paired 0 es')
      (fun _ t ↦ ∃ es, t.events = s.events ++ es ∧ (Paired 0 es ↔ Plays s.buf b o)) s := by
  simp only [importerTest, dmaBufKmap, dmaBufKunmap, note, wp_bind, wp_modify, wp_pure]
  refine wp_of_no_fault (wp_dmaBufVmap h) fun r t ht ↦ ?_
  obtain ⟨hevents, hwf, haddress, hptr⟩ := ht
  have hsome := vmapAddress_isSome_iff (b := b) (o := o) h
  rw [← haddress] at hsome
  cases r with
  | none =>
    rw [wp_bind]
    refine wp_of_fault wp_dmaBufVunmap_none fun _ t' ht' ↦ ?_
    refine ⟨[.map .kmap (b.exporter.map b.priv o), .unmap .kmap (b.exporter.map b.priv o),
      .map .vmap none, .unmap .vmap none], ?_, ?_⟩
    · rw [ht'.1, hevents]
      simp
    · rw [paired_map_unmap, paired_map_unmap, Plays, ← hsome]
      simp
  | some p =>
    rw [wp_bind]
    refine wp_of_no_fault (wp_dmaBufVunmap hwf (hptr rfl)) fun _ t' ht' ↦ ?_
    refine ⟨ht'.2, [.map .kmap (b.exporter.map b.priv o), .unmap .kmap (b.exporter.map b.priv o),
      .map .vmap (some p), .unmap .vmap (some p)], ?_, fun es' ↦ ?_⟩
    · rw [ht'.1, hevents]
      simp
    · show Paired 0 (_ :: _ :: _ :: _ :: es') ↔ _
      rw [paired_map_unmap, paired_map_unmap, Plays, ← hsome]
      simp

/-- The second test unmaps only what it has mapped, whatever the exporter does. -/
theorem wp_importerTest2 (attached : Bool) :
    wp (importerTest2 b o attached) (fun _ t ↦ t.buf = s.buf ∧ ∃ es, t.events = s.events ++ es ∧
      Paired 0 es) (fun _ _ ↦ False) s := by
  rw [importerTest2]
  split
  · exact ⟨rfl, [], by simp, trivial⟩
  · simp only [note, wp_bind, wp_modify]
    cases b.exporter.mapDmaBuf o with
    | none => exact ⟨rfl, [_], rfl, trivial⟩
    | some table =>
      refine ⟨rfl, [.map .attachment (some table), .unmap .attachment (some table)], ?_, ?_⟩
      · show (s.events ++ [_]) ++ [_] = _
        simp
      · rw [paired_map_unmap]
        exact ⟨rfl, trivial⟩

end

/-- **An importer unmaps only what it has mapped** if and only if, in case the descriptor can be
read and names a buffer, the exporter's `map` returns an address, and its `vmap` does or the buffer
is mapped already. -/
theorem importerIoctl_paired_iff {c : CoreBuf} (h : c.WellFormed) (i : Importer) (r : Request) :
    Paired 0 ((importerIoctl i r).final ⟨c, []⟩).events ↔
      (r.copied = true → ∀ b, r.dmabuf = some b → Plays c b r.found) := by
  refine final_of_wp (P := fun t : State ↦ Paired 0 t.events ↔
    (r.copied = true → ∀ b, r.dmabuf = some b → Plays c b r.found)) ?_
  rw [importerIoctl]
  by_cases hcopied : r.copied = false
  · rw [if_pos hcopied]
    exact iff_of_true trivial fun htrue ↦ absurd (hcopied.symm.trans htrue) (by simp)
  rw [if_neg hcopied]
  rw [Bool.not_eq_false] at hcopied
  cases hbuf : r.dmabuf with
  | none => exact iff_of_true trivial fun _ b hb ↦ absurd hb (by simp)
  | some b =>
    have hplays : (r.copied = true → ∀ b', some b = some b' → Plays c b' r.found) ↔
        Plays c b r.found := by
      refine ⟨fun hall ↦ hall hcopied b rfl, fun hb _ b' hb' ↦ ?_⟩
      cases hb'
      exact hb
    rw [hplays]
    simp only [wp_bind, wp_modify]
    refine wp_mono (wp_importerTest (s := ⟨{ c with fCount := c.fCount + 1 }, []⟩) h)
      (fun _ t ht ↦ ?_) fun _ t ht ↦ ?_
    · obtain ⟨-, es, hes, hpaired⟩ := ht
      rw [List.nil_append] at hes
      have hself : Paired 0 es ↔ Plays c b r.found := by
        have hnil := hpaired []
        rw [List.append_nil] at hnil
        exact hnil.trans (and_iff_left trivial)
      split
      · simp only [wp_bind]
        refine wp_of_no_fault (wp_importerTest2 r.attached) fun _ t' ht' ↦ ?_
        obtain ⟨-, es', hes', hpaired'⟩ := ht'
        show Paired 0 t'.events ↔ _
        rw [hes', hes, hpaired es']
        exact and_iff_left hpaired'
      · show Paired 0 t.events ↔ _
        rw [hes]
        exact hself
    · obtain ⟨es, hes, hpaired⟩ := ht
      rw [List.nil_append] at hes
      rw [hes]
      exact hpaired

/-- The importer of dma-buf/08 gets a buffer of its own exporter. -/
theorem importerIoctl_paired_page08 :
    Paired 0 ((importerIoctl .page08
      ⟨true, some ⟨.page08, 0⟩, ⟨some 1, some 2, some 3⟩, true⟩).final
        ⟨⟨1, none, 0⟩, []⟩).events := by
  refine (importerIoctl_paired_iff ?_ .page08 _).mpr fun _ b hb ↦ ?_
  · exact iff_of_false (by simp) (Nat.lt_irrefl 0)
  · cases hb
    exact ⟨rfl, some 2, rfl, .inr rfl⟩

/-- Neither importer looks at what the exporter of dma-buf/04 returns, and both unmap `NULL`. -/
theorem importerIoctl_fd04_not_paired :
    ¬ Paired 0 ((importerIoctl .fd06 ⟨true, some ⟨.fd04, 0⟩, ⟨none, none, none⟩, true⟩).final
        ⟨⟨1, none, 0⟩, []⟩).events ∧
      ¬ Paired 0 ((importerIoctl .page08 ⟨true, some ⟨.fd04, 0⟩, ⟨none, none, none⟩, true⟩).final
        ⟨⟨1, none, 0⟩, []⟩).events :=
  ⟨by decide, by decide⟩

end DmaBuf.Importers
