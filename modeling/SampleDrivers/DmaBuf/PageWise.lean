import SampleDrivers.DmaBuf.IonSizes
import SampleDrivers.DmaBuf.IonViews

/-!
# Page numbers from an importer

An importer that wants one page of a buffer passes its number to `kmap` or `kmap_atomic`.  The
core passes it on as it is, and every exporter makes of it what it likes: those that export a
single page do not look at it, and ion takes it as an index.

* `CpuOps` — the three callbacks; `KmapExporter`, `FdExporter`, `SyncExporter` and `PageExporter`
  have those of dma-buf/02, 06, 07 and 08, and `ionCpuOps` those of dma-buf/09.
* `Answers` — a page of the buffer is shown, the same that `vmap` shows at its place, and for any
  other number the answer is `NULL`.
* `Exports` — a buffer as its exporter makes it; `exports_of_run`: the live buffers of ion are so.
* `mapsPages_iff` — the exporters answer as they should exactly for the pages of the buffer.
-/

set_option autoImplicit false

namespace DmaBuf.PageWise

open Kernel Prog

/-- The callbacks for the CPU; `none` is `NULL`, and `vmap` is told what the kernel finds. -/
structure CpuOps where
  kmapAtomic : BitVec 64 → KProg (Option KernelAddr)
  kmap : BitVec 64 → KProg (Option KernelAddr)
  vmap : Option Addr → KProg (Option KernelAddr)

/-! ## The exporters

Those of dma-buf/02, 06 and 07 return `dmabuf->priv` from all three callbacks. -/

def returnPriv (priv : KernelAddr) : KProg (Option KernelAddr) := return some priv

namespace KmapExporter

def exporterVmap (priv : KernelAddr) (_ : Option Addr) : KProg (Option KernelAddr) :=
  returnPriv priv

def exporterKmapAtomic (priv : KernelAddr) (_pageNum : BitVec 64) : KProg (Option KernelAddr) :=
  returnPriv priv

def exporterKmap (priv : KernelAddr) (_pageNum : BitVec 64) : KProg (Option KernelAddr) :=
  returnPriv priv

/-- `exp_dmabuf_ops` of dma-buf/02. -/
def cpuOps (priv : KernelAddr) : CpuOps :=
  ⟨exporterKmapAtomic priv, exporterKmap priv, exporterVmap priv⟩

end KmapExporter

namespace FdExporter

def exporterKmapAtomic (priv : KernelAddr) (_pageNum : BitVec 64) : KProg (Option KernelAddr) :=
  returnPriv priv

def exporterKmap (priv : KernelAddr) (_pageNum : BitVec 64) : KProg (Option KernelAddr) :=
  returnPriv priv

def exporterVmap (priv : KernelAddr) (_ : Option Addr) : KProg (Option KernelAddr) :=
  returnPriv priv

/-- `exp_dmabuf_ops` of dma-buf/06. -/
def cpuOps (priv : KernelAddr) : CpuOps :=
  ⟨exporterKmapAtomic priv, exporterKmap priv, exporterVmap priv⟩

end FdExporter

namespace SyncExporter

def exporterKmapAtomic (priv : KernelAddr) (_pageNum : BitVec 64) : KProg (Option KernelAddr) :=
  returnPriv priv

def exporterKmap (priv : KernelAddr) (_pageNum : BitVec 64) : KProg (Option KernelAddr) :=
  returnPriv priv

def exporterVmap (priv : KernelAddr) (_ : Option Addr) : KProg (Option KernelAddr) :=
  returnPriv priv

/-- `exp_dmabuf_ops` of dma-buf/07. -/
def cpuOps (priv : KernelAddr) : CpuOps :=
  ⟨exporterKmapAtomic priv, exporterKmap priv, exporterVmap priv⟩

end SyncExporter

/-- `vmap` of one page. -/
def vmapPage (page : Slot) (o : Option Addr) : KProg (Option KernelAddr) := do
  match page with
  | .page p =>
    let k ← get
    match o with
    | some v =>
      if (k.vmaps v).isNone then
        set { k with vmaps := Function.update k.vmaps v (some [p]) }
        return some (.vmap v 0)
      else return none
    | none => return none
  | .null => throw .nullDeref
  | .garbage => throw .uninitialised

namespace PageExporter

def exporterVmap (buf : Buf) (o : Option Addr) : KProg (Option KernelAddr) :=
  vmapPage (pageOf buf) o

def exporterKmapAtomic (buf : Buf) (_pageNum : BitVec 64) : KProg (Option KernelAddr) := do
  return some (← kmap (pageOf buf))

def exporterKmap (buf : Buf) (_pageNum : BitVec 64) : KProg (Option KernelAddr) := do
  return some (← kmap (pageOf buf))

/-- `exp_dmabuf_ops` of dma-buf/08. -/
def cpuOps (buf : Buf) : CpuOps :=
  ⟨exporterKmapAtomic buf, exporterKmap buf, exporterVmap buf⟩

end PageExporter

/-- `exp_dmabuf_ops` of dma-buf/09. -/
def ionCpuOps (buf : Buf) : CpuOps where
  kmapAtomic n := do return some (← ionKmapAtomic buf n.toNat)
  kmap n := do return some (← ionKmap buf n.toNat)
  vmap o := do return (← ionVmap buf o).map fun v ↦ .vmap v 0

/-! ## What an importer should get -/

/-- A callback of a buffer of a given size, whose pages are `ps`, answers for page number `n`. -/
structure Answers (k : KState) (vmap : Option Addr → KProg (Option KernelAddr)) (size : BitVec 64)
    (ps : List Page) (n : BitVec 64) (map : KProg (Option KernelAddr)) : Prop where
  /-- The page is shown, and it is what `vmap` shows at its place, if `vmap` does not fail. -/
  inside : n.toNat < size.toNat / pageSize → ∃ p, ps[n.toNat]? = some p ∧
    wp map (fun r k' ↦ ∃ v, r = some v ∧
      ∀ off < pageSize, k'.kernelByte (v.add off) = some (p, off)) (fun _ _ ↦ False) k ∧
    ∀ o, wp (vmap o) (fun r k' ↦ ∀ v, r = some v → ∀ off < pageSize,
      k'.kernelByte (v.add (pageSize * n.toNat + off)) = some (p, off)) (fun _ _ ↦ False) k
  /-- There is no such page. -/
  outside : size.toNat / pageSize ≤ n.toNat → wp map (fun r _ ↦ r = none) (fun _ _ ↦ False) k

def MapsPages (k : KState) (ops : CpuOps) (size : BitVec 64) (ps : List Page) (n : BitVec 64) :
    Prop :=
  Answers k ops.vmap size ps n (ops.kmap n) ∧ Answers k ops.vmap size ps n (ops.kmapAtomic n)

/-- A buffer of an exporter, with its size and its pages. -/
inductive Exports (k : KState) : CpuOps → BitVec 64 → List Page → Prop
  | kmap (p : Page) : Exports k (KmapExporter.cpuOps (.direct p 0)) 4096 [p]
  | fd (p : Page) : Exports k (FdExporter.cpuOps (.direct p 0)) 4096 [p]
  | sync (p : Page) : Exports k (SyncExporter.cpuOps (.direct p 0)) 4096 [p]
  | page {buf : Buf} {p : Page} (hpriv : buf.priv = .page p) (hsize : buf.size = 4096) :
    Exports k (PageExporter.cpuOps buf) buf.size [p]
  | ion {buf : Buf} {ps : List Page} (h : k.Holds buf ps)
    (hsize : 0 < ps.length → buf.size.toNat = pageSize * ps.length) :
    Exports k (ionCpuOps buf) buf.size ps

/-! ## What an importer gets -/

section

variable {k : KState} {vmap : Option Addr → KProg (Option KernelAddr)} {size n : BitVec 64}
  {ps : List Page} {map : KProg (Option KernelAddr)} {p : Page}

/-- The byte at an offset of a page that is always mapped. -/
theorem kernelByte_direct {off : ℕ} (hoff : off < pageSize) :
    k.kernelByte ((KernelAddr.direct p 0).add off) = some (p, off) := by
  rw [KernelAddr.add, Nat.zero_add, KState.kernelByte, if_pos hoff]

/-- A callback that finds the pages there are, and does not return `NULL` otherwise. -/
theorem answers_iff (hsize : 0 < ps.length → size.toNat = pageSize * ps.length)
    (hin : ∀ p, ps[n.toNat]? = some p → wp map (fun r _ ↦ r = some (.direct p 0))
      (fun _ _ ↦ False) k)
    (hout : ps[n.toNat]? = none → ¬ wp map (fun r _ ↦ r = none) (fun _ _ ↦ False) k)
    (hvmap : ∀ o, wp (vmap o) (fun r k' ↦ ∀ v, r = some v → ∀ i p off, ps[i]? = some p →
      off < pageSize → k'.kernelByte (v.add (pageSize * i + off)) = some (p, off))
      (fun _ _ ↦ False) k) :
    Answers k vmap size ps n map ↔ n.toNat < ps.length := by
  constructor
  · intro h
    by_contra hge
    have hnone : ps[n.toNat]? = none := List.getElem?_eq_none (Nat.not_lt.mp hge)
    rcases Nat.lt_or_ge n.toNat (size.toNat / pageSize) with hlt | hle
    · obtain ⟨p, hp, -⟩ := h.inside hlt
      cases hnone.symm.trans hp
    · exact hout hnone (h.outside hle)
  · intro hlt
    have hpages : size.toNat / pageSize = ps.length := by
      rw [hsize (Nat.zero_lt_of_lt hlt), Nat.mul_div_cancel_left _ pageSize_pos]
    have hp : ps[n.toNat]? = some ps[n.toNat] := List.getElem?_eq_getElem hlt
    refine ⟨fun _ ↦ ⟨ps[n.toNat], hp, ?_, fun o ↦ ?_⟩, fun hle ↦ ?_⟩
    · refine wp_imp (hin _ hp) fun r k' hr ↦ ?_
      exact ⟨_, hr, fun off hoff ↦ kernelByte_direct hoff⟩
    · refine wp_imp (hvmap o) fun r k' hr v hv off hoff ↦ ?_
      exact hr v hv _ _ off hp hoff
    · rw [hpages] at hle
      exact absurd hlt (Nat.not_lt.mpr hle)

/-- A callback that shows the one page of its buffer, whatever it is asked for. -/
theorem answers_onePage_iff (hmap : wp map (fun r _ ↦ r = some (.direct p 0)) (fun _ _ ↦ False) k)
    (hvmap : ∀ o, wp (vmap o) (fun r k' ↦ ∀ v, r = some v → ∀ off < pageSize,
      k'.kernelByte (v.add off) = some (p, off)) (fun _ _ ↦ False) k) :
    Answers k vmap 4096 [p] n map ↔ n.toNat < 1 := by
  refine answers_iff (fun _ ↦ rfl) (fun p' hp' ↦ ?_) (fun _ hnull ↦ ?_) fun o ↦ ?_
  · obtain rfl := List.mem_singleton.mp (List.mem_of_getElem? hp')
    exact hmap
  · simp only [wp] at hmap hnull
    split at hmap
    · rename_i hrun
      rw [hrun, hmap] at hnull
      cases hnull
    · exact hmap
  · refine wp_imp (hvmap o) fun r k' hr v hv i p' off hp' hoff ↦ ?_
    obtain ⟨hi, rfl⟩ := List.getElem?_eq_some_iff.mp hp'
    obtain rfl : i = 0 := Nat.lt_one_iff.mp hi
    rw [Nat.mul_zero, Nat.zero_add]
    exact hr v hv off hoff

/-- The exporters that return the address of their page. -/
theorem answers_returnPriv_iff :
    Answers k (fun _ ↦ returnPriv (.direct p 0)) 4096 [p] n (returnPriv (.direct p 0)) ↔
      n.toNat < 1 := by
  refine answers_onePage_iff ((wp_pure _).mpr rfl) fun _ ↦ (wp_pure _).mpr ?_
  rintro _ ⟨⟩ off hoff
  exact kernelByte_direct hoff

/-- `vmap` of one page shows the page. -/
theorem wp_vmapPage (o : Option Addr) :
    wp (vmapPage (.page p) o) (fun r k' ↦ ∀ v, r = some v → ∀ off < pageSize,
      k'.kernelByte (v.add off) = some (p, off)) (fun _ _ ↦ False) k := by
  simp only [vmapPage, wp_bind, wp_get]
  split
  · rename_i v
    split
    · rintro _ ⟨⟩ off hoff
      show KState.kernelByte _ (.vmap v (0 + off)) = _
      simp only [KState.kernelByte, Function.update_self, Option.bind_eq_bind, Option.bind_some,
        Nat.zero_add, Nat.div_eq_of_lt hoff, Nat.mod_eq_of_lt hoff]
      rfl
    · exact fun _ hnone ↦ absurd hnone (by simp)
  · exact fun _ hnone ↦ absurd hnone (by simp)

/-- Ion shows the pages there are, and returns no `NULL`. -/
theorem answers_ion_iff {buf : Buf} {f : Buf → ℕ → KProg KernelAddr} (h : k.Holds buf ps)
    (hsize : 0 < ps.length → buf.size.toNat = pageSize * ps.length)
    (hf : ∀ i, f buf i = do DmaBuf.kmap (← loadPage (ionDataOf buf) i)) :
    Answers k (ionCpuOps buf).vmap buf.size ps n (do return some (← f buf n.toNat)) ↔
      n.toNat < ps.length := by
  obtain ⟨b, d, hpriv, hd, hholds⟩ := h.data
  have hbytes := hholds.bytes
  have hdata : ionDataOf buf = .addr b := by rw [ionDataOf, hpriv]
  refine answers_iff hsize (fun p hp ↦ ?_) (fun _ hnull ↦ ?_) fun o ↦ ?_
  · obtain ⟨hlt, rfl⟩ := List.getElem?_eq_some_iff.mp hp
    rw [hf, wp_bind, hdata, wp_bind, wp_loadPage hd (by omega), hholds.pages _ hlt]
    rfl
  · have hreturns : Returns (· ≠ none) (do return some (← f buf n.toNat)) :=
      .last fun v ↦ .pure (Option.some_ne_none v)
    have hboth := hreturns.and_wp hnull
    simp only [wp] at hboth
    split at hboth
    · exact hboth.1 hboth.2
    · exact hboth
  · rw [ionCpuOps, wp_bind]
    refine wp_imp (h.viewsAgree.vmap o) fun r k' hr ↦ ?_
    rw [wp_pure]
    rintro v hv i p off hp hoff
    obtain ⟨w, rfl, rfl⟩ := Option.map_eq_some_iff.mp hv
    obtain ⟨hi, rfl⟩ := List.getElem?_eq_some_iff.mp hp
    exact hr.2 w rfl i off hi hoff

end

/-! ## The buffers of ion -/

/-- The live buffers are as ion makes them. -/
def IonExports (k : KState) : Prop :=
  ∀ b buf, k.bufs b = some buf → ∃ ps, k.Holds buf ps ∧
    (0 < ps.length → buf.size.toNat = pageSize * ps.length)

section

variable {k k' : KState} {b : BufId} {buf : Buf} {ps : List Page} {size : BitVec 64} {a : Addr}

/-- A new buffer has the size of its pages. -/
theorem size_of_allocated (h : Allocated k size a b ps k') (hpos : 0 < ps.length) :
    (ionSize (ionNpages size)).toNat = pageSize * ps.length := by
  have hint : 0 < (ionNpages size).toInt := by
    rw [h.length, rounds] at hpos
    omega
  rw [ionSize_toNat hint, h.length, rounds_of_toInt_pos hint]
  rfl

theorem IonExports.congr (h : IonExports k) (hpages : k'.pages = k.pages)
    (hdata : k'.ionDataAt = k.ionDataAt) (hbufs : k'.bufs = k.bufs) : IonExports k' := by
  intro b buf hbuf
  rw [hbufs] at hbuf
  obtain ⟨ps, hps, hsize⟩ := h b buf hbuf
  exact ⟨ps, hps.congr hpages hdata, hsize⟩

theorem IonExports.frame (h : IonExports k) (hmem : k'.memory = k.memory) : IonExports k' :=
  h.congr (congrArg (fun m ↦ m.1) hmem) (congrArg (fun m ↦ m.2.2.2.1) hmem)
    (congrArg (fun m ↦ m.2.2.2.2) hmem)

/-- The buffers that were there before stay as they are. -/
theorem IonExports.others (h : IonExports k) (hothers : KeepsOthers k b k')
    (hb : ∀ buf, k'.bufs b = some buf → ∃ ps, k'.Holds buf ps ∧
      (0 < ps.length → buf.size.toNat = pageSize * ps.length)) : IonExports k' := by
  intro b' buf hbuf
  by_cases hbb : b' = b
  · subst hbb
    exact hb buf hbuf
  · rw [hothers.bufs b' hbb] at hbuf
    obtain ⟨ps, hps, hsize⟩ := h b' buf hbuf
    exact ⟨ps, hothers.holds b' buf ps hbb hbuf hps, hsize⟩

/-- A buffer that is allocated has the size of its pages. -/
theorem IonExports.alloc (h : IonExports k) (howned : Owned k) (size : BitVec 64)
    (o : AllocOutcome) : IonExports ((ionAlloc size o).final k) := by
  cases hres : (ionAlloc size o).result k with
  | some r =>
    have hdone := result_of_wp (wp_ionAlloc k size o) hres
    generalize (ionAlloc size o).final k = k' at hdone ⊢
    cases hdone with
    | allocated hok ha hb halloc =>
      refine h.others (howned.keepsOthers_allocated halloc) fun buf hbuf ↦ ?_
      rw [halloc.bufs_self] at hbuf
      cases hbuf
      exact ⟨_, halloc.holds, size_of_allocated halloc⟩
    | failed he hok hsame =>
      refine h.congr hsame.pages ?_ (congrArg (fun r ↦ r.2.2.2.1) hsame.rest)
      funext a
      rw [KState.ionDataAt, KState.ionDataAt, hsame.heap]
  | none =>
    obtain ⟨-, -, -, hsame⟩ := fault_of_wp (wp_ionAlloc k size o) hres
    exact hsame.symm ▸ h

/-- A buffer that is released is gone. -/
theorem IonExports.release (h : IonExports k) (howned : Owned k) (hbuf : k.bufs b = some buf) :
    IonExports (((ionRelease buf).final k).dropBuf b) := by
  obtain ⟨a, ps, hps, hpriv, hrel⟩ := howned.ionRelease_final hbuf
  refine h.others (howned.keepsOthers_released hbuf hps hpriv hrel) fun buf' hbuf' ↦ ?_
  have hnone : (((ionRelease buf).final k).dropBuf b).bufs b = none := Function.update_self ..
  cases hnone.symm.trans hbuf'

/-- **Every call** leaves the buffers as ion makes them. -/
theorem IonExports.step {act : IonAction} (h : IonExports k) (howned : Owned k)
    (hstep : ionMachine.step k act = some k') : IonExports k' := by
  cases act with
  | alloc size o =>
    obtain rfl := Option.some_inj.mp hstep
    exact h.alloc howned size o
  | map b dir o =>
    obtain ⟨buf, -, rfl⟩ := Option.map_eq_some_iff.mp hstep
    exact h.frame ((keeps_ionMapDmaBuf buf dir o).final k)
  | unmap table dir =>
    obtain rfl := Option.some_inj.mp hstep
    exact h.frame ((keeps_unmapDmaBuf .ion table dir).final k)
  | vmap b o =>
    obtain ⟨buf, -, rfl⟩ := Option.map_eq_some_iff.mp hstep
    exact h.frame ((keeps_ionVmap buf o).final k)
  | vunmap b vaddr =>
    obtain ⟨buf, -, rfl⟩ := Option.map_eq_some_iff.mp hstep
    exact h.frame ((keeps_ionVunmap buf vaddr).final k)
  | release b =>
    obtain ⟨buf, hbuf, rfl⟩ := Option.map_eq_some_iff.mp hstep
    exact h.release howned hbuf

/-- **The live buffers of ion** are as ion makes them, after any sequence of calls. -/
theorem exports_of_run {k₀ : KState} {as : List IonAction} (h₀ : NothingOwned k₀)
    (hrun : ionMachine.Run Machine.free k₀ as k) (hbuf : k.bufs b = some buf) :
    ∃ ps, Exports k (ionCpuOps buf) buf.size ps := by
  have hstart : IonExports k₀ := by
    intro b buf hbuf
    rw [h₀.bufs b] at hbuf
    cases hbuf
  have hboth : Owned k ∧ IonExports k :=
    hrun.invariant (I := fun k ↦ Owned k ∧ IonExports k)
      (fun _ _ _ h _ hstep ↦ ⟨(h.1.step hstep).1, h.2.step h.1 hstep⟩) ⟨h₀.owned, hstart⟩
  obtain ⟨ps, hps, hsize⟩ := hboth.2 b buf hbuf
  exact ⟨ps, .ion hps hsize⟩

end

/-- **Pages by number.**  `kmap` and `kmap_atomic` show the page an importer has asked for, and
return `NULL` where there is none, if and only if there is one. -/
theorem mapsPages_iff {k : KState} {ops : CpuOps} {size : BitVec 64} {ps : List Page}
    (h : Exports k ops size ps) (n : BitVec 64) :
    MapsPages k ops size ps n ↔ n.toNat < ps.length := by
  rw [MapsPages]
  cases h with
  | kmap p => exact (and_congr answers_returnPriv_iff answers_returnPriv_iff).trans and_self_iff
  | fd p => exact (and_congr answers_returnPriv_iff answers_returnPriv_iff).trans and_self_iff
  | sync p => exact (and_congr answers_returnPriv_iff answers_returnPriv_iff).trans and_self_iff
  | page hpage hsize =>
    rename_i buf p
    have hslot : pageOf buf = .page p := by rw [pageOf, hpage]
    have hvmap : ∀ o, wp ((PageExporter.cpuOps buf).vmap o) (fun r k' ↦ ∀ v, r = some v →
        ∀ off < pageSize, k'.kernelByte (v.add off) = some (p, off)) (fun _ _ ↦ False) k := by
      intro o
      show wp (vmapPage (pageOf buf) o) _ _ k
      rw [hslot]
      exact wp_vmapPage o
    have hkmap : wp (do return some (← DmaBuf.kmap (pageOf buf))) (fun r _ ↦ r = some (.direct p 0))
        (fun _ _ ↦ False) k := by
      rw [hslot]
      rfl
    rw [hsize]
    exact (and_congr (answers_onePage_iff hkmap hvmap) (answers_onePage_iff hkmap hvmap)).trans
      and_self_iff
  | ion hps hsize =>
    have hkmap := answers_ion_iff (n := n) (f := ionKmap) hps hsize fun _ ↦ rfl
    have hatomic := answers_ion_iff (n := n) (f := ionKmapAtomic) hps hsize fun _ ↦ rfl
    exact (and_congr hkmap hatomic).trans and_self_iff

/-- Page 0 of a buffer of dma-buf/02, and the last page of an ion buffer of three. -/
theorem mapsPages_zero : MapsPages .boot (KmapExporter.cpuOps (.direct 5 0)) 4096 [5] 0 ∧
    ∃ k buf, ionMachine.exec .boot threePageRun = some k ∧ k.bufs 1 = some buf ∧
      MapsPages k (ionCpuOps buf) buf.size [7, 8, 9] 2 := by
  refine ⟨(mapsPages_iff (.kmap 5) 0).mpr (by decide), _, _, rfl, rfl, ?_⟩
  refine (mapsPages_iff (.ion ⟨⟨1, _, rfl, rfl, ⟨3, rfl, rfl⟩, fun i hi ↦ ?_, by decide⟩,
    by decide, by decide⟩ fun _ ↦ rfl) 2).mpr (by decide)
  rcases i with _ | _ | _ | i
  · rfl
  · rfl
  · rfl
  · exact absurd hi (by simp)

/-- Page 1 of a buffer of one page: the exporter of dma-buf/02 presents page 0 as page 1, and ion
reads past the end of its array. -/
theorem pageOne_not_mapsPages :
    (KmapExporter.exporterKmap (.direct 5 0) 1).result .boot = some (some (.direct 5 0)) ∧
      ¬ MapsPages .boot (KmapExporter.cpuOps (.direct 5 0)) 4096 [5] 1 ∧
      ∃ k buf, ionMachine.exec .boot twoBufferRun = some k ∧ k.bufs 1 = some buf ∧
        buf.size = 4096 ∧ ionKmap buf 1 k = .error .outOfBounds k ∧
        ¬ MapsPages k (ionCpuOps buf) buf.size [7] 1 := by
  refine ⟨rfl, fun h ↦ ?_, _, _, rfl, rfl, rfl, rfl, fun h ↦ ?_⟩
  · have hnull : some (KernelAddr.direct 5 0) = none := h.1.outside (by decide)
    cases hnull
  · exact h.1.outside (by decide)

end DmaBuf.PageWise
