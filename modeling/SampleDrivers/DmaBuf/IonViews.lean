import SampleDrivers.DmaBuf.Mapping
import SampleDrivers.DmaBuf.PageOwnership
import SampleDrivers.DmaBuf.UserMemory

/-!
# The views of an ion buffer

The same memory is reached in five ways: the kernel maps a page (`kmap`, `kmap_atomic`) or all of
them at once (`vmap`), a process maps the buffer, and a device is given a scatter table.

* `KernelAddr`, `KState.kernelByte` — an address the kernel has got, and the byte it is the address
  of; `KState.userByte` and `SgEntry.byte` are the same for a process and for a device.
* `ionKmap`, `ionKmapAtomic` — the callbacks for single pages.
* `ViewsAgree` — byte `off` of page `n` is byte `off` of the `n`-th page of the array, whichever
  way it is reached; and the loop that fills a scatter table visits each entry once, in order.
* `liveBuffer_viewsAgree` — this holds of every live buffer in every reachable state.
-/

set_option autoImplicit false

namespace DmaBuf

open Kernel Prog
open UserMemory (pageBase)

/-! ## Physical bytes -/

/-- A byte of physical memory: a page and an offset in it. -/
abbrev PhysByte := Page × ℕ

/-- An address in the kernel: in the page that is always mapped there, or where `vm_map_ram` has
mapped an array of pages. -/
inductive KernelAddr
  | direct (page : Page) (off : ℕ)
  | vmap (vaddr : Addr) (off : ℕ)
  deriving DecidableEq, Repr

/-- `addr + n`. -/
def KernelAddr.add : KernelAddr → ℕ → KernelAddr
  | .direct page off, n => .direct page (off + n)
  | .vmap vaddr off, n => .vmap vaddr (off + n)

/-- The byte at a kernel address. -/
def KState.kernelByte (k : KState) : KernelAddr → Option PhysByte
  | .direct page off => if off < pageSize then some (page, off) else none
  | .vmap vaddr off => do
    let ps ← k.vmaps vaddr
    let p ← ps[off / pageSize]?
    return (p, off % pageSize)

/-- The byte at an address of a process, where the page is not a copy of its own. -/
def KState.userByte (k : KState) (pid : Pid) (addr : ℕ) : Option PhysByte :=
  ((k.tables pid).pte (pageBase addr)).map fun p ↦ (p, addr % pageSize)

/-- Byte `off` of an entry of a scatter list. -/
def SgEntry.byte (e : SgEntry) (off : ℕ) : Option PhysByte :=
  if off < e.length then e.page.page?.map fun p ↦ (p, off) else none

/-! ## Single pages -/

/-- `kmap` of a page; on a 64-bit machine `kmap_atomic` gives the same address. -/
def kmap : Slot → KProg KernelAddr
  | .page p => return .direct p 0
  | .null => throw .nullDeref
  | .garbage => throw .uninitialised

/-- `ion_kmap`. -/
def ionKmap (buf : Buf) (pageNum : ℕ) : KProg KernelAddr := do
  kmap (← loadPage (ionDataOf buf) pageNum)

/-- `ion_kmap_atomic`. -/
def ionKmapAtomic (buf : Buf) (pageNum : ℕ) : KProg KernelAddr := do
  kmap (← loadPage (ionDataOf buf) pageNum)

/-! ## The views -/

/-- Whichever way page `n` of the buffer is reached, its byte `off` is byte `off` of the page
`ps[n]`; and none of the ways goes wrong. -/
structure ViewsAgree (k : KState) (buf : Buf) (ps : List Page) : Prop where
  kmap : ∀ n off, (h : n < ps.length) → off < pageSize →
    wp (ionKmap buf n) (fun v k' ↦ k'.kernelByte (v.add off) = some (ps[n], off))
      (fun _ _ ↦ False) k
  kmapAtomic : ∀ n off, (h : n < ps.length) → off < pageSize →
    wp (ionKmapAtomic buf n) (fun v k' ↦ k'.kernelByte (v.add off) = some (ps[n], off))
      (fun _ _ ↦ False) k
  /-- `vmap` finds an address, unless there is none. -/
  vmap : ∀ o, wp (ionVmap buf o)
    (fun r k' ↦ (∀ v, o = some v → k.vmaps v = none → r = some v) ∧
      ∀ v, r = some v → ∀ n off, (h : n < ps.length) → off < pageSize →
        k'.kernelByte ((KernelAddr.vmap v 0).add (pageSize * n + off)) = some (ps[n], off))
    (fun _ _ ↦ False) k
  /-- The whole buffer is mapped, shared, and there is memory for the page table. -/
  mmap : ∀ pid (vma : Vma), vma.vmPgoff = 0 → vma.pages = ps.length → vma.cow = false →
    wp (ionMmap buf pid vma fun _ ↦ true)
      (fun r k' ↦ r = 0 ∧ ∀ n off, (h : n < ps.length) → off < pageSize →
        k'.userByte pid (vma.addr n + off) = some (ps[n], off))
      (fun _ _ ↦ False) k
  /-- A table, if `map_dma_buf` returns one. -/
  map : ∀ dir o, wp (ionMapDmaBuf buf dir o)
    (fun r k' ↦ ∀ table, r = .obj table → ∃ a s es, table = .addr a ∧ k'.HasTable a s es ∧
      ∀ n off, (h : n < ps.length) → off < pageSize →
        ((es[n]?).bind fun e ↦ e.byte off) = some (ps[n], off))
    (fun _ _ ↦ False) k
  /-- The loop over a new table: after `j` rounds the first `j` entries have their pages, the
  others are blank, and the cursor stands at entry `j`, or is `NULL` after the last. -/
  scatter : ∀ a s j, k.Room a s → 0 < ps.length → j ≤ ps.length →
    wp (forFrom (ionScatterRound (ionDataOf buf)) j 0 (.entry (.addr s) 0))
      (fun r k' ↦ r = (j, cursorAt (.addr s) ps.length j) ∧ k' = k.withTable a s
        ((ps.take j).map SgEntry.ofPage ++ List.replicate (ps.length - j) .blank))
      (fun _ _ ↦ False) (k.withTable a s (List.replicate ps.length .blank))

section

variable {k : KState} {buf : Buf} {ps : List Page}

theorem div_pageSize {n off : ℕ} (h : off < pageSize) : (pageSize * n + off) / pageSize = n := by
  rw [Nat.mul_add_div pageSize_pos, Nat.div_eq_of_lt h, Nat.add_zero]

theorem mod_pageSize {n off : ℕ} (h : off < pageSize) : (pageSize * n + off) % pageSize = off := by
  rw [Nat.mul_add_mod, Nat.mod_eq_of_lt h]

/-- An address in page `n` of an area. -/
theorem addr_add (vma : Vma) {n off : ℕ} (h : off < pageSize) :
    pageBase (vma.addr n + off) = vma.addr n ∧ (vma.addr n + off) % pageSize = off := by
  obtain ⟨q, hq⟩ := vma.start_aligned
  have haddr : vma.addr n = pageSize * (q + n) := by rw [Vma.addr, hq, Nat.mul_add]
  rw [haddr, pageBase, div_pageSize h, mod_pageSize h]
  exact ⟨rfl, rfl⟩

/-- The pages of the array are found one by one. -/
theorem slotPages_take {pages : ℕ → Slot} (h : ∀ i (hi : i < ps.length), pages i = .page ps[i])
    {n : ℕ} (hn : n ≤ ps.length) : slotPages pages n = some (ps.take n) := by
  induction n with
  | zero => rfl
  | succ n ih =>
    have hinit := ih (Nat.le_of_succ_le hn)
    rw [slotPages] at hinit
    rw [slotPages, List.range_succ, List.mapM_append, hinit, ← List.take_append_getElem hn]
    simp [h n hn]

theorem slotPages_eq {pages : ℕ → Slot} (h : ∀ i (hi : i < ps.length), pages i = .page ps[i]) :
    slotPages pages ps.length = some ps := by
  rw [slotPages_take h (Nat.le_refl _), List.take_length]

/-- The entries of a table have the pages of the buffer. -/
theorem byte_scattered {n off m : ℕ} (hn : n < ps.length) (hoff : off < pageSize)
    (rs : List DmaRange) :
    (((withRanges (scattered ps m ps.length) rs)[n]?).bind fun e ↦ e.byte off) =
      some (ps[n], off) := by
  have hentry : (scattered ps m ps.length)[n]? = some (.ofPage ps[n]) := by
    rw [scattered, List.take_length, List.getElem?_append_left (by rwa [List.length_map]),
      List.getElem?_map, List.getElem?_eq_getElem hn]
    rfl
  have hfields := withRanges_getElem? (scattered ps m ps.length) rs n
  rw [hentry] at hfields
  obtain ⟨e, he, hpage⟩ := Option.map_eq_some_iff.mp hfields
  obtain ⟨hp, hlen⟩ := Prod.mk.inj hpage
  have hlen' : e.length = pageSize := hlen
  have hp' : e.page = .page ps[n] := hp
  rw [he, Option.bind_some, SgEntry.byte, hlen', if_pos hoff, hp']
  rfl

/-- `ion_kmap` finds the page. -/
theorem KState.Holds.wp_ionKmap (h : k.Holds buf ps) {n off : ℕ} (hn : n < ps.length)
    (hoff : off < pageSize) :
    wp (ionKmap buf n) (fun v k' ↦ k'.kernelByte (v.add off) = some (ps[n], off))
      (fun _ _ ↦ False) k := by
  obtain ⟨b, d, hpriv, hd, hholds⟩ := h.data
  have hdata : ionDataOf buf = .addr b := by rw [ionDataOf, hpriv]
  have hbytes := hholds.bytes
  rw [ionKmap, hdata, wp_bind, wp_loadPage hd (by omega), hholds.pages n hn]
  show k.kernelByte (.direct ps[n] (0 + off)) = _
  rw [Nat.zero_add, kernelByte, if_pos hoff]

/-- `ion_vmap` lays the pages out one after the other. -/
theorem KState.Holds.wp_ionVmap (h : k.Holds buf ps) (o : Option Addr) :
    wp (ionVmap buf o)
      (fun r k' ↦ (∀ v, o = some v → k.vmaps v = none → r = some v) ∧
        ∀ v, r = some v → ∀ n off, (h : n < ps.length) → off < pageSize →
          k'.kernelByte ((KernelAddr.vmap v 0).add (pageSize * n + off)) = some (ps[n], off))
      (fun _ _ ↦ False) k := by
  obtain ⟨b, d, hpriv, hd, hholds⟩ := h.data
  obtain ⟨npages, hnpages, hlen⟩ := hholds.npages
  have hdata : ionDataOf buf = .addr b := by rw [ionDataOf, hpriv]
  rw [ionVmap, hdata, wp_bind, wp_loadIonData hd, wp_bind, wp_loadNpages hd hnpages, hlen,
    slotPages_eq hholds.pages]
  simp only [wp_bind, wp_get]
  split
  · rename_i v
    split
    · rename_i hfree
      refine ⟨fun v' hv' _ ↦ hv' ▸ rfl, fun v' hv' n off hn hoff ↦ ?_⟩
      obtain rfl := Option.some_inj.mp hv'
      show kernelByte _ (.vmap v (0 + (pageSize * n + off))) = _
      simp only [kernelByte, Function.update_self, Option.bind_eq_bind, Option.bind_some,
        Nat.zero_add, div_pageSize hoff, mod_pageSize hoff, List.getElem?_eq_getElem hn]
      rfl
    · rename_i hused
      refine ⟨fun v' hv' hfree ↦ ?_, fun v' hv' ↦ absurd hv' (by simp)⟩
      obtain rfl := Option.some_inj.mp hv'
      exact absurd (Option.isNone_iff_eq_none.mpr hfree) hused
  · exact ⟨fun v hv ↦ absurd hv (by simp), fun v hv ↦ absurd hv (by simp)⟩

/-- `ion_mmap` maps the pages one after the other. -/
theorem KState.Holds.wp_ionMmap (h : k.Holds buf ps) (pid : Pid) {vma : Vma}
    (hpages : vma.pages = ps.length) (hcow : vma.cow = false) :
    wp (ionMmap buf pid vma fun _ ↦ true)
      (fun r k' ↦ r = 0 ∧ ∀ n off, (h : n < ps.length) → off < pageSize →
        k'.userByte pid (vma.addr n + off) = some (ps[n], off))
      (fun _ _ ↦ False) k := by
  rw [wp_of_ok (ionMmap_eq h pid vma _)]
  refine ⟨rfl, fun n off hn hoff ↦ ?_⟩
  obtain ⟨hbase, hmod⟩ := addr_add vma (n := n) hoff
  have hmaps : Maps vma (fun _ ↦ true) n := ⟨rfl, fun hc ↦ absurd (hcow.symm.trans hc) (by simp)⟩
  have hp := (h.inUse ps[n] (List.getElem_mem hn)).2
  have hsome : ps.getD n 0 = ps[n] := by
    rw [List.getD_eq_getElem?_getD, List.getElem?_eq_getElem hn, Option.getD_some]
  rw [userByte, hbase, hmod, setTable_tables_self, ← roundAddr_of_lt (hpages ▸ hn),
    afterRounds_pte (Nat.le_of_lt h.length_lt) hn hmaps, hsome,
    Nat.mod_eq_of_lt (Nat.lt_trans hp (by decide))]
  rfl

/-- `ion_map_dma_buf` puts the pages into the table. -/
theorem KState.Holds.wp_ionMapDmaBuf (h : k.Holds buf ps) (dir : DmaDir) (o : MapOutcome) :
    wp (ionMapDmaBuf buf dir o)
      (fun r k' ↦ ∀ table, r = .obj table → ∃ a s es, table = .addr a ∧ k'.HasTable a s es ∧
        ∀ n off, (h : n < ps.length) → off < pageSize →
          ((es[n]?).bind fun e ↦ e.byte off) = some (ps[n], off))
      (fun _ _ ↦ False) k := by
  obtain ⟨b, d, hpriv, hd, hholds⟩ := h.data
  obtain ⟨npages, hnpages, -⟩ := hholds.npages
  refine wp_imp (DmaBuf.wp_ionMapDmaBuf hpriv hd hholds hnpages dir o) fun r k' hdone ↦ ?_
  rintro table rfl
  cases hdone with
  | mapped hok hfinds =>
    have hroom := hfinds.2.2
    refine ⟨_, _, _, rfl, ⟨(KState.withTable_hasTable hroom.ne _).table,
      (KState.withTable_hasTable hroom.ne _).sgl⟩, fun n off hn hoff ↦ ?_⟩
    exact byte_scattered hn hoff _

/-- **The views of a well-formed buffer agree.** -/
theorem KState.Holds.viewsAgree (h : k.Holds buf ps) : ViewsAgree k buf ps where
  kmap _ _ hn hoff := h.wp_ionKmap hn hoff
  kmapAtomic _ _ hn hoff := h.wp_ionKmap hn hoff
  vmap := h.wp_ionVmap
  mmap pid _ _ hpages hcow := h.wp_ionMmap pid hpages hcow
  map := h.wp_ionMapDmaBuf
  scatter a s j hroom hpos hj := by
    obtain ⟨b, d, hpriv, hd, hholds⟩ := h.data
    have hdata : ionDataOf buf = .addr b := by rw [ionDataOf, hpriv]
    have hba : b ≠ a := fun heq ↦ absurd ((heq ▸ hd).symm.trans hroom.table) (by simp)
    have hbs : b ≠ s := fun heq ↦ absurd ((heq ▸ hd).symm.trans hroom.sgl) (by simp)
    rw [hdata]
    exact wp_ionScatter hd hholds hba hbs hroom.ne (Nat.le_refl _) hpos hj

end

/-- **All views of an ion buffer agree.**  After any sequence of calls, a live buffer has an array
of `npages` pages, and the byte at an offset of page `n` is the same byte of the `n`-th page of the
array for `kmap`, `kmap_atomic`, `vmap`, a shared mapping of the whole buffer, and the tables given
to devices. -/
theorem liveBuffer_viewsAgree {k₀ k : KState} {as : List IonAction} {b : BufId} {buf : Buf}
    (h₀ : NothingOwned k₀) (hrun : ionMachine.Run Machine.free k₀ as k)
    (hbuf : k.bufs b = some buf) :
    ∃ data ps, k.header buf = some data ∧ data.Holds ps ∧ ViewsAgree k buf ps := by
  have hk : Owned k := hrun.invariant (fun _ _ _ h _ hstep ↦ (h.step hstep).1) h₀.owned
  obtain ⟨ps, hps⟩ := hk.live b buf hbuf
  obtain ⟨a, data, hpriv, hdata, hholds⟩ := hps.data
  exact ⟨data, ps, KState.header_eq hpriv hdata, hholds, hps.viewsAgree⟩

/-- Two buffers are allocated, of one page and of three, and the first is released. -/
def threePageRun : List IonAction :=
  [.alloc 1 ⟨some 0, fun i ↦ some ⟨i, fun _ ↦ 0⟩, some 0⟩,
    .alloc 10000 ⟨some 1, fun i ↦ some ⟨7 + i, fun _ ↦ 0⟩, some 1⟩, .release 0]

/-- The buffer of three pages that is left. -/
theorem liveBuffer_viewsAgree_threePages :
    ∃ k buf, ionMachine.exec .boot threePageRun = some k ∧ k.bufs 1 = some buf ∧
      buf.size = 12288 ∧ ∃ data ps, k.header buf = some data ∧ data.Holds ps ∧
        ViewsAgree k buf ps := by
  have hrun : ionMachine.exec .boot threePageRun = some _ := rfl
  exact ⟨_, _, hrun, rfl, rfl,
    liveBuffer_viewsAgree (b := 1) nothingOwned_boot (Machine.exec_eq_some_iff.mp hrun) rfl⟩

end DmaBuf
