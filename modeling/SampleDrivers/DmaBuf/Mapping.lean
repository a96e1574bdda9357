import SampleDrivers.DmaBuf.Callbacks

/-!
# What mapping a buffer for a device leaves behind

Both exporters answer `map_dma_buf` with a table of their own: they allocate the table and its
entries, fill the entries in, make the mapping for the device, and on the way back give up what
they have allocated if a step fails.  `unmap_dma_buf` finds everything it has to undo in the table.

* `KState.withTable`, `KState.HasTable` — a table and its entries in the heap.
* `MapDone` — what a call of `map_dma_buf` does: nothing, with an error pointer, or a new table and
  one mapping for the device.
* `ionScatterRound` and `wp_ionScatter` — the loop of `ion_map_dma_buf`: after `j` rounds the first
  `j` entries have their pages, the others are blank, and the cursor is at entry `j`.
* `wp_ionMapDmaBuf`, `wp_exporterMapDmaBuf` and their inverses — the callbacks.
-/

set_option autoImplicit false

namespace DmaBuf

open Kernel Prog

/-! ## Tables in the heap -/

section

variable {k : KState} {a s : Addr}

@[simp] theorem KState.setHeap_setHeap (k : KState) (a : Addr) (o o' : Option HeapObj) :
    (k.setHeap a o).setHeap a o' = k.setHeap a o' :=
  congrArg (fun heap ↦ { k with heap := heap }) (Function.update_idem ..)

theorem KState.setHeap_comm (k : KState) (h : a ≠ s) (o o' : Option HeapObj) :
    (k.setHeap a o).setHeap s o' = (k.setHeap s o').setHeap a o :=
  congrArg (fun heap ↦ { k with heap := heap }) (Function.update_comm h ..)

theorem KState.setHeap_of_eq {o : Option HeapObj} (h : k.heap a = o) : k.setHeap a o = k := by
  subst h
  exact congrArg (fun heap ↦ { k with heap := heap }) (Function.update_eq_self ..)

/-- There is room for a table and its entries. -/
structure KState.Room (k : KState) (a s : Addr) : Prop where
  table : k.heap a = none
  sgl : k.heap s = none
  ne : a ≠ s

/-- There is a table at `a`, and its entries `es` are at `s`. -/
structure KState.HasTable (k : KState) (a s : Addr) (es : List SgEntry) : Prop where
  table : k.heap a = some (.sgTable (some ⟨.addr s, es.length, es.length⟩))
  sgl : k.heap s = some (.sgl es)

/-- The kernel with a new table at `a`, whose entries `es` are at `s`. -/
def KState.withTable (k : KState) (a s : Addr) (es : List SgEntry) : KState :=
  (k.setHeap s (some (.sgl es))).setHeap a
    (some (.sgTable (some ⟨.addr s, es.length, es.length⟩)))

/-- The kernel without the table at `a`, its entries at `s`, and its mapping. -/
def KState.withoutTable (k : KState) (a s : Addr) (m : DmaMapping) : KState :=
  { (k.setHeap s none).setHeap a none with dma := k.dma.erase m }

theorem KState.HasTable.ne {es : List SgEntry} (h : k.HasTable a s es) : a ≠ s := by
  rintro rfl
  exact absurd (h.table.symm.trans h.sgl) (by simp)

theorem KState.withTable_hasTable (h : a ≠ s) (es : List SgEntry) :
    (k.withTable a s es).HasTable a s es where
  table := KState.setHeap_heap_self ..
  sgl := (KState.setHeap_heap_of_ne _ _ h.symm).trans (KState.setHeap_heap_self ..)

theorem KState.withTable_heap_of_ne {es : List SgEntry} {a' : Addr} (ha : a' ≠ a) (hs : a' ≠ s) :
    (k.withTable a s es).heap a' = k.heap a' :=
  (KState.setHeap_heap_of_ne _ _ ha).trans (KState.setHeap_heap_of_ne _ _ hs)

/-- Writing as many entries again. -/
theorem KState.withTable_storeSgl (h : a ≠ s) {es es' : List SgEntry}
    (hlen : es'.length = es.length) :
    (k.withTable a s es).setHeap s (some (.sgl es')) = k.withTable a s es' := by
  rw [withTable, withTable, setHeap_comm _ h, setHeap_setHeap, hlen]

/-- Allocating a table and its entries. -/
theorem KState.setHeap_withTable (h : a ≠ s) {n : ℕ} {es : List SgEntry} (hlen : es.length = n)
    (o : Option HeapObj) :
    ((k.setHeap a o).setHeap s (some (.sgl es))).setHeap a
      (some (.sgTable (some ⟨.addr s, n, n⟩))) = k.withTable a s es := by
  rw [withTable, setHeap_comm _ h, setHeap_setHeap, hlen]

/-- What was allocated is given up. -/
theorem KState.withTable_free (h : k.Room a s) {es : List SgEntry} {o : Option HeapObj} :
    ((((k.withTable a s es).setHeap s none).setHeap a o).setHeap a none) = k := by
  rw [withTable, setHeap_setHeap, setHeap_comm _ h.ne, setHeap_setHeap, setHeap_setHeap,
    setHeap_of_eq (k := k) h.sgl, setHeap_of_eq h.table]

theorem wp_kfree_table {t : Option SgTable} {Q : Unit → KState → Prop} {E : Oops → KState → Prop}
    (h : k.heap a = some (.sgTable t)) :
    wp (kfree .sgTable (.addr a)) Q E k ↔ Q () (k.setHeap a none) := by
  have hfree := wp_kfree (E := E) (Q := Q) h
  exact hfree

end

/-! ## Mapping -/

/-- Everything a table needs was found: a place for it and one for its entries. -/
def MapOutcome.Finds (o : MapOutcome) (k : KState) (a s : Addr) : Prop :=
  o.table = some a ∧ o.sgl = some s ∧ k.Room a s

/-- What a call of `map_dma_buf` does, if it makes a table with the entries `es` and a mapping that
depends on where they are.  It fails, and changes nothing, if there is no room or `ok` is false. -/
inductive MapDone (k : KState) (o : MapOutcome) (ok : Prop) (es : List SgEntry)
    (m : KPtr → DmaMapping) : Ptr KPtr → KState → Prop
  | failed (e : ℤ) (h : ¬ (ok ∧ ∃ a s, o.Finds k a s)) : MapDone k o ok es m (.err e) k
  | mapped {a s : Addr} (hok : ok) (hfinds : o.Finds k a s) :
    MapDone k o ok es m (.obj (.addr a)) { k.withTable a s es with dma := m (.addr s) ::ₘ k.dma }

/-- An entry for one page. -/
def SgEntry.ofPage (p : Page) : SgEntry := ⟨.page p, pageSize, 0, 0⟩

/-- A round of the loop of `ion_map_dma_buf`. -/
def ionScatterRound (data : KPtr) (i : ℕ) (sg : SgCursor) : KProg (Option SgCursor) := do
  sgSetPage sg (← loadPage data i) pageSize
  return some (← sgNext sg)

/-- The first `n` entries after `j` rounds over the pages `ps`. -/
def scattered (ps : List Page) (n j : ℕ) : List SgEntry :=
  (ps.take j).map SgEntry.ofPage ++ List.replicate (n - j) .blank

/-- The cursor before round `j` over `n` entries. -/
def cursorAt (sgl : KPtr) (n j : ℕ) : SgCursor := if j < n then .entry sgl j else .null

section

variable {k : KState} {a s : Addr} {ps : List Page} {n j : ℕ}

theorem length_scattered (hj : j ≤ ps.length) (hn : ps.length ≤ n) :
    (scattered ps n j).length = n := by
  rw [scattered, List.length_append, List.length_map, List.length_take_of_le hj,
    List.length_replicate]
  omega

/-- Entry `j` is blank before round `j`. -/
theorem scattered_getElem? (hj : j < ps.length) (hn : ps.length ≤ n) :
    (scattered ps n j)[j]? = some .blank := by
  have hlen : ((ps.take j).map SgEntry.ofPage).length = j := by
    rw [List.length_map, List.length_take_of_le (Nat.le_of_lt hj)]
  rw [scattered, List.getElem?_append_right (Nat.le_of_eq hlen), hlen, Nat.sub_self,
    List.getElem?_replicate, if_pos (by omega)]

/-- **One round fills one entry.** -/
theorem scattered_set (hj : j < ps.length) (hn : ps.length ≤ n) :
    (scattered ps n j).set j (.ofPage ps[j]) = scattered ps n (j + 1) := by
  have hlen : ((ps.take j).map SgEntry.ofPage).length = j := by
    rw [List.length_map, List.length_take_of_le (Nat.le_of_lt hj)]
  have hrep : n - j = n - (j + 1) + 1 := by omega
  rw [scattered, List.set_append_right _ _ (Nat.le_of_eq hlen), hlen, Nat.sub_self, hrep,
    List.replicate_succ, List.set_cons_zero, scattered, ← List.take_append_getElem hj,
    List.map_append, List.append_assoc]
  rfl

/-- **The scatter loop.**  Started at the first of `n` blank entries, after `j` rounds it has given
the first `j` entries the pages of the buffer, has left the others blank, and stands at entry `j`;
no round steps off the end of the list. -/
theorem wp_ionScatter {d : IonData} {b : Addr} (hd : k.heap b = some (.ionData d)) (h : d.Holds ps)
    (hba : b ≠ a) (hbs : b ≠ s) (hne : a ≠ s) (hn : ps.length ≤ n) (hpos : 0 < n)
    (hj : j ≤ ps.length) {E : Oops → KState → Prop} :
    wp (forFrom (ionScatterRound (.addr b)) j 0 (.entry (.addr s) 0))
      (fun r k' ↦ r = (j, cursorAt (.addr s) n j) ∧ k' = k.withTable a s (scattered ps n j)) E
      (k.withTable a s (scattered ps n 0)) := by
  refine wp_forFrom (fun i sg k' ↦ sg = cursorAt (.addr s) n i ∧
    k' = k.withTable a s (scattered ps n i)) (fun i sg k' _ hi hk' ↦ ?_) (fun sg k' hk' ↦ ?_) ?_
  · obtain ⟨rfl, rfl⟩ := hk'
    rw [Nat.zero_add] at hi
    have hip : i < ps.length := by omega
    have hin : i < n := by omega
    have hd' : (k.withTable a s (scattered ps n i)).heap b = some (.ionData d) := by
      rw [KState.withTable_heap_of_ne hba hbs, hd]
    have hsgl := (KState.withTable_hasTable (k := k) hne (scattered ps n i)).sgl
    have hlen := length_scattered (Nat.le_of_lt hip) hn
    have hroom : 8 + 8 * (i + 1) ≤ d.bytes := by
      have hbytes := h.bytes
      omega
    have hset : (scattered ps n i).set i
        { SgEntry.blank with page := .page ps[i], length := pageSize } = scattered ps n (i + 1) :=
      scattered_set hip hn
    have hlen' := length_scattered (j := i + 1) hip hn
    rw [ionScatterRound, wp_bind, wp_loadPage hd' hroom, wp_bind, cursorAt, if_pos hin,
      h.pages i hip, wp_sgSetPage hsgl (scattered_getElem? hip hn), hset,
      KState.withTable_storeSgl hne (hlen'.trans hlen.symm), wp_bind,
      wp_sgNext (KState.withTable_hasTable hne _).sgl, hlen']
    exact ⟨rfl, rfl⟩
  · rw [Nat.zero_add] at hk' ⊢
    exact ⟨congrArg (j, ·) hk'.1, hk'.2⟩
  · rw [cursorAt, if_pos hpos]
    exact ⟨rfl, rfl⟩

end

section

variable {k : KState} {E : Oops → KState → Prop}

/-- `dma_map_sg` of the entries of a table. -/
theorem wp_dmaMapSg {a s : Addr} {es : List SgEntry} {ranges : List DmaRange} {n : ℕ} {dir : DmaDir}
    {Q : ℕ → KState → Prop} (hne : a ≠ s) (hranges : ranges ≠ []) :
    wp (dmaMapSg (.addr s) n dir ranges) Q E (k.withTable a s es) ↔
      Q ranges.length { k.withTable a s (withRanges es ranges) with
        dma := .sg (.addr s) n dir ::ₘ k.dma } := by
  have h := KState.withTable_hasTable (k := k) hne es
  have hstore := KState.withTable_storeSgl (k := k) hne (length_withRanges es ranges)
  rw [dmaMapSg, wp_bind, wp_loadSgl h.sgl, if_neg hranges, wp_bind, wp_storeSgl h.sgl, hstore]
  rfl

theorem wp_dmaMapSg_nil {a s : Addr} {es : List SgEntry} {n : ℕ} {dir : DmaDir}
    {Q : ℕ → KState → Prop} (hne : a ≠ s) :
    wp (dmaMapSg (.addr s) n dir []) Q E (k.withTable a s es) ↔ Q 0 (k.withTable a s es) := by
  rw [dmaMapSg, wp_bind, wp_loadSgl (KState.withTable_hasTable hne es).sgl]
  rfl

/-- Allocating a table. -/
theorem wp_kmallocTable {o : MapOutcome} {Q : KPtr → KState → Prop}
    (hfail : (¬ ∃ a s, o.Finds k a s) → Q .null k)
    (hok : ∀ a, o.table = some a → k.heap a = none →
      Q (.addr a) (k.setHeap a (some (.sgTable none)))) :
    wp (kmalloc 16 (.sgTable none) o.table) Q E k := by
  by_cases htable : ∃ a, o.table = some a ∧ k.heap a = none
  · obtain ⟨a, hoa, ha⟩ := htable
    rw [hoa, wp_kmalloc_of_free (by decide) ha]
    exact hok a hoa ha
  · rw [wp_kmalloc_of_not_free (by decide) fun a ha hk ↦ htable ⟨a, ha, hk⟩]
    refine hfail fun hfinds ↦ ?_
    obtain ⟨a, s, ha, -, hroom⟩ := hfinds
    exact htable ⟨a, ha, hroom.table⟩

/-- Allocating the entries of a table that was just allocated. -/
theorem wp_sgAllocTable_finds {o : MapOutcome} {a : Addr} {n : ℕ} {Q : ℤ → KState → Prop}
    (hoa : o.table = some a) (ha : k.heap a = none)
    (hfail : ∀ e, e ≠ 0 → ¬ (n ≠ 0 ∧ ∃ a s, o.Finds k a s) →
      Q e (k.setHeap a (some (.sgTable none))))
    (hok : ∀ s, n ≠ 0 → o.Finds k a s → Q 0 (k.withTable a s (List.replicate n .blank))) :
    wp (sgAllocTable (.addr a) n o.sgl) Q E (k.setHeap a (some (.sgTable none))) := by
  have ha₁ := k.setHeap_heap_self a (some (.sgTable none))
  by_cases hsgl : n ≠ 0 ∧ ∃ s, o.sgl = some s ∧ (k.setHeap a (some (.sgTable none))).heap s = none
  · obtain ⟨hn, s, hos, hs₁⟩ := hsgl
    have hne : a ≠ s := by
      rintro rfl
      exact absurd (hs₁.symm.trans ha₁) (by simp)
    have hs : k.heap s = none := by rwa [KState.setHeap_heap_of_ne _ _ hne.symm] at hs₁
    rw [hos, wp_sgAllocTable_of_free ha₁ hn hs₁, KState.setHeap_withTable hne List.length_replicate]
    exact hok s hn ⟨hoa, hos, ha, hs, hne⟩
  · rw [wp_sgAllocTable_of_not_free fun hn s hs hk ↦ hsgl ⟨hn, s, hs, hk⟩]
    refine hfail _ (by split <;> decide) fun hfinds ↦ hsgl ?_
    obtain ⟨hn, a', s, ha', hs, hroom⟩ := hfinds
    obtain rfl : a = a' := Option.some_inj.mp (hoa.symm.trans ha')
    refine ⟨hn, s, hs, ?_⟩
    rw [KState.setHeap_heap_of_ne _ _ hroom.ne.symm, hroom.sgl]

/-- Giving a table back that has no entries yet. -/
theorem wp_kfree_newTable {a : Addr} {Q : Unit → KState → Prop} (ha : k.heap a = none) :
    wp (kfree .sgTable (.addr a)) Q E (k.setHeap a (some (.sgTable none))) ↔ Q () k := by
  rw [wp_kfree_table (KState.setHeap_heap_self ..), KState.setHeap_setHeap, KState.setHeap_of_eq ha]

/-- **`ion_map_dma_buf`** makes a table with an entry for every page. -/
theorem wp_ionMapDmaBuf {buf : Buf} {d : IonData} {b : Addr} {ps : List Page} {n : BitVec 32}
    (hpriv : buf.priv = .data (.addr b)) (hd : k.heap b = some (.ionData d)) (h : d.Holds ps)
    (hn : d.npages = some n) (dir : DmaDir) (o : MapOutcome) :
    wp (ionMapDmaBuf buf dir o) (fun r k' ↦ MapDone k o (n.toNat ≠ 0 ∧ o.ranges ≠ [])
      (withRanges (scattered ps n.toNat ps.length) o.ranges) (fun s ↦ .sg s n.toNat dir) r k')
      (fun _ _ ↦ False) k := by
  have hdata : ionDataOf buf = .addr b := by rw [ionDataOf, hpriv]
  have hrounds : rounds n = ps.length := by
    obtain ⟨n', hn', hlen⟩ := h.npages
    rw [hn, Option.some_inj] at hn'
    exact hn' ▸ hlen
  have hle : ps.length ≤ n.toNat := hrounds ▸ rounds_le_toNat n
  rw [ionMapDmaBuf, wp_bind]
  refine wp_kmallocTable (fun hno ↦ .failed _ fun hok ↦ hno hok.2) fun a hoa ha ↦ ?_
  have hba : b ≠ a := by
    rintro rfl
    exact absurd (ha.symm.trans hd) (by simp)
  have hd₁ : (k.setHeap a (some (.sgTable none))).heap b = some (.ionData d) := by
    rw [KState.setHeap_heap_of_ne _ _ hba, hd]
  rw [if_neg (by simp), hdata, wp_bind, wp_loadNpages hd₁ hn, wp_bind]
  refine wp_sgAllocTable_finds hoa ha (fun e he hno ↦ ?_) fun s hn₀ hfinds ↦ ?_
  · rw [if_pos he, wp_bind, wp_kfree_newTable ha]
    exact .failed _ fun hok ↦ hno ⟨hok.1.1, hok.2⟩
  have hroom := hfinds.2.2
  have hne := hroom.ne
  have hbs : b ≠ s := by
    rintro rfl
    exact absurd (hroom.sgl.symm.trans hd) (by simp)
  rw [if_neg (by simp), wp_bind]
  have hblank : List.replicate n.toNat SgEntry.blank = scattered ps n.toNat 0 := rfl
  rw [hblank, wp_loadTable (KState.withTable_hasTable hne _).table, wp_bind, hrounds]
  refine wp_imp (wp_ionScatter hd h hba hbs hne hle (Nat.pos_of_ne_zero hn₀) (Nat.le_refl _))
    fun r k' hk' ↦ ?_
  obtain ⟨-, rfl⟩ := hk'
  rw [wp_bind, length_scattered (Nat.zero_le _) hle]
  by_cases hranges : o.ranges = []
  · have htab := KState.withTable_hasTable (k := k) hne (scattered ps n.toNat ps.length)
    rw [hranges, wp_dmaMapSg_nil hne, if_pos rfl, wp_bind, wp_sgFreeTable htab.table rfl htab.sgl,
      wp_bind, wp_kfree_table (KState.setHeap_heap_self ..), KState.withTable_free hroom]
    exact .failed _ fun hok ↦ hok.1.2 rfl
  · rw [wp_dmaMapSg hne hranges, if_neg (by simpa using hranges)]
    exact .mapped ⟨hn₀, hranges⟩ hfinds

/-- Setting the address of the first entry. -/
theorem wp_setDmaAddress {s : Addr} {e : SgEntry} {es : List SgEntry} {address : ℕ}
    {Q : Unit → KState → Prop} (h : k.heap s = some (.sgl (e :: es))) :
    wp (setDmaAddress (.addr s) address) Q E k ↔
      Q () (k.setHeap s (some (.sgl ({ e with dmaAddress := address } :: es)))) := by
  rw [setDmaAddress, wp_bind, wp_loadSgl h, wp_storeSgl h]

theorem wp_getDmaAddress {s : Addr} {e : SgEntry} {es : List SgEntry} {Q : ℕ → KState → Prop}
    (h : k.heap s = some (.sgl (e :: es))) :
    wp (getDmaAddress (.addr s)) Q E k ↔ Q e.dmaAddress k := by
  rw [getDmaAddress, wp_bind, wp_loadSgl h]
  rfl

/-- Allocating a table with one entry: it fails and changes nothing, or it goes on with the table
that was allocated. -/
theorem wp_allocTable {o : MapOutcome} {f : KPtr → KProg (Ptr KPtr)} {Q : Ptr KPtr → KState → Prop}
    (hfail : ∀ e, (¬ ∃ a s, o.Finds k a s) → Q (.err e) k)
    (hok : ∀ a s, o.Finds k a s → wp (f (.addr a)) Q E (k.withTable a s [.blank])) :
    wp (do
      let table ← kmalloc 16 (.sgTable none) o.table
      if table = .null then return .err ENOMEM
      let err ← sgAllocTable table 1 o.sgl
      if err ≠ 0 then
        kfree .sgTable table
        return .err (-err)
      f table) Q E k := by
  rw [wp_bind]
  refine wp_kmallocTable (hfail _) fun a hoa ha ↦ ?_
  rw [if_neg (by simp), wp_bind]
  refine wp_sgAllocTable_finds hoa ha (fun e he hno ↦ ?_) fun s _ hfinds ↦ ?_
  · rw [if_pos he, wp_bind, wp_kfree_newTable ha]
    exact hfail _ fun hfinds ↦ hno ⟨Nat.one_ne_zero, hfinds⟩
  · rw [if_neg (by simp)]
    exact hok a s hfinds

/-- Storing an address in the entry of a new table, after a mapping was made. -/
theorem wp_setDmaAddress_withTable {a s : Addr} {e : SgEntry} {address : ℕ} {m : DmaMapping}
    {Q : Unit → KState → Prop} (hne : a ≠ s) :
    wp (setDmaAddress (.addr s) address) Q E
        { k.withTable a s [e] with dma := m ::ₘ k.dma } ↔
      Q () { k.withTable a s [{ e with dmaAddress := address }] with dma := m ::ₘ k.dma } := by
  have hsgl : ({ k.withTable a s [e] with dma := m ::ₘ k.dma } : KState).heap s = some (.sgl [e]) :=
    (KState.withTable_hasTable hne [e]).sgl
  have hstore : (k.withTable a s [e]).setHeap s (some (.sgl [{ e with dmaAddress := address }])) =
      k.withTable a s [{ e with dmaAddress := address }] := KState.withTable_storeSgl hne rfl
  rw [wp_setDmaAddress hsgl, ← hstore]
  rfl

/-- **`exporter_map_dma_buf`** of dma-buf/08 makes a table with one entry, for its page. -/
theorem wp_exporterMapDmaBuf (buf : Buf) (dir : DmaDir) (o : MapOutcome) :
    wp (exporterMapDmaBuf buf dir o) (fun r k' ↦
      MapDone k o True [⟨pageOf buf, pageSize, o.dmaAddress, 0⟩]
        (fun _ ↦ .page o.dmaAddress pageSize dir) r k') (fun _ _ ↦ False) k := by
  refine wp_allocTable (fun e h ↦ .failed e fun hok ↦ h hok.2) fun a s hfinds ↦ ?_
  have hne := hfinds.2.2.ne
  have htab := fun es ↦ KState.withTable_hasTable (k := k) hne es
  rw [wp_bind, wp_loadTable (htab _).table, wp_bind, wp_sgSetPage (htab _).sgl rfl,
    KState.withTable_storeSgl hne (List.length_set ..), dmaMapPage, wp_bind, wp_bind, wp_modify,
    wp_pure, wp_bind]
  exact (wp_setDmaAddress_withTable hne).mpr (.mapped trivial hfinds)

end

/-! ## Unmapping -/

section

variable {k : KState} {E : Oops → KState → Prop} {a s : Addr} {es : List SgEntry} {dir : DmaDir}
  {Q : Unit → KState → Prop}

/-- Freeing a table and its entries, once the mapping is undone. -/
theorem wp_freeTable (h : k.HasTable a s es) (m : DmaMapping) :
    wp (do sgFreeTable (.addr a); kfree .sgTable (.addr a)) Q E
      { k with dma := k.dma.erase m } ↔ Q () (k.withoutTable a s m) := by
  have ht : ({ k with dma := k.dma.erase m } : KState).heap a = _ := h.table
  have hs : ({ k with dma := k.dma.erase m } : KState).heap s = _ := h.sgl
  rw [wp_bind, wp_sgFreeTable ht rfl hs, wp_kfree_table (KState.setHeap_heap_self ..),
    KState.setHeap_setHeap]
  rfl

/-- `ion_unmap_dma_buf` undoes the mapping of a table whose entries were mapped. -/
theorem wp_ionUnmapDmaBuf (h : k.HasTable a s es) (hm : .sg (.addr s) es.length dir ∈ k.dma) :
    wp (ionUnmapDmaBuf (.addr a) dir) Q E k ↔
      Q () (k.withoutTable a s (.sg (.addr s) es.length dir)) := by
  rw [ionUnmapDmaBuf, wp_bind, wp_loadTable h.table, wp_bind, dmaUnmapSg, wp_bind,
    wp_loadSgl h.sgl, wp_dmaUnmap hm, wp_freeTable h]

/-- `exporter_unmap_dma_buf` of dma-buf/08 undoes the mapping of a page at the address it finds in
the table. -/
theorem wp_exporterUnmapDmaBuf {e : SgEntry} (h : k.HasTable a s (e :: es))
    (hm : .page e.dmaAddress pageSize dir ∈ k.dma) :
    wp (exporterUnmapDmaBuf (.addr a) dir) Q E k ↔
      Q () (k.withoutTable a s (.page e.dmaAddress pageSize dir)) := by
  rw [exporterUnmapDmaBuf, wp_bind, wp_loadTable h.table, wp_bind, wp_getDmaAddress h.sgl, wp_bind,
    wp_dmaUnmap hm, wp_freeTable h]

end

end DmaBuf
