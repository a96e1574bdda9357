import SampleDrivers.DmaBuf.Callbacks
import SampleDrivers.Lib.Ownership
import SampleDrivers.Lib.Transition

/-!
# Who owns the pages of the ion exporter

Over any sequence of allocations, mappings for devices and for the kernel, and releases, each of
them succeeding or failing at any point, the pages handed out by `alloc_page` and not given back
are the pages of the live buffers, each of them in one place.

* `machine` — the calls, in any order; a release takes a live buffer and ends its life.
* `KState.slot` — entry `i` of the header of a live buffer, for `i` below its number of pages.
* `Owned` — what every call preserves: the live buffers have well-formed headers of their own, the
  slots own exactly the pages in use, and the number of times a page was handed out exceeds the
  number of times it was put by one exactly while it is in use.
* `pages_exactlyOwned` — this in every reachable state, with an account of which pages each call
  puts: an allocation that fails puts what it got, a release puts the pages of its buffer, and no
  other call puts any.
-/

set_option autoImplicit false

namespace DmaBuf

open Kernel Prog

/-! ## Slots -/

/-- The page an entry points to. -/
def Slot.page? : Slot → Option Page
  | .page p => some p
  | _ => none

/-- The header of an ion buffer. -/
def KState.header (k : KState) (buf : Buf) : Option IonData :=
  match ionDataOf buf with
  | .addr a => k.ionDataAt a
  | _ => none

/-- The page in entry `s.2` of the live buffer `s.1`. -/
def KState.slot (k : KState) (s : BufId × ℕ) : Option Page := do
  let buf ← k.bufs s.1
  let data ← k.header buf
  let npages ← data.npages
  if s.2 < rounds npages then (data.pages s.2).page? else none

theorem KState.header_eq {k : KState} {buf : Buf} {a : Addr} {d : IonData}
    (hpriv : buf.priv = .data (.addr a)) (hd : k.heap a = some (.ionData d)) :
    k.header buf = some d := by
  rw [KState.header, ionDataOf, hpriv]
  exact KState.ionDataAt_eq_some.mpr hd

/-- The slots of a live buffer hold its pages. -/
theorem slot_of_holds {k : KState} {b : BufId} {buf : Buf} {ps : List Page}
    (hbuf : k.bufs b = some buf) (h : k.Holds buf ps) (i : ℕ) : k.slot (b, i) = ps[i]? := by
  obtain ⟨a, d, hpriv, hd, hholds⟩ := h.data
  obtain ⟨n, hn, hlen⟩ := hholds.npages
  simp only [KState.slot, hbuf, KState.header_eq hpriv hd, hn, Option.bind_eq_bind,
    Option.bind_some, hlen]
  split
  · rename_i hi
    rw [hholds.pages i hi, List.getElem?_eq_getElem hi]
    rfl
  · rename_i hi
    exact (List.getElem?_eq_none (Nat.not_lt.mp hi)).symm

theorem slot_of_none {k : KState} {b : BufId} (hbuf : k.bufs b = none) (i : ℕ) :
    k.slot (b, i) = none := by
  simp [KState.slot, hbuf]

theorem slot_congr {k k' : KState} (hdata : k'.ionDataAt = k.ionDataAt)
    (hbufs : k'.bufs = k.bufs) : k'.slot = k.slot := by
  funext s
  simp only [KState.slot, KState.header, hdata, hbufs]

/-- Whether a buffer holds its pages depends on its header and on what is handed out. -/
theorem KState.Holds.transfer {k k' : KState} {buf : Buf} {ps : List Page} (h : k.Holds buf ps)
    (hdata : ∀ a d, buf.priv = .data (.addr a) → k.heap a = some (.ionData d) →
      k'.heap a = some (.ionData d)) (hpages : ∀ p ∈ ps, p ∈ k'.pages) : k'.Holds buf ps where
  data := by
    obtain ⟨a, d, hpriv, hd, hholds⟩ := h.data
    exact ⟨a, d, hpriv, hdata a d hpriv hd, hholds⟩
  nodup := h.nodup
  inUse p hp := ⟨hpages p hp, (h.inUse p hp).2⟩

theorem KState.Holds.congr {k k' : KState} {buf : Buf} {ps : List Page} (h : k.Holds buf ps)
    (hpages : k'.pages = k.pages) (hdata : k'.ionDataAt = k.ionDataAt) : k'.Holds buf ps := by
  refine h.transfer (fun a d _ hd ↦ ?_) fun p hp ↦ hpages ▸ (h.inUse p hp).1
  rw [← KState.ionDataAt_eq_some, hdata]
  exact KState.ionDataAt_eq_some.mpr hd

/-! ## Counting -/

/-- A page was handed out once more than it was put while it is in use, and as often otherwise. -/
def KState.Balanced (k : KState) : Prop :=
  ∀ p, k.gets p = k.puts p + if p ∈ k.pages then 1 else 0

/-- What `Balanced` depends on. -/
def KState.counts (k : KState) := (k.pages, k.gets, k.puts)

theorem KState.Balanced.congr {k k' : KState} (h : k'.counts = k.counts) (hk : k.Balanced) :
    k'.Balanced := by
  intro p
  have hpages : k'.pages = k.pages := congrArg (fun m ↦ m.1) h
  have hgets : k'.gets = k.gets := congrArg (fun m ↦ m.2.1) h
  have hputs : k'.puts = k.puts := congrArg (fun m ↦ m.2.2) h
  rw [hpages, hgets, hputs]
  exact hk p

theorem balanced_grant {k : KState} {g : Grant} (h : k.Balanced) (hfree : g.page ∉ k.pages) :
    (k.grant g).Balanced := by
  intro p
  by_cases hp : p = g.page
  · subst hp
    have hgets : (k.grant g).gets g.page = k.gets g.page + 1 := Function.update_self ..
    have hin : g.page ∈ (k.grant g).pages := mem_grant_pages.mpr (.inl rfl)
    rw [hgets, h, if_neg hfree, if_pos hin]
    rfl
  · have hgets : (k.grant g).gets p = k.gets p := Function.update_of_ne hp ..
    rw [hgets, h]
    simp only [mem_grant_pages, hp, false_or]
    rfl

theorem balanced_put {k : KState} {p : Page} (h : k.Balanced) (hp : p ∈ k.pages) :
    (k.put p).Balanced := by
  intro q
  by_cases hq : q = p
  · subst hq
    have hputs : (k.put q).puts q = k.puts q + 1 := Function.update_self ..
    have hgets : (k.put q).gets q = k.gets q := rfl
    rw [hputs, hgets, h, if_pos hp, if_neg (by simp)]
  · have hputs : (k.put p).puts q = k.puts q := Function.update_of_ne hq ..
    have hgets : (k.put p).gets q = k.gets q := rfl
    rw [hputs, hgets, h]
    simp only [mem_put_pages, ne_eq, hq, not_false_eq_true, true_and]

theorem preserves_allocPage (o : Option Grant) : Preserves KState.Balanced (allocPage o) := by
  intro k
  cases o with
  | none => exact (Evolution.invariant _).refl k
  | some g =>
    by_cases hfree : k.Free g.page
    · rw [wp_allocPage_of_free hfree]
      exact fun h ↦ balanced_grant h hfree.1
    · rw [wp_allocPage_of_not_free fun g' hg' ↦ by rwa [← Option.some_inj.mp hg']]
      exact id

theorem preserves_putPage (s : Slot) : Preserves KState.Balanced (putPage s) := by
  intro k
  cases s with
  | garbage => exact (Evolution.invariant _).refl k
  | null => exact (Evolution.invariant _).refl k
  | page p =>
    by_cases hp : p ∈ k.pages
    · rw [wp_putPage hp]
      exact fun h ↦ balanced_put h hp
    · simp only [putPage, wp_bind, wp_get, hp, ↓reduceIte, wp_throw]
      exact id

theorem counts_kmalloc (bytes : ℕ) (obj : HeapObj) (o : Option Addr) :
    Keeps KState.counts (kmalloc bytes obj o) :=
  keeps_kmalloc_of fun _ _ _ ↦ rfl

theorem counts_kfree (kind : HeapKind) (p : KPtr) : Keeps KState.counts (kfree kind p) :=
  keeps_kfree_of (fun _ _ _ ↦ rfl) p

/-- What leaves all memory alone leaves the counts alone. -/
theorem counts_of_memory {α : Type} {x : KProg α} (h : Keeps KState.memory x) :
    Keeps KState.counts x :=
  h.comp fun m ↦ (m.1, m.2.1, m.2.2.1)

theorem counts_storePage (data : KPtr) (i : ℕ) (page : Slot) :
    Keeps KState.counts (storePage data i page) := by
  refine (counts_of_memory (keeps_loadIonData data)).bind fun d ↦ ?_
  split
  · exact .ite (.throw _) (.modify _ fun _ ↦ rfl)
  · exact .throw _

theorem counts_storeNpages (data : KPtr) (npages : BitVec 32) :
    Keeps KState.counts (storeNpages data npages) := by
  refine (counts_of_memory (keeps_loadIonData data)).bind fun d ↦ ?_
  split
  · exact .ite (.throw _) (.modify _ fun _ ↦ rfl)
  · exact .throw _

theorem counts_dmaBufExport (buf : Buf) (o : Option BufId) :
    Keeps KState.counts (dmaBufExport buf o) := by
  intro k
  by_cases hfree : ∃ b, o = some b ∧ k.bufs b = none
  · obtain ⟨b, rfl, hb⟩ := hfree
    rw [wp_dmaBufExport_of_free hb]
    rfl
  · rw [wp_dmaBufExport_of_not_free fun b hb hk ↦ hfree ⟨b, hb, hk⟩]
    rfl

/-- What leaves the counts alone keeps them balanced. -/
theorem balanced_of_counts {α : Type} {x : KProg α} (h : Keeps KState.counts x) :
    Preserves KState.Balanced x :=
  h.preserves fun _ _ ↦ KState.Balanced.congr

theorem preserves_ionAllocErr (data : KPtr) (i : ℕ) :
    Preserves KState.Balanced (ionAllocErr data i) := by
  refine .bind (.whileDown (fun j ↦ .bind ?_ fun page ↦ preserves_putPage page) i) fun _ ↦ ?_
  · exact balanced_of_counts (counts_of_memory (keeps_loadPage data j))
  · exact (balanced_of_counts (counts_kfree _ data)).bind fun _ ↦ .pure _

/-- `ion_alloc` keeps the account, also when it faults. -/
theorem preserves_ionAlloc (size : BitVec 64) (o : AllocOutcome) :
    Preserves KState.Balanced (ionAlloc size o) := by
  refine .ite (.pure _) ((balanced_of_counts (counts_kmalloc _ _ _)).bind fun data ↦ ?_)
  refine .ite (.pure _) (.bind (.forFrom (fun i _ ↦ ?_) _ _ _) fun r ↦ ?_)
  · exact (preserves_allocPage _).bind fun page ↦
      (balanced_of_counts (counts_storePage _ _ _)).bind fun _ ↦ .pure _
  · obtain ⟨i, -⟩ := r
    refine .ite (preserves_ionAllocErr data i) ?_
    refine (balanced_of_counts (counts_storeNpages data _)).bind fun _ ↦ ?_
    refine (balanced_of_counts (counts_dmaBufExport _ _)).bind fun dmabuf ↦ ?_
    exact .ite (preserves_ionAllocErr data i) (.pure _)

/-! ## The calls -/

/-- A call of the exporter. -/
inductive IonAction
  | alloc (size : BitVec 64) (o : AllocOutcome)
  | map (b : BufId) (dir : DmaDir) (o : MapOutcome)
  | unmap (table : KPtr) (dir : DmaDir)
  | vmap (b : BufId) (o : Option Addr)
  | vunmap (b : BufId) (vaddr : Addr)
  | release (b : BufId)

/-- The buffer is not live any more. -/
def KState.dropBuf (k : KState) (b : BufId) : KState :=
  { k with bufs := Function.update k.bufs b none }

/-- Any sequence of calls.  The callbacks are called for live buffers; `ion_release` is, once, and
that ends the life of the buffer. -/
def ionMachine : Machine KState IonAction where
  step k
    | .alloc size o => some ((ionAlloc size o).final k)
    | .map b dir o => (k.bufs b).map fun buf ↦ (ionMapDmaBuf buf dir o).final k
    | .unmap table dir => some ((ionUnmapDmaBuf table dir).final k)
    | .vmap b o => (k.bufs b).map fun buf ↦ (ionVmap buf o).final k
    | .vunmap b vaddr => (k.bufs b).map fun buf ↦ (ionVunmap buf vaddr).final k
    | .release b => (k.bufs b).map fun buf ↦ ((ionRelease buf).final k).dropBuf b

/-- What every call preserves. -/
structure Owned (k : KState) : Prop where
  /-- The live buffers have well-formed headers. -/
  live : ∀ b buf, k.bufs b = some buf → ∃ ps, k.Holds buf ps
  /-- The headers are their own. -/
  priv_inj : ∀ b b' buf buf', k.bufs b = some buf → k.bufs b' = some buf' →
    buf.priv = buf'.priv → b = b'
  /-- The pages in use are the disjoint union of what the slots hold. -/
  exact : ExactlyOwned (· ∈ k.pages) k.slot
  balanced : k.Balanced

section

variable {k k' : KState}

/-- Nothing about headers, buffers and pages in use has changed. -/
theorem Owned.congr (h : Owned k) (hpages : k'.pages = k.pages)
    (hdata : k'.ionDataAt = k.ionDataAt) (hbufs : k'.bufs = k.bufs) (hbal : k'.Balanced) :
    Owned k' where
  live b buf hbuf := by
    rw [hbufs] at hbuf
    obtain ⟨ps, hps⟩ := h.live b buf hbuf
    exact ⟨ps, hps.congr hpages hdata⟩
  priv_inj b b' buf buf' hbuf hbuf' := by
    rw [hbufs] at hbuf hbuf'
    exact h.priv_inj b b' buf buf' hbuf hbuf'
  exact := by
    rw [hpages, slot_congr hdata hbufs]
    exact h.exact
  balanced := hbal

theorem Owned.frame (h : Owned k) (hmem : k'.memory = k.memory) : Owned k' :=
  h.congr (congrArg (fun m ↦ m.1) hmem) (congrArg (fun m ↦ m.2.2.2.1) hmem)
    (congrArg (fun m ↦ m.2.2.2.2) hmem)
    (h.balanced.congr (congrArg (fun m ↦ (m.1, m.2.1, m.2.2.1)) hmem))

/-- A failed allocation. -/
theorem Owned.failed (h : Owned k) (hsame : k.SameResources k') (hbal : k'.Balanced) : Owned k' :=
  h.congr hsame.pages (by funext a; rw [KState.ionDataAt, KState.ionDataAt, hsame.heap])
    (congrArg (fun r ↦ r.2.2.2.1) hsame.rest) hbal

/-- The header of a live buffer is in use. -/
theorem Owned.heap_ne_none (h : Owned k) {b : BufId} {buf : Buf} (hbuf : k.bufs b = some buf)
    {a : Addr} (hpriv : buf.priv = .data (.addr a)) : k.heap a ≠ none := by
  obtain ⟨ps, hps⟩ := h.live b buf hbuf
  obtain ⟨a', d, hpriv', hd, -⟩ := hps.data
  obtain rfl : a = a' := by simpa [hpriv] using hpriv'
  rw [hd]
  simp

/-! ## One buffer comes or goes -/

/-- Every buffer but `b` is live as before, with the pages it had. -/
structure KeepsOthers (k : KState) (b : BufId) (k' : KState) : Prop where
  bufs : ∀ b', b' ≠ b → k'.bufs b' = k.bufs b'
  holds : ∀ b' buf ps, b' ≠ b → k.bufs b' = some buf → k.Holds buf ps → k'.Holds buf ps

/-- The slots of the other buffers hold what they held. -/
theorem KeepsOthers.slot {b b' : BufId} (h : KeepsOthers k b k') (howned : Owned k) (hb : b' ≠ b)
    (i : ℕ) : k'.slot (b', i) = k.slot (b', i) := by
  cases hbuf : k.bufs b' with
  | none => rw [slot_of_none ((h.bufs b' hb).trans hbuf), slot_of_none hbuf]
  | some buf =>
    obtain ⟨ps, hps⟩ := howned.live b' buf hbuf
    rw [slot_of_holds ((h.bufs b' hb).trans hbuf) (h.holds b' buf ps hb hbuf hps),
      slot_of_holds hbuf hps]

/-- The other buffers are well formed. -/
theorem KeepsOthers.live {b b' : BufId} {buf : Buf} (h : KeepsOthers k b k') (howned : Owned k)
    (hb : b' ≠ b) (hbuf : k'.bufs b' = some buf) : ∃ ps, k'.Holds buf ps := by
  rw [h.bufs b' hb] at hbuf
  obtain ⟨ps, hps⟩ := howned.live b' buf hbuf
  exact ⟨ps, h.holds b' buf ps hb hbuf hps⟩

/-- What the slots of a live buffer hold are its pages. -/
theorem exists_slot_iff {b : BufId} {buf : Buf} {ps : List Page} (hbuf : k.bufs b = some buf)
    (hps : k.Holds buf ps) (p : Page) : (∃ i, k.slot (b, i) = some p) ↔ p ∈ ps := by
  rw [List.mem_iff_getElem?]
  simp only [slot_of_holds hbuf hps]

/-- No two slots of a live buffer hold the same page. -/
theorem slot_inj {b : BufId} {buf : Buf} {ps : List Page} (hbuf : k.bufs b = some buf)
    (hps : k.Holds buf ps) {i j : ℕ} {p : Page} (hi : k.slot (b, i) = some p)
    (hj : k.slot (b, j) = some p) : i = j := by
  rw [slot_of_holds hbuf hps] at hi hj
  obtain ⟨hi', hip⟩ := List.getElem?_eq_some_iff.mp hi
  obtain ⟨hj', hjp⟩ := List.getElem?_eq_some_iff.mp hj
  exact hps.nodup.getElem_inj_iff.mp (hip.trans hjp.symm)

section

variable {size : BitVec 64} {a : Addr} {b : BufId} {ps : List Page}

/-- The header of a new buffer is not that of a live one. -/
theorem Owned.priv_ne (h : Owned k) (halloc : Allocated k size a b ps k') {b' : BufId} {buf : Buf}
    (hbuf : k.bufs b' = some buf) : buf.priv ≠ .data (.addr a) :=
  fun hpriv ↦ h.heap_ne_none hbuf hpriv halloc.data_free

theorem Owned.keepsOthers_allocated (h : Owned k) (halloc : Allocated k size a b ps k') :
    KeepsOthers k b k' where
  bufs b' hb := by
    rw [halloc.bufs]
    exact Function.update_of_ne hb ..
  holds b' buf qs _ hbuf hqs := by
    refine hqs.transfer (fun a' d hpriv hd ↦ ?_) fun p hp ↦
      (halloc.mem_pages p).mpr (.inr (hqs.inUse p hp).1)
    rw [halloc.heap a' fun haa ↦ h.priv_ne halloc hbuf (haa ▸ hpriv)]
    exact hd

/-- A successful allocation. -/
theorem Owned.allocated (h : Owned k) (halloc : Allocated k size a b ps k')
    (hbal : k'.Balanced) : Owned k' where
  live b' buf hbuf := by
    by_cases hb : b' = b
    · subst hb
      rw [halloc.bufs_self, Option.some_inj] at hbuf
      exact ⟨ps, hbuf ▸ halloc.holds⟩
    · exact (h.keepsOthers_allocated halloc).live h hb hbuf
  priv_inj b₁ b₂ buf₁ buf₂ h₁ h₂ hpriv := by
    have hother := (h.keepsOthers_allocated halloc).bufs
    by_cases hb₁ : b₁ = b
    · by_cases hb₂ : b₂ = b
      · rw [hb₁, hb₂]
      · rw [hb₁, halloc.bufs_self, Option.some_inj] at h₁
        rw [hother b₂ hb₂] at h₂
        exact absurd (hpriv.symm.trans (h₁ ▸ rfl)) (h.priv_ne halloc h₂)
    · rw [hother b₁ hb₁] at h₁
      by_cases hb₂ : b₂ = b
      · rw [hb₂, halloc.bufs_self, Option.some_inj] at h₂
        exact absurd (hpriv.trans (h₂ ▸ rfl)) (h.priv_ne halloc h₁)
      · rw [hother b₂ hb₂] at h₂
        exact h.priv_inj b₁ b₂ buf₁ buf₂ h₁ h₂ hpriv
  exact := by
    have hslots := exists_slot_iff halloc.bufs_self halloc.holds
    refine h.exact.extend (fun s ↦ s.1 = b)
      (fun s hs ↦ (h.keepsOthers_allocated halloc).slot h hs s.2) ?_ ?_ ?_ fun p ↦ ?_
    · rintro ⟨b', i⟩ rfl
      exact slot_of_none halloc.buf_free i
    · rintro ⟨b', i⟩ p rfl hp
      exact (halloc.free p ((hslots p).mp ⟨i, hp⟩)).1
    · rintro ⟨b₁, i⟩ ⟨b₂, j⟩ p rfl hb hi hj
      obtain rfl : b₂ = b₁ := hb
      rw [slot_inj halloc.bufs_self halloc.holds hi hj]
    · rw [halloc.mem_pages, or_comm, ← hslots]
      refine or_congr_right ⟨?_, ?_⟩
      · rintro ⟨i, hi⟩
        exact ⟨(b, i), rfl, hi⟩
      · rintro ⟨⟨b', i⟩, rfl, hi⟩
        exact ⟨i, hi⟩
  balanced := hbal

end

section

variable {a : Addr} {b : BufId} {buf : Buf} {ps : List Page}

/-- The other buffers have other headers and other pages. -/
theorem Owned.keepsOthers_released (h : Owned k) (hbuf : k.bufs b = some buf)
    (hps : k.Holds buf ps) (hpriv : buf.priv = .data (.addr a)) (hrel : Released k a ps k') :
    KeepsOthers k b (k'.dropBuf b) where
  bufs b' hb := by
    have hbufs : k'.bufs = k.bufs := congrArg (fun r ↦ r.2.2.2.1) hrel.rest
    exact (Function.update_of_ne hb ..).trans (congrFun hbufs b')
  holds b' buf' qs hb hbuf' hqs := by
    refine hqs.transfer (fun a' d hpriv' hd ↦ ?_) fun p hp ↦ ?_
    · have haa : a' ≠ a := fun haa ↦
        hb (h.priv_inj b' b buf' buf hbuf' hbuf (by rw [hpriv', hpriv, haa]))
      have hheap : (k'.dropBuf b).heap a' = k'.heap a' := rfl
      rw [hheap, hrel.heap, Function.update_of_ne haa]
      exact hd
    · refine (hrel.mem_pages p).mpr ⟨(hqs.inUse p hp).1, fun hmem ↦ ?_⟩
      obtain ⟨i, hi⟩ := (exists_slot_iff hbuf' hqs p).mpr hp
      obtain ⟨j, hj⟩ := (exists_slot_iff hbuf hps p).mpr hmem
      exact hb (congrArg Prod.fst (h.exact.unique (b', i) (b, j) p hi hj))

/-- A release takes the pages of its buffer off the account. -/
theorem balanced_released (h : k.Balanced) (hps : k.Holds buf ps) (hrel : Released k a ps k') :
    k'.Balanced := by
  intro p
  rw [hrel.gets, hrel.puts, h p]
  by_cases hp : p ∈ ps
  · rw [if_pos hp, if_pos (hps.inUse p hp).1, if_neg fun hin ↦ ((hrel.mem_pages p).mp hin).2 hp]
  · rw [if_neg hp, Nat.add_zero]
    simp only [hrel.mem_pages, hp, not_false_eq_true, and_true]

/-- A release. -/
theorem Owned.released (h : Owned k) (hbuf : k.bufs b = some buf) (hps : k.Holds buf ps)
    (hpriv : buf.priv = .data (.addr a)) (hrel : Released k a ps k') : Owned (k'.dropBuf b) := by
  have hothers := h.keepsOthers_released hbuf hps hpriv hrel
  have hbal : k'.Balanced := balanced_released h.balanced hps hrel
  have hself : (k'.dropBuf b).bufs b = none := Function.update_self ..
  have hne : ∀ b' buf', (k'.dropBuf b).bufs b' = some buf' → b' ≠ b := by
    rintro b' buf' hbuf' rfl
    exact absurd (hself.symm.trans hbuf') (by simp)
  refine ⟨fun b' buf' hbuf' ↦ hothers.live h (hne b' buf' hbuf') hbuf',
    fun b₁ b₂ buf₁ buf₂ h₁ h₂ ↦ ?_, ?_, KState.Balanced.congr (k := k') rfl hbal⟩
  · have hb₁ := hothers.bufs b₁ (hne b₁ buf₁ h₁)
    have hb₂ := hothers.bufs b₂ (hne b₂ buf₂ h₂)
    exact h.priv_inj b₁ b₂ buf₁ buf₂ (hb₁.symm.trans h₁) (hb₂.symm.trans h₂)
  · refine h.exact.restrict (fun s ↦ s.1 = b) (fun s hs ↦ hothers.slot h hs s.2) ?_ fun p ↦ ?_
    · rintro ⟨b', i⟩ rfl
      exact slot_of_none hself i
    · refine (hrel.mem_pages p).trans (and_congr_right fun _ ↦ ?_)
      rw [← exists_slot_iff hbuf hps]
      refine ⟨?_, ?_⟩
      · rintro hnot ⟨b', i⟩ rfl hi
        exact hnot ⟨i, hi⟩
      · rintro hnot ⟨i, hi⟩
        exact hnot (b, i) rfl hi

end

/-! ## What each call puts -/

/-- `f'` counts each page of `P` once more than `f`, and every other page as often. -/
def CountsOnce (P : Page → Prop) (f f' : Page → ℕ) : Prop :=
  (∀ p, P p → f' p = f p + 1) ∧ ∀ p, ¬ P p → f' p = f p

/-- What a call does to the counts of the pages.  A successful allocation gets the pages of its
buffer and puts none; a failed one puts what it got, page by page; one that faults does nothing; a
release does not fault and puts the pages of its buffer; the others neither get nor put. -/
def Accounts (k : KState) : IonAction → KState → Prop
  | .alloc size o, k' =>
    match (ionAlloc size o).result k with
    | some (.obj b) => k'.puts = k.puts ∧
        CountsOnce (fun p ↦ ∃ i, k'.slot (b, i) = some p) k.gets k'.gets
    | some _ => k'.pages = k.pages ∧ ∀ p, k'.puts p + k.gets p = k.puts p + k'.gets p
    | none => k' = k
  | .release b, k' => (∃ buf, k.bufs b = some buf ∧ ((ionRelease buf).result k).isSome) ∧
      k'.gets = k.gets ∧ CountsOnce (fun p ↦ ∃ i, k.slot (b, i) = some p) k.puts k'.puts
  | _, k' => k'.gets = k.gets ∧ k'.puts = k.puts

theorem accounts_alloc {size : BitVec 64} {o : AllocOutcome} (h : Owned k)
    (h' : Owned ((ionAlloc size o).final k)) :
    Accounts k (.alloc size o) ((ionAlloc size o).final k) := by
  have hspec := wp_ionAlloc k size o
  generalize hk' : (ionAlloc size o).final k = k' at h' ⊢
  rw [Accounts]
  split
  · rename_i b hres
    have hdone := hk' ▸ result_of_wp hspec hres
    cases hdone with
    | allocated hok ha hb halloc =>
      have hmem := exists_slot_iff halloc.bufs_self halloc.holds
      refine ⟨halloc.puts, fun p hp ↦ ?_, fun p hp ↦ ?_⟩
      · have hps := (hmem p).mp hp
        have hin := (halloc.mem_pages p).mpr (.inl hps)
        rw [h'.balanced p, h.balanced p, halloc.puts, if_pos hin, if_neg (halloc.free p hps).1]
      · have hps : p ∉ granted o.pages (rounds (ionNpages size)) := fun hin ↦ hp ((hmem p).mpr hin)
        rw [h'.balanced p, h.balanced p, halloc.puts]
        simp only [halloc.mem_pages, hps, false_or]
  · rename_i r hne hres
    have hdone := hk' ▸ result_of_wp hspec hres
    cases hdone with
    | allocated => exact absurd rfl (hne _)
    | failed he hok hsame =>
      refine ⟨hsame.pages, fun p ↦ ?_⟩
      rw [h'.balanced p, h.balanced p, hsame.pages]
      omega
  · rename_i hres
    obtain ⟨-, -, -, hsame⟩ := fault_of_wp hspec hres
    exact hk' ▸ hsame

theorem accounts_release {b : BufId} {buf : Buf} {a : Addr} {ps : List Page}
    (hbuf : k.bufs b = some buf) (hps : k.Holds buf ps) (hpriv : buf.priv = .data (.addr a)) :
    Accounts k (.release b) (((ionRelease buf).final k).dropBuf b) := by
  have hspec : wp (ionRelease buf) (fun _ k' ↦ Released k a ps k') (fun _ _ ↦ False) k :=
    wp_ionRelease hps hpriv
  have hrel : Released k a ps ((ionRelease buf).final k) :=
    final_of_wp (wp_of_no_fault hspec fun _ _ h ↦ h)
  have hmem := exists_slot_iff hbuf hps
  refine ⟨⟨buf, hbuf, result_isSome_of_wp hspec⟩, hrel.gets, fun p hp ↦ ?_, fun p hp ↦ ?_⟩
  · exact (hrel.puts p).trans (by rw [if_pos ((hmem p).mp hp)])
  · exact (hrel.puts p).trans (by rw [if_neg fun hin ↦ hp ((hmem p).mpr hin), Nat.add_zero])

/-- A callback leaves the pages alone. -/
theorem accounts_callback {α : Type} {x : KProg α} (h : Keeps KState.memory x) :
    (x.final k).gets = k.gets ∧ (x.final k).puts = k.puts :=
  ⟨congrArg (fun m ↦ m.2.1) (h.final k), congrArg (fun m ↦ m.2.2.1) (h.final k)⟩

/-- Releasing a live buffer gives back its pages and its memory. -/
theorem Owned.ionRelease_final {b : BufId} {buf : Buf} (h : Owned k) (hbuf : k.bufs b = some buf) :
    ∃ a ps, k.Holds buf ps ∧ buf.priv = .data (.addr a) ∧
      Released k a ps ((ionRelease buf).final k) := by
  obtain ⟨ps, hps⟩ := h.live b buf hbuf
  obtain ⟨a, d, hpriv, -⟩ := hps.data
  exact ⟨a, ps, hps, hpriv, final_of_wp (wp_ionRelease hps hpriv)⟩

/-- **One call** keeps the ownership of the pages and accounts for what it gets and puts. -/
theorem Owned.step {a : IonAction} (h : Owned k) (hstep : ionMachine.step k a = some k') :
    Owned k' ∧ Accounts k a k' := by
  cases a with
  | alloc size o =>
    obtain rfl := Option.some_inj.mp hstep
    have hbal := (preserves_ionAlloc size o).final k h.balanced
    have howned : Owned ((ionAlloc size o).final k) := by
      cases hres : (ionAlloc size o).result k with
      | some r =>
        have hdone := result_of_wp (wp_ionAlloc k size o) hres
        generalize (ionAlloc size o).final k = k' at hdone hbal ⊢
        cases hdone with
        | allocated hok ha hb halloc => exact h.allocated halloc hbal
        | failed he hok hsame => exact h.failed hsame hbal
      | none =>
        obtain ⟨-, -, -, hsame⟩ := fault_of_wp (wp_ionAlloc k size o) hres
        exact hsame.symm ▸ h
    exact ⟨howned, accounts_alloc h howned⟩
  | map b dir o =>
    obtain ⟨buf, -, rfl⟩ := Option.map_eq_some_iff.mp hstep
    have hkeeps := keeps_ionMapDmaBuf buf dir o
    exact ⟨h.frame (hkeeps.final k), accounts_callback hkeeps⟩
  | unmap table dir =>
    obtain rfl := Option.some_inj.mp hstep
    have hkeeps := keeps_unmapDmaBuf .ion table dir
    exact ⟨h.frame (hkeeps.final k), accounts_callback hkeeps⟩
  | vmap b o =>
    obtain ⟨buf, -, rfl⟩ := Option.map_eq_some_iff.mp hstep
    have hkeeps := keeps_ionVmap buf o
    exact ⟨h.frame (hkeeps.final k), accounts_callback hkeeps⟩
  | vunmap b vaddr =>
    obtain ⟨buf, -, rfl⟩ := Option.map_eq_some_iff.mp hstep
    have hkeeps := keeps_ionVunmap buf vaddr
    exact ⟨h.frame (hkeeps.final k), accounts_callback hkeeps⟩
  | release b =>
    obtain ⟨buf, hbuf, rfl⟩ := Option.map_eq_some_iff.mp hstep
    obtain ⟨a, ps, hps, hpriv, hrel⟩ := h.ionRelease_final hbuf
    exact ⟨h.released hbuf hps hpriv hrel, accounts_release hbuf hps hpriv⟩

end

/-! ## Every run -/

/-- No page is in use, every page was put as often as it was handed out, and there is no buffer. -/
structure NothingOwned (k : KState) : Prop where
  pages : k.pages = ∅
  counts : k.puts = k.gets
  bufs : ∀ b, k.bufs b = none

theorem NothingOwned.owned {k : KState} (h : NothingOwned k) : Owned k where
  live b buf hbuf := by
    rw [h.bufs b] at hbuf
    exact absurd hbuf (by simp)
  priv_inj b b' buf buf' hbuf := by
    rw [h.bufs b] at hbuf
    exact absurd hbuf (by simp)
  exact := .empty (fun p ↦ by simp [h.pages]) fun s ↦ slot_of_none (h.bufs s.1) s.2
  balanced p := by simp [h.pages, h.counts]

/-- **Page ownership over whole runs.**  After any sequence of calls, starting with no pages in
use, the pages in use are the disjoint union of the pages of the live buffers, each live buffer has
all the pages its header announces, and the next call accounts for the pages it gets and puts. -/
theorem pages_exactlyOwned {k₀ k : KState} {as : List IonAction} (h₀ : NothingOwned k₀)
    (hrun : ionMachine.Run Machine.free k₀ as k) :
    ExactlyOwned (· ∈ k.pages) k.slot ∧
      (∀ b buf, k.bufs b = some buf → ∃ ps, k.Holds buf ps ∧ ∀ i, k.slot (b, i) = ps[i]?) ∧
      k.Balanced ∧ ∀ a k', ionMachine.step k a = some k' → Accounts k a k' := by
  have hk : Owned k := hrun.invariant (fun _ _ _ h _ hstep ↦ (h.step hstep).1) h₀.owned
  refine ⟨hk.exact, fun b buf hbuf ↦ ?_, hk.balanced, fun a k' hstep ↦ (hk.step hstep).2⟩
  obtain ⟨ps, hps⟩ := hk.live b buf hbuf
  exact ⟨ps, hps, slot_of_holds hbuf hps⟩

theorem nothingOwned_boot : NothingOwned .boot := ⟨rfl, rfl, fun _ ↦ rfl⟩

/-- Two buffers of one page each are allocated and the first is released. -/
def twoBufferRun : List IonAction :=
  [.alloc 1 ⟨some 0, fun i ↦ some ⟨i, fun _ ↦ 0⟩, some 0⟩,
    .alloc 1 ⟨some 1, fun i ↦ some ⟨7 + i, fun _ ↦ 0⟩, some 1⟩, .release 0]

/-- The page left is owned by the second buffer. -/
theorem pages_exactlyOwned_twoBuffers :
    ∃ k, ionMachine.exec .boot twoBufferRun = some k ∧ k.slot (1, 0) = some 7 ∧
      ExactlyOwned (· ∈ k.pages) k.slot := by
  have hrun : ionMachine.exec .boot twoBufferRun = some _ := rfl
  exact ⟨_, hrun, by decide,
    (pages_exactlyOwned nothingOwned_boot (Machine.exec_eq_some_iff.mp hrun)).1⟩

end DmaBuf
