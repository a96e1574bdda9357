import SampleDrivers.DmaBuf.State

/-!
# Allocation and release in the ion exporter

`ion_alloc` turns a size into a number of pages, obtains the header and the pages one by one, and
exports them as a buffer; when a step fails it puts back, last page first, what it has obtained.
`ion_release` puts the pages of a buffer back and frees the header.

* `ionAlloc`, `ionRelease` — the two functions, with the loops as they are written.
* `AllocOk` — every step of `ion_alloc` succeeds, and the header has room for its own fields.
* `wp_ionAlloc` — what `ion_alloc` does: a new buffer in the one case, an error pointer and
  nothing changed in the other, and a fault when the header is given no bytes at all.
* `wp_ionRelease` — what is left once a buffer is released.
-/

set_option autoImplicit false

namespace DmaBuf

open Kernel

/-! ## Sizes -/

/-- `PAGE_ALIGN`, on a 64-bit machine. -/
def pageAlign (size : BitVec 64) : BitVec 64 := (size + 4095#64) &&& ~~~4095#64

/-- `npages = PAGE_ALIGN(size) / PAGE_SIZE`, narrowed to an `int`. -/
def ionNpages (size : BitVec 64) : BitVec 32 := (pageAlign size / 4096#64).setWidth 32

/-- `sizeof(*data) + npages * sizeof(struct page *)`. -/
def ionBytes (npages : BitVec 32) : BitVec 64 := 8#64 + npages.signExtend 64 * 8#64

/-- `exp_info.size = npages * PAGE_SIZE`. -/
def ionSize (npages : BitVec 32) : BitVec 64 := npages.signExtend 64 * 4096#64

/-- The number of rounds of `for (i = 0; i < npages; i++)`: `npages` is an `int`. -/
def rounds (npages : BitVec 32) : ℕ := npages.toInt.toNat

theorem rounds_lt (n : BitVec 32) : rounds n < 2 ^ 31 := by
  rw [rounds, BitVec.toInt_eq_toNat_cond]
  split <;> omega

theorem rounds_le_toNat (n : BitVec 32) : rounds n ≤ n.toNat := by
  rw [rounds, BitVec.toInt_eq_toNat_cond]
  split <;> omega

/-- The header has room for every page pointer the loops touch. -/
theorem ionBytes_of_rounds_pos {n : BitVec 32} (h : 0 < rounds n) :
    (ionBytes n).toNat = 8 + 8 * rounds n := by
  have hlt : n.toNat < 2 ^ 31 := by
    rw [rounds, BitVec.toInt_eq_toNat_cond] at h
    split at h <;> omega
  have hmsb : n.msb = false := by
    rw [BitVec.msb_eq_false_iff_two_mul_lt]
    omega
  have hrounds : rounds n = n.toNat := by
    rw [rounds, BitVec.toInt_eq_toNat_of_msb hmsb]
    rfl
  rw [ionBytes, BitVec.signExtend_eq_setWidth_of_msb_false hmsb, hrounds]
  simp only [BitVec.toNat_add, BitVec.toNat_mul, BitVec.toNat_ofNat, BitVec.toNat_setWidth]
  omega

/-- A header that has any bytes has those of `npages` and of every page the loops touch. -/
theorem room_le_ionBytes {n : BitVec 32} (h : ionBytes n ≠ 0) :
    8 + 8 * rounds n ≤ (ionBytes n).toNat := by
  rcases Nat.eq_zero_or_pos (rounds n) with h₀ | hpos
  · have hne : (ionBytes n).toNat ≠ 0 := fun hz ↦ h (BitVec.eq_of_toNat_eq hz)
    have hdvd : 8 ∣ (ionBytes n).toNat := by
      simp only [ionBytes, BitVec.toNat_add, BitVec.toNat_mul, BitVec.toNat_ofNat]
      omega
    rw [h₀]
    exact Nat.le_of_dvd (Nat.pos_of_ne_zero hne) hdvd
  · exact Nat.le_of_eq (ionBytes_of_rounds_pos hpos).symm

/-! ## `ion_alloc` -/

/-- What the kernel finds for one call of `ion_alloc`. -/
structure AllocOutcome where
  /-- The address of the header. -/
  data : Option Addr
  /-- The page of each round of the loop. -/
  pages : ℕ → Option Grant
  /-- The buffer. -/
  dmabuf : Option BufId

/-- The header as `kmalloc` returns it. -/
def IonData.fresh (bytes : ℕ) : IonData := ⟨bytes, none, fun _ ↦ .garbage⟩

/-- What `alloc_page` returned, as it is stored. -/
def Slot.ofPage : Option Page → Slot
  | some p => .page p
  | none => .null

/-- One round of the allocation loop; it leaves the loop (`goto err`) when there is no page. -/
def ionAllocRound (data : KPtr) (pages : ℕ → Option Grant) (i : ℕ) (_ : Unit) :
    KProg (Option Unit) := do
  let page ← allocPage (pages i)
  storePage data i (.ofPage page)
  return page.map fun _ ↦ ()

/-- The code at the label `err`: put back the first `i` pages and free the header. -/
def ionAllocErr (data : KPtr) (i : ℕ) : KProg (Ptr BufId) := do
  Prog.whileDown (fun j ↦ do putPage (← loadPage data j)) i
  kfree .ionData data
  return .err ENOMEM

/-- `ion_alloc`. -/
def ionAlloc (size : BitVec 64) (o : AllocOutcome) : KProg (Ptr BufId) := do
  let npages := ionNpages size
  if npages = 0 then return .err EINVAL
  let data ← kmalloc (ionBytes npages).toNat (.ionData (.fresh (ionBytes npages).toNat)) o.data
  if data = .null then return .err ENOMEM
  let (i, _) ← Prog.forFrom (ionAllocRound data o.pages) (rounds npages) 0 ()
  if i < rounds npages then return ← ionAllocErr data i
  storeNpages data npages
  let dmabuf ← dmaBufExport ⟨.ion, ionSize npages, .data data, []⟩ o.dmabuf
  if dmabuf.isErr then return ← ionAllocErr data i
  return dmabuf

/-! ## `ion_release` -/

/-- The `priv` of an ion buffer. -/
def ionDataOf (buf : Buf) : KPtr :=
  match buf.priv with
  | .data p => p
  | .page _ => .null

/-- `ion_release`, called by the core with the buffer that has lost its last reference. -/
def ionRelease (buf : Buf) : KProg Unit := do
  let npages ← loadNpages (ionDataOf buf)
  let _ ← Prog.forFrom (fun i _ ↦ do
    putPage (← loadPage (ionDataOf buf) i)
    return some ()) (rounds npages) 0 ()
  kfree .ionData (ionDataOf buf)

/-! ## A header being filled -/

/-- What neither allocation nor release of pages and headers touches. -/
def KState.rest (k : KState) :=
  (k.dma, k.syncs, k.vmaps, k.bufs, k.fds, k.tables)

/-- The kernels have the same resources in use; the contents of pages may differ. -/
structure KState.SameResources (k k' : KState) : Prop where
  pages : k'.pages = k.pages
  heap : k'.heap = k.heap
  rest : k'.rest = k.rest

/-- The pages the outcomes of the first rounds name. -/
def granted (f : ℕ → Option Grant) : ℕ → List Page
  | 0 => []
  | n + 1 => granted f n ++ ((f n).map Grant.page).toList

/-- Round `i` finds a page, one that is free and that no earlier round was given. -/
def Obtains (k : KState) (f : ℕ → Option Grant) (i : ℕ) : Prop :=
  ∃ g, f i = some g ∧ k.Free g.page ∧ g.page ∉ granted f i

theorem length_granted {k : KState} {f : ℕ → Option Grant} {n : ℕ} (h : ∀ i < n, Obtains k f i) :
    (granted f n).length = n := by
  induction n with
  | zero => rfl
  | succ n ih =>
    obtain ⟨g, hg, -⟩ := h n (Nat.lt_succ_self n)
    rw [granted, List.length_append, ih fun i hi ↦ h i (Nat.lt_succ_of_lt hi), hg]
    rfl

/-- Since `k`, the header at `a` was allocated and the pages `ps` were obtained and stored in its
first entries; nothing else has happened. -/
structure Filling (k : KState) (a : Addr) (bytes : ℕ) (ps : List Page) (k' : KState) : Prop where
  data : ∃ d, k'.heap a = some (.ionData d) ∧ d.bytes = bytes ∧
    ∀ i (h : i < ps.length), d.pages i = .page ps[i]
  heap : ∀ a', a' ≠ a → k'.heap a' = k.heap a'
  mem_pages : ∀ p, p ∈ k'.pages ↔ p ∈ ps ∨ p ∈ k.pages
  nodup : ps.Nodup
  free : ∀ p ∈ ps, k.Free p
  rest : k'.rest = k.rest

namespace Filling

variable {k k' : KState} {a : Addr} {bytes : ℕ} {ps : List Page} {p : Page}

theorem start (k : KState) (a : Addr) (bytes : ℕ) :
    Filling k a bytes [] (k.setHeap a (some (.ionData (.fresh bytes)))) where
  data := ⟨_, k.setHeap_heap_self a _, rfl, fun i h ↦ absurd h (Nat.not_lt_zero i)⟩
  heap _ h := k.setHeap_heap_of_ne _ h
  mem_pages p := by simp
  nodup := List.nodup_nil
  free p hp := absurd hp List.not_mem_nil
  rest := rfl

/-- The header after an entry beyond the filled ones was written. -/
theorem store {d : IonData} (h : Filling k a bytes ps k') (slot : Slot)
    (hd : k'.heap a = some (.ionData d)) :
    Filling k a bytes ps (k'.setHeap a
      (some (.ionData { d with pages := Function.update d.pages ps.length slot }))) where
  data := by
    obtain ⟨d', hd', hbytes, hpages⟩ := h.data
    rw [hd, Option.some_inj, HeapObj.ionData.injEq] at hd'
    subst hd'
    refine ⟨_, k'.setHeap_heap_self a _, hbytes, fun i hi ↦ ?_⟩
    exact (Function.update_of_ne (Nat.ne_of_lt hi) ..).trans (hpages i hi)
  heap a' ha := (k'.setHeap_heap_of_ne _ ha).trans (h.heap a' ha)
  mem_pages := h.mem_pages
  nodup := h.nodup
  free := h.free
  rest := h.rest

/-- The header after a page was obtained and stored. -/
theorem push {d : IonData} {g : Grant} (h : Filling k a bytes ps k') (hfree : k.Free g.page)
    (hnew : g.page ∉ ps) (hd : k'.heap a = some (.ionData d)) :
    Filling k a bytes (ps ++ [g.page]) ((k'.grant g).setHeap a
      (some (.ionData { d with pages := Function.update d.pages ps.length (.page g.page) }))) where
  data := by
    obtain ⟨d', hd', hbytes, hpages⟩ := h.data
    rw [hd, Option.some_inj, HeapObj.ionData.injEq] at hd'
    subst hd'
    refine ⟨_, KState.setHeap_heap_self _ a _, hbytes, fun i hi ↦ ?_⟩
    rw [List.length_append, List.length_singleton] at hi
    rcases Nat.lt_succ_iff_lt_or_eq.mp hi with hi | rfl
    · rw [List.getElem_append_left hi]
      exact (Function.update_of_ne (Nat.ne_of_lt hi) ..).trans (hpages i hi)
    · rw [List.getElem_concat_length rfl]
      exact Function.update_self ..
  heap a' ha := (KState.setHeap_heap_of_ne _ _ ha).trans (h.heap a' ha)
  mem_pages q := by
    rw [KState.setHeap_pages, mem_grant_pages, h.mem_pages, List.mem_append, List.mem_singleton,
      or_left_comm, or_assoc]
  nodup := List.nodup_append.mpr ⟨h.nodup, List.nodup_singleton _, by
    intro q hq r hr hqr
    rw [List.mem_singleton] at hr
    exact hnew (hr ▸ hqr ▸ hq)⟩
  free q hq := by
    rcases List.mem_append.mp hq with hq | hq
    · exact h.free q hq
    · exact List.mem_singleton.mp hq ▸ hfree
  rest := h.rest

/-- The header after its last page was put back. -/
theorem pop (h : Filling k a bytes (ps ++ [p]) k') : Filling k a bytes ps (k'.put p) where
  data := by
    obtain ⟨d, hd, hbytes, hpages⟩ := h.data
    refine ⟨d, hd, hbytes, fun i hi ↦ ?_⟩
    rw [hpages i (by rw [List.length_append]; omega), List.getElem_append_left hi]
  heap := h.heap
  mem_pages q := by
    have hp : p ∉ ps ∧ p ∉ k.pages := by
      refine ⟨fun hmem ↦ ?_, (h.free p (by simp)).1⟩
      exact (List.nodup_append.mp h.nodup).2.2 p hmem p (by simp) rfl
    rw [mem_put_pages, h.mem_pages, List.mem_append, List.mem_singleton]
    refine ⟨?_, ?_⟩
    · rintro ⟨hne, (hq | hq) | hq⟩
      · exact .inl hq
      · exact absurd hq hne
      · exact .inr hq
    · rintro (hq | hq)
      · exact ⟨fun heq ↦ hp.1 (heq ▸ hq), .inl (.inl hq)⟩
      · exact ⟨fun heq ↦ hp.2 (heq ▸ hq), .inr hq⟩
  nodup := (List.nodup_append.mp h.nodup).1
  free q hq := h.free q (List.mem_append_left _ hq)
  rest := h.rest

/-- The pages already obtained are not free any more, the others are free as before. -/
theorem free_iff (h : Filling k a bytes ps k') : k'.Free p ↔ k.Free p ∧ p ∉ ps := by
  rw [KState.Free, KState.Free, h.mem_pages, not_or]
  tauto

/-- A header without pages, freed: everything is as it was. -/
theorem sameResources (h : Filling k a bytes [] k') (ha : k.heap a = none) :
    k.SameResources (k'.setHeap a none) where
  pages := Finset.ext fun p ↦ by simp [h.mem_pages]
  heap := by
    funext a'
    by_cases haa : a' = a
    · rw [haa, KState.setHeap_heap_self, ha]
    · rw [KState.setHeap_heap_of_ne _ _ haa, h.heap a' haa]
  rest := h.rest

end Filling

/-- Since `k`, the pages `got` were handed out and the pages `put` were put, as often as they are
listed. -/
structure Tally (k : KState) (got put : List Page) (k' : KState) : Prop where
  gets : ∀ p, k'.gets p = k.gets p + got.count p
  puts : ∀ p, k'.puts p = k.puts p + put.count p

namespace Tally

variable {k k' : KState} {got put : List Page}

theorem start (k : KState) : Tally k [] [] k := ⟨fun _ ↦ rfl, fun _ ↦ rfl⟩

theorem grant (h : Tally k got put k') (g : Grant) :
    Tally k (got ++ [g.page]) put (k'.grant g) where
  gets p := by
    rw [List.count_append, List.count_singleton, ← Nat.add_assoc, ← h.gets]
    by_cases hp : p = g.page
    · subst hp
      rw [beq_self_eq_true, if_pos rfl]
      exact Function.update_self ..
    · rw [beq_false_of_ne (Ne.symm hp)]
      exact Function.update_of_ne hp ..
  puts := h.puts

theorem put_cons (h : Tally k got put k') (p : Page) : Tally k got (p :: put) (k'.put p) where
  gets := h.gets
  puts q := by
    rw [List.count_cons, ← Nat.add_assoc, ← h.puts]
    by_cases hq : q = p
    · subst hq
      rw [beq_self_eq_true, if_pos rfl]
      exact Function.update_self ..
    · rw [beq_false_of_ne (Ne.symm hq)]
      exact Function.update_of_ne hq ..

end Tally

/-- All that is left of the allocations since `k`, which obtained the pages `ps`, is the count:
every page of them was free, was handed out once and was put once. -/
structure LeavesNothing (k : KState) (ps : List Page) (k' : KState) : Prop where
  sameResources : k.SameResources k'
  nodup : ps.Nodup
  free : ∀ p ∈ ps, k.Free p
  counted : Tally k ps ps k'

theorem LeavesNothing.start (k : KState) : LeavesNothing k [] k where
  sameResources := ⟨rfl, rfl, rfl⟩
  nodup := List.nodup_nil
  free _ hp := absurd hp List.not_mem_nil
  counted := .start k

/-! ## What `ion_alloc` does -/

/-- The code at `err` undoes a header that was filled with `ps`. -/
theorem wp_ionAllocErr {k k' : KState} {a : Addr} {bytes : ℕ} {ps : List Page}
    {E : Oops → KState → Prop} (h : Filling k a bytes ps k') (hcount : Tally k ps [] k')
    (ha : k.heap a = none) (hbytes : 8 + 8 * ps.length ≤ bytes) :
    Prog.wp (ionAllocErr (.addr a) ps.length)
      (fun r k'' ↦ r = .err ENOMEM ∧ LeavesNothing k ps k'') E k' := by
  rw [ionAllocErr, Prog.wp_bind]
  refine Prog.wp_imp (Prog.wp_whileDown
    (fun j s ↦ Filling k a bytes (ps.take j) s ∧ Tally k ps (ps.drop j) s)
    (fun j s hj hs ↦ ?_) ?_) fun _ s hs ↦ ?_
  · obtain ⟨hs, hcounted⟩ := hs
    obtain ⟨d, hd, hbd, hpages⟩ := hs.data
    have hlen : (ps.take (j + 1)).length = j + 1 := List.length_take_of_le hj
    have hlast : d.pages j = .page ps[j] := by
      rw [hpages j (by omega), List.getElem_take]
    rw [Prog.wp_bind, wp_loadPage hd (by omega), hlast]
    rw [← List.take_append_getElem hj] at hs
    rw [wp_putPage ((hs.mem_pages _).mpr
      (.inl (List.mem_append_right _ (List.mem_singleton_self _))))]
    rw [List.drop_eq_getElem_cons hj]
    exact ⟨hs.pop, hcounted.put_cons _⟩
  · rw [List.take_length, List.drop_length]
    exact ⟨h, hcount⟩
  · obtain ⟨hs, hcounted⟩ := hs
    rw [List.take_zero] at hs
    obtain ⟨d, hd, -⟩ := hs.data
    exact (Prog.wp_bind _ _).mpr ((wp_kfree hd).mpr ⟨rfl, hs.sameResources ha, h.nodup, h.free,
      hcounted.gets, hcounted.puts⟩)

/-- The allocation loop stops at the first round that obtains no page. -/
theorem wp_ionAllocLoop {k : KState} {a : Addr} {bytes n : ℕ} {f : ℕ → Option Grant}
    {E : Oops → KState → Prop} (hbytes : 8 + 8 * n ≤ bytes) :
    Prog.wp (Prog.forFrom (ionAllocRound (.addr a) f) n 0 ())
      (fun r k' ↦ r.1 ≤ n ∧ (∀ i < r.1, Obtains k f i) ∧ (r.1 < n → ¬ Obtains k f r.1) ∧
        Filling k a bytes (granted f r.1) k' ∧ Tally k (granted f r.1) [] k') E
      (k.setHeap a (some (.ionData (.fresh bytes)))) := by
  refine Prog.wp_forFrom (fun j _ s ↦ j ≤ n ∧ (∀ i < j, Obtains k f i) ∧
    Filling k a bytes (granted f j) s ∧ Tally k (granted f j) [] s) (fun j _ s _ hj hs ↦ ?_)
    (fun _ s hs ↦ ?_) ⟨Nat.zero_le n, fun i hi ↦ absurd hi (Nat.not_lt_zero i), .start k a bytes,
      (Tally.start k).gets, (Tally.start k).puts⟩
  · rw [Nat.zero_add] at hj
    obtain ⟨-, hobt, hfill, hcount⟩ := hs
    obtain ⟨d, hd, hbd, -⟩ := hfill.data
    have hlen := length_granted hobt
    have hroom : 8 + 8 * (j + 1) ≤ d.bytes := by omega
    rw [ionAllocRound, Prog.wp_bind]
    by_cases hround : Obtains k f j
    · obtain ⟨g, hg, hfree, hnew⟩ := hround
      rw [hg, wp_allocPage_of_free (hfill.free_iff.mpr ⟨hfree, hnew⟩), Prog.wp_bind,
        wp_storePage (k := s.grant g) (d := d) hd hroom]
      have hstep : granted f (j + 1) = granted f j ++ [g.page] := by
        rw [granted, hg]
        rfl
      refine ⟨hj, fun i hi ↦ ?_, ?_, ?_⟩
      · rcases Nat.lt_succ_iff_lt_or_eq.mp hi with hi | rfl
        · exact hobt i hi
        · exact ⟨g, hg, hfree, hnew⟩
      · have hpush := hfill.push hfree hnew hd
        rw [hlen] at hpush
        exact hstep ▸ hpush
      · have hgrant := hcount.grant g
        rw [hstep]
        exact ⟨hgrant.gets, hgrant.puts⟩
    · have hnone : ∀ g, f j = some g → ¬ s.Free g.page := fun g hg hfree ↦
        hround ⟨g, hg, hfill.free_iff.mp hfree⟩
      rw [wp_allocPage_of_not_free hnone, Prog.wp_bind, wp_storePage hd hroom]
      have hstore := hfill.store .null hd
      rw [hlen] at hstore
      exact ⟨Nat.le_of_lt hj, hobt, fun _ ↦ hround, hstore, hcount.gets, hcount.puts⟩
  · obtain ⟨-, hobt, hfill, hcount⟩ := hs
    rw [Nat.zero_add] at hobt hfill hcount ⊢
    exact ⟨Nat.le_refl n, hobt, fun h ↦ absurd h (Nat.lt_irrefl n), hfill, hcount⟩

/-- Everything `ion_alloc` asks for is found, and the header is not empty. -/
structure AllocOk (k : KState) (size : BitVec 64) (o : AllocOutcome) : Prop where
  npages_ne : ionNpages size ≠ 0
  bytes_ne : ionBytes (ionNpages size) ≠ 0
  data : ∃ a, o.data = some a ∧ k.heap a = none
  pages : ∀ i < rounds (ionNpages size), Obtains k o.pages i
  dmabuf : ∃ b, o.dmabuf = some b ∧ k.bufs b = none

/-- The header of a buffer whose pages are `ps`. -/
structure IonData.Holds (d : IonData) (ps : List Page) : Prop where
  npages : ∃ n, d.npages = some n ∧ rounds n = ps.length
  pages : ∀ i (h : i < ps.length), d.pages i = .page ps[i]
  bytes : 8 + 8 * ps.length ≤ d.bytes

/-- The buffer `b` was allocated: its header is at `a`, its pages are `ps`, and they were free. -/
structure Allocated (k : KState) (size : BitVec 64) (a : Addr) (b : BufId) (ps : List Page)
    (k' : KState) : Prop where
  data : ∃ d, k'.heap a = some (.ionData d) ∧ d.Holds ps
  data_free : k.heap a = none
  heap : ∀ a', a' ≠ a → k'.heap a' = k.heap a'
  bufs : k'.bufs = Function.update k.bufs b
    (some ⟨.ion, ionSize (ionNpages size), .data (.addr a), []⟩)
  buf_free : k.bufs b = none
  fds : k'.fds = k.fds
  length : ps.length = rounds (ionNpages size)
  mem_pages : ∀ p, p ∈ k'.pages ↔ p ∈ ps ∨ p ∈ k.pages
  nodup : ps.Nodup
  free : ∀ p ∈ ps, k.Free p
  puts : k'.puts = k.puts

theorem Allocated.bufs_self {k k' : KState} {size : BitVec 64} {a : Addr} {b : BufId}
    {ps : List Page} (h : Allocated k size a b ps k') :
    k'.bufs b = some ⟨.ion, ionSize (ionNpages size), .data (.addr a), []⟩ := by
  rw [h.bufs]
  exact Function.update_self ..

/-- `ion_alloc` fails when it has obtained `n` pages. -/
inductive FailsAt (k : KState) (size : BitVec 64) (o : AllocOutcome) : ℕ → Prop
  /-- There is nothing to allocate. -/
  | size (hn : ionNpages size = 0) : FailsAt k size o 0
  /-- There is no header. -/
  | header (hn : ionNpages size ≠ 0) (hdata : ¬ ∃ a, o.data = some a ∧ k.heap a = none) :
      FailsAt k size o 0
  /-- There is no page for round `i`. -/
  | page {i : ℕ} (hn : ionNpages size ≠ 0) (hdata : ∃ a, o.data = some a ∧ k.heap a = none)
      (hi : i < rounds (ionNpages size)) (hpages : ∀ j < i, Obtains k o.pages j)
      (hpage : ¬ Obtains k o.pages i) : FailsAt k size o i
  /-- There is no buffer. -/
  | dmabuf (hn : ionNpages size ≠ 0) (hdata : ∃ a, o.data = some a ∧ k.heap a = none)
      (hpages : ∀ j < rounds (ionNpages size), Obtains k o.pages j)
      (hbuf : ¬ ∃ b, o.dmabuf = some b ∧ k.bufs b = none) :
      FailsAt k size o (rounds (ionNpages size))

theorem FailsAt.not_allocOk {k : KState} {size : BitVec 64} {o : AllocOutcome} {n : ℕ}
    (h : FailsAt k size o n) : ¬ AllocOk k size o := by
  intro hok
  cases h with
  | size hn => exact hok.npages_ne hn
  | header _ hdata => exact hdata hok.data
  | page _ _ hi _ hpage => exact hpage (hok.pages _ hi)
  | dmabuf _ _ _ hbuf => exact hbuf hok.dmabuf

/-- How `ion_alloc` returns, with the point where it has failed. -/
inductive AllocEnds (k : KState) (size : BitVec 64) (o : AllocOutcome) : Ptr BufId → KState → Prop
  | allocated {a : Addr} {b : BufId} {k' : KState} (hok : AllocOk k size o)
      (ha : o.data = some a) (hb : o.dmabuf = some b)
      (h : Allocated k size a b (granted o.pages (rounds (ionNpages size))) k') :
      AllocEnds k size o (.obj b) k'
  | failed {e : ℤ} {n : ℕ} {k' : KState} (he : 0 < e) (hfails : FailsAt k size o n)
      (h : LeavesNothing k (granted o.pages n) k') : AllocEnds k size o (.err e) k'

/-- What `ion_alloc` may have done when it returns. -/
inductive AllocDone (k : KState) (size : BitVec 64) (o : AllocOutcome) : Ptr BufId → KState → Prop
  | allocated {a : Addr} {b : BufId} {k' : KState} (hok : AllocOk k size o)
      (ha : o.data = some a) (hb : o.dmabuf = some b)
      (h : Allocated k size a b (granted o.pages (rounds (ionNpages size))) k') :
      AllocDone k size o (.obj b) k'
  | failed {e : ℤ} {k' : KState} (he : 0 < e) (hok : ¬ AllocOk k size o)
      (h : k.SameResources k') : AllocDone k size o (.err e) k'

theorem AllocEnds.done {k k' : KState} {size : BitVec 64} {o : AllocOutcome} {r : Ptr BufId}
    (h : AllocEnds k size o r k') : AllocDone k size o r k' := by
  cases h with
  | allocated hok ha hb h => exact .allocated hok ha hb h
  | failed he hfails h => exact .failed he hfails.not_allocOk h.sameResources

section

variable {k k₁ : KState} {size : BitVec 64} {o : AllocOutcome} {a : Addr} {bytes : ℕ}
  {ps : List Page}

/-- The header once its length is written. -/
theorem Filling.length {d : IonData} {n : BitVec 32} (h : Filling k a bytes ps k₁)
    (hd : k₁.heap a = some (.ionData d)) :
    Filling k a bytes ps (k₁.setHeap a (some (.ionData { d with npages := some n }))) where
  data := by
    obtain ⟨d', hd', hbytes, hpages⟩ := h.data
    rw [hd, Option.some_inj, HeapObj.ionData.injEq] at hd'
    subst hd'
    exact ⟨_, k₁.setHeap_heap_self a _, hbytes, hpages⟩
  heap a' ha := (k₁.setHeap_heap_of_ne _ ha).trans (h.heap a' ha)
  mem_pages := h.mem_pages
  nodup := h.nodup
  free := h.free
  rest := h.rest

/-- The header once it is exported. -/
theorem Filling.allocated {b : BufId} {d : IonData} (h : Filling k a bytes ps k₁)
    (hlen : ps.length = rounds (ionNpages size)) (hroom : 8 + 8 * ps.length ≤ bytes)
    (hd : k₁.heap a = some (.ionData d)) (hn : d.npages = some (ionNpages size))
    (ha : k.heap a = none) (hb : k.bufs b = none) (hputs : k₁.puts = k.puts) :
    Allocated k size a b ps { k₁ with
      bufs := Function.update k₁.bufs b
        (some ⟨.ion, ionSize (ionNpages size), .data (.addr a), []⟩) } where
  data := by
    obtain ⟨d', hd', hbytes, hpages⟩ := h.data
    rw [hd, Option.some_inj, HeapObj.ionData.injEq] at hd'
    subst hd'
    exact ⟨d, hd, ⟨_, hn, hlen.symm⟩, hpages, hbytes ▸ hroom⟩
  data_free := ha
  heap := h.heap
  bufs := by
    have hbufs : k₁.bufs = k.bufs := congrArg (fun r ↦ r.2.2.2.1) h.rest
    rw [← hbufs]
  buf_free := hb
  fds := congrArg (fun r ↦ r.2.2.2.2.1) h.rest
  length := hlen
  mem_pages := h.mem_pages
  nodup := h.nodup
  free := h.free
  puts := hputs

/-- From a filled header on, `ion_alloc` depends on whether a buffer is found. -/
theorem wp_ionAlloc_export {E : Oops → KState → Prop}
    (h : Filling k a (ionBytes (ionNpages size)).toNat
      (granted o.pages (rounds (ionNpages size))) k₁)
    (hn : ionNpages size ≠ 0) (hbytes : ionBytes (ionNpages size) ≠ 0) (ha : o.data = some a)
    (hfree : k.heap a = none) (hpages : ∀ i < rounds (ionNpages size), Obtains k o.pages i)
    (hcount : Tally k (granted o.pages (rounds (ionNpages size))) [] k₁) :
    Prog.wp (do
      storeNpages (.addr a) (ionNpages size)
      let dmabuf ← dmaBufExport ⟨.ion, ionSize (ionNpages size), .data (.addr a), []⟩ o.dmabuf
      if dmabuf.isErr then return ← ionAllocErr (.addr a) (rounds (ionNpages size))
      return dmabuf) (AllocEnds k size o) E k₁ := by
  have hlen := length_granted hpages
  have hroom := room_le_ionBytes hbytes
  obtain ⟨d, hd, hbd, -⟩ := h.data
  have hfill := h.length (n := ionNpages size) hd
  have hbufs : k₁.bufs = k.bufs := congrArg (fun r ↦ r.2.2.2.1) h.rest
  rw [Prog.wp_bind, wp_storeNpages hd (by omega), Prog.wp_bind]
  generalize hk₂ : k₁.setHeap a (some (.ionData { d with npages := some (ionNpages size) })) = k₂
    at hfill ⊢
  subst hk₂
  by_cases hbuf : ∃ b, o.dmabuf = some b ∧ k.bufs b = none
  · obtain ⟨b, hb, hbfree⟩ := hbuf
    rw [hb, wp_dmaBufExport_of_free (by rw [← hbfree, ← hbufs]; rfl), if_neg (by simp)]
    exact .allocated ⟨hn, hbytes, ⟨a, ha, hfree⟩, hpages, ⟨b, hb, hbfree⟩⟩ ha hb
      (hfill.allocated hlen (by omega) (KState.setHeap_heap_self ..) rfl hfree hbfree
        (funext hcount.puts))
  · rw [wp_dmaBufExport_of_not_free (fun b hb hk ↦ hbuf ⟨b, hb, by rw [← hbufs]; exact hk⟩),
      Ptr.isErr_err, if_pos rfl]
    have herr := wp_ionAllocErr (E := E) hfill ⟨hcount.gets, hcount.puts⟩ hfree (by omega)
    rw [hlen] at herr
    refine Prog.wp_imp herr fun r k' hr ↦ ?_
    obtain ⟨rfl, hleaves⟩ := hr
    exact .failed (by decide) (.dmabuf hn ⟨a, ha, hfree⟩ hpages hbuf) hleaves

end

/-- `ion_alloc` returns a new buffer, or an error pointer with nothing left behind; it writes to a
header that has no bytes if the size makes `npages` -1. -/
theorem wp_ionAlloc_ends (k : KState) (size : BitVec 64) (o : AllocOutcome) :
    Prog.wp (ionAlloc size o) (AllocEnds k size o) (fun e k' ↦
      e = .outOfBounds ∧ ionNpages size ≠ 0 ∧ ionBytes (ionNpages size) = 0 ∧ k' = k) k := by
  rw [ionAlloc]
  split
  · rename_i hn
    exact .failed (by decide) (.size hn) (.start k)
  rename_i hn
  rw [Prog.wp_bind]
  by_cases hbytes : ionBytes (ionNpages size) = 0
  · -- The header is `ZERO_SIZE_PTR`; `npages` is negative, so the loop has no rounds.
    have hrounds : rounds (ionNpages size) = 0 := by
      by_contra hne
      have hpos := ionBytes_of_rounds_pos (Nat.pos_of_ne_zero hne)
      rw [hbytes] at hpos
      have hzero : BitVec.toNat (0 : BitVec 64) = 0 := rfl
      omega
    have hzero : (ionBytes (ionNpages size)).toNat = 0 := by rw [hbytes]; rfl
    rw [hzero, wp_kmalloc_zero, if_neg (by simp), hrounds]
    exact ⟨rfl, hn, hbytes, rfl⟩
  have hne : (ionBytes (ionNpages size)).toNat ≠ 0 := fun h₀ ↦ hbytes (BitVec.eq_of_toNat_eq h₀)
  by_cases hdata : ∃ a, o.data = some a ∧ k.heap a = none
  · have hheader := hdata
    obtain ⟨a, ha, hfree⟩ := hdata
    rw [ha, wp_kmalloc_of_free hne hfree, if_neg (by simp), Prog.wp_bind]
    refine Prog.wp_imp (wp_ionAllocLoop (room_le_ionBytes hbytes)) fun r k₁ hr ↦ ?_
    obtain ⟨i, ⟨⟩⟩ := r
    obtain ⟨hle, hobt, hstop, hfill, hcount⟩ := hr
    simp only at hle hobt hstop hfill hcount ⊢
    rcases Nat.lt_or_eq_of_le hle with hlt | rfl
    · rw [if_pos hlt]
      have hlen := length_granted hobt
      have hroom := room_le_ionBytes hbytes
      have herr := wp_ionAllocErr (E := fun e k' ↦ e = .outOfBounds ∧ ionNpages size ≠ 0 ∧
        ionBytes (ionNpages size) = 0 ∧ k' = k) hfill hcount hfree (by omega)
      rw [hlen] at herr
      refine Prog.wp_imp herr fun r k' hr ↦ ?_
      obtain ⟨rfl, hleaves⟩ := hr
      exact .failed (by decide) (.page hn hheader hlt hobt (hstop hlt)) hleaves
    · rw [if_neg (Nat.lt_irrefl _)]
      exact wp_ionAlloc_export hfill hn hbytes ha hfree hobt hcount
  · rw [wp_kmalloc_of_not_free hne (fun a ha hk ↦ hdata ⟨a, ha, hk⟩), if_pos rfl]
    exact .failed (by decide) (.header hn hdata) (.start k)

/-- **`ion_alloc`**: a new buffer, or an error pointer and the same resources as before; it faults
if the size makes `npages` -1, so that the header has no bytes. -/
theorem wp_ionAlloc (k : KState) (size : BitVec 64) (o : AllocOutcome) :
    Prog.wp (ionAlloc size o) (AllocDone k size o)
      (fun _ k' ↦ ionNpages size ≠ 0 ∧ ionBytes (ionNpages size) = 0 ∧ k' = k) k :=
  Prog.wp_mono (wp_ionAlloc_ends k size o) (fun _ _ h ↦ h.done) fun _ _ h ↦ h.2

/-- **Nothing left behind.**  Where `ion_alloc` returns an error pointer, and that is wherever one
of its steps fails, the pages in use and the heap are as before, and each page that it has obtained
was put once.  It puts no entry that it has not filled, which would be a fault of its own: the only
fault is the write to a header without bytes, before which it has obtained nothing. -/
theorem ionAlloc_leavesNothing (k : KState) (size : BitVec 64) (o : AllocOutcome) :
    Prog.wp (ionAlloc size o)
      (fun r k' ↦ (∀ e, r = .err e →
          ∃ n, FailsAt k size o n ∧ LeavesNothing k (granted o.pages n) k') ∧
        ∀ n, FailsAt k size o n → ∃ e, r = .err e)
      (fun e k' ↦ e = .outOfBounds ∧ ionBytes (ionNpages size) = 0 ∧ k' = k) k := by
  refine Prog.wp_mono (wp_ionAlloc_ends k size o) (fun r k' h ↦ ?_) ?_
  · cases h with
    | allocated hok _ _ _ => exact ⟨nofun, fun n hfails ↦ absurd hok hfails.not_allocOk⟩
    | failed _ hfails hleaves => exact ⟨fun _ _ ↦ ⟨_, hfails, hleaves⟩, fun _ _ ↦ ⟨_, rfl⟩⟩
  · rintro e k' ⟨he, -, hbytes, hk⟩
    exact ⟨he, hbytes, hk⟩


/-! ## Live buffers -/

/-- `buf` is an ion buffer whose pages are `ps`: distinct pages that are handed out. -/
structure KState.Holds (k : KState) (buf : Buf) (ps : List Page) : Prop where
  data : ∃ a d, buf.priv = .data (.addr a) ∧ k.heap a = some (.ionData d) ∧ d.Holds ps
  nodup : ps.Nodup
  inUse : ∀ p ∈ ps, p ∈ k.pages ∧ p < maxPfn

theorem KState.Holds.length_lt {k : KState} {buf : Buf} {ps : List Page} (h : k.Holds buf ps) :
    ps.length < 2 ^ 31 := by
  obtain ⟨-, d, -, -, hholds⟩ := h.data
  obtain ⟨n, -, hlen⟩ := hholds.npages
  exact hlen ▸ rounds_lt n

/-- A buffer that `ion_alloc` has just returned. -/
theorem Allocated.holds {k k' : KState} {size : BitVec 64} {a : Addr} {b : BufId}
    {ps : List Page} (h : Allocated k size a b ps k') :
    k'.Holds ⟨.ion, ionSize (ionNpages size), .data (.addr a), []⟩ ps where
  data := by
    obtain ⟨d, hd, hholds⟩ := h.data
    exact ⟨a, d, rfl, hd, hholds⟩
  nodup := h.nodup
  inUse p hp := ⟨(h.mem_pages p).mpr (.inl hp), (h.free p hp).2⟩

/-! ## What `ion_release` does -/

/-- Since `k`, the pages `ps` were put back, each of them once. -/
structure PutBack (k : KState) (ps : List Page) (k' : KState) : Prop where
  mem_pages : ∀ p, p ∈ k'.pages ↔ p ∈ k.pages ∧ p ∉ ps
  puts : ∀ p, k'.puts p = k.puts p + if p ∈ ps then 1 else 0
  gets : k'.gets = k.gets
  heap : k'.heap = k.heap
  rest : k'.rest = k.rest

theorem PutBack.start (k : KState) : PutBack k [] k where
  mem_pages p := by simp
  puts p := by simp
  gets := rfl
  heap := rfl
  rest := rfl

theorem PutBack.push {k k' : KState} {ps : List Page} {p : Page} (h : PutBack k ps k')
    (hp : p ∉ ps) : PutBack k (ps ++ [p]) (k'.put p) where
  mem_pages q := by
    rw [mem_put_pages, h.mem_pages, List.mem_append, List.mem_singleton]
    tauto
  puts q := by
    by_cases hq : q = p
    · subst hq
      have hput : (k'.put q).puts q = k'.puts q + 1 := Function.update_self ..
      rw [hput, h.puts, if_neg hp, if_pos (by simp)]
    · have hput : (k'.put p).puts q = k'.puts q := Function.update_of_ne hq ..
      rw [hput, h.puts]
      simp only [List.mem_append, List.mem_singleton, hq, or_false]
  gets := h.gets
  heap := h.heap
  rest := h.rest

/-- What a release leaves: the pages put back and the header freed. -/
structure Released (k : KState) (a : Addr) (ps : List Page) (k' : KState) : Prop where
  mem_pages : ∀ p, p ∈ k'.pages ↔ p ∈ k.pages ∧ p ∉ ps
  puts : ∀ p, k'.puts p = k.puts p + if p ∈ ps then 1 else 0
  gets : k'.gets = k.gets
  heap : k'.heap = Function.update k.heap a none
  rest : k'.rest = k.rest

/-- **`ion_release`** puts each page of its buffer once and frees the header. -/
theorem wp_ionRelease {k : KState} {buf : Buf} {a : Addr} {ps : List Page}
    {E : Oops → KState → Prop} (h : k.Holds buf ps) (hpriv : buf.priv = .data (.addr a)) :
    Prog.wp (ionRelease buf) (fun _ k' ↦ Released k a ps k') E k := by
  obtain ⟨a', d, ha', hd, hholds⟩ := h.data
  obtain rfl : a = a' := by simpa [hpriv] using ha'
  obtain ⟨n, hn, hlen⟩ := hholds.npages
  have hdata : ionDataOf buf = .addr a := by rw [ionDataOf, hpriv]
  rw [ionRelease, hdata, Prog.wp_bind, wp_loadNpages hd hn, Prog.wp_bind, hlen]
  refine Prog.wp_imp (Prog.wp_forFrom (Q := fun r s ↦ PutBack k ps s)
    (fun j _ s ↦ PutBack k (ps.take j) s) (fun j _ s _ hj hs ↦ ?_) (fun _ s hs ↦ ?_) ?_)
    fun _ s hs ↦ ?_
  · rw [Nat.zero_add] at hj
    have hnew : ps[j] ∉ ps.take j := by
      have hsplit := List.take_append_getElem hj ▸ h.nodup.sublist (List.take_sublist (j + 1) ps)
      exact fun hmem ↦ (List.nodup_append.mp hsplit).2.2 _ hmem _ (List.mem_singleton_self _) rfl
    have hd' : s.heap a = some (.ionData d) := hs.heap ▸ hd
    have hbytes := hholds.bytes
    rw [Prog.wp_bind, wp_loadPage hd' (by omega), hholds.pages j hj, Prog.wp_bind,
      wp_putPage ((hs.mem_pages _).mpr ⟨(h.inUse _ (List.getElem_mem hj)).1, hnew⟩)]
    have hpush := hs.push hnew
    rwa [List.take_append_getElem hj] at hpush
  · rwa [Nat.zero_add, List.take_length] at hs
  · exact .start k
  · have hd' : s.heap a = some (.ionData d) := hs.heap ▸ hd
    refine (wp_kfree hd').mpr ⟨hs.mem_pages, hs.puts, hs.gets, ?_, hs.rest⟩
    rw [← hs.heap]
    rfl

end DmaBuf
