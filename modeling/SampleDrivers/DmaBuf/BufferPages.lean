import SampleDrivers.DmaBuf.PageOwnership
import SampleDrivers.DmaBuf.UserMemory

/-!
# The pages of all buffers

The page exporter and the ion exporter work on the same kernel.  A buffer of the one has a single
page, a buffer of the other the pages of its header; whatever calls are made, no page belongs to two
live buffers, and no call but a write of a process changes a page of a buffer.

* `KState.Has` — the pages of a live buffer of either exporter; `KState.frame`, its page `i`.
* `Apart` — every live buffer has its pages, and no two of them share a page.
* `BufEffect` — what an allocation may do to the buffers: nothing, or add one with pages that were
  free.  A release takes one away (`LosesBuf`).
* `ionIoctl_effect`, `exporterAllocPage_effect`, `exporterIoctl_effect`, `dmaBufRelease_effect`,
  `dmaBufMmap_final` — what each call does.
-/

set_option autoImplicit false

namespace DmaBuf

open Kernel Prog

/-! ## Pages of buffers -/

/-- `buf` has the pages `ps`. -/
inductive KState.Has (k : KState) : Buf → List Page → Prop
  | ion {buf : Buf} {ps : List Page} (hops : buf.ops = .ion) (h : k.Holds buf ps) : k.Has buf ps
  | page {buf : Buf} {p : Page} (hops : buf.ops = .page) (hpriv : buf.priv = .page p)
      (hin : p ∈ k.pages) (hlt : p < maxPfn) : k.Has buf [p]

/-- Page `s.2` of the live buffer `s.1`. -/
def KState.frame (k : KState) (s : BufId × ℕ) : Option Page :=
  match (k.bufs s.1).map Buf.priv with
  | some (.page p) => if s.2 = 0 then some p else none
  | _ => k.slot s

section

variable {k k' : KState} {b : BufId} {buf : Buf} {ps : List Page} {p : Page} {o : Option BufId}

theorem frame_of_none (h : k.bufs b = none) (i : ℕ) : k.frame (b, i) = none := by
  rw [KState.frame]
  simp only [h, Option.map_none]
  exact slot_of_none h i

/-- The frames of a live buffer are its pages. -/
theorem frame_of_has (hbuf : k.bufs b = some buf) (h : k.Has buf ps) (i : ℕ) :
    k.frame (b, i) = ps[i]? := by
  rw [KState.frame]
  simp only [hbuf, Option.map_some]
  cases h with
  | ion _ h =>
    obtain ⟨a, -, hpriv, -⟩ := h.data
    rw [hpriv]
    exact slot_of_holds hbuf h i
  | page _ hpriv _ _ =>
    rw [hpriv]
    cases i with
    | zero => rfl
    | succ i => rfl

namespace KState.Has

theorem nodup (h : k.Has buf ps) : ps.Nodup := by
  cases h with
  | ion _ h => exact h.nodup
  | page => exact List.nodup_singleton _

theorem inUse (h : k.Has buf ps) (hp : p ∈ ps) : p ∈ k.pages ∧ p < maxPfn := by
  cases h with
  | ion _ h => exact h.inUse p hp
  | page _ _ hin hlt => exact List.mem_singleton.mp hp ▸ ⟨hin, hlt⟩

theorem length_lt (h : k.Has buf ps) : ps.length < 2 ^ 31 := by
  cases h with
  | ion _ h => exact h.length_lt
  | page => exact (by decide : 1 < 2 ^ 31)

/-- What a buffer has depends on its header and on what is handed out. -/
theorem transfer (h : k.Has buf ps)
    (hdata : ∀ a d, buf.priv = .data (.addr a) → k.heap a = some (.ionData d) →
      k'.heap a = some (.ionData d)) (hpages : ∀ p ∈ ps, p ∈ k'.pages) : k'.Has buf ps := by
  cases h with
  | ion hops h => exact .ion hops (h.transfer hdata hpages)
  | page hops hpriv _ hlt => exact .page hops hpriv (hpages _ (List.mem_singleton_self _)) hlt

end KState.Has

/-! ## Buffers that share no page -/

/-- Every live buffer has its pages, and no two of them have a page in common. -/
structure Apart (k : KState) : Prop where
  live : ∀ b buf, k.bufs b = some buf → ∃ ps, k.Has buf ps
  /-- The headers are their own. -/
  priv_inj : ∀ b b' buf buf', k.bufs b = some buf → k.bufs b' = some buf' →
    buf.priv = buf'.priv → b = b'
  frame_inj : ∀ s s' p, k.frame s = some p → k.frame s' = some p → s = s'
  balanced : k.Balanced

namespace Apart

theorem boot : Apart .boot where
  live b buf h := by cases h
  priv_inj b b' buf buf' h := by cases h
  frame_inj s s' p h := by
    rw [show s = (s.1, s.2) from rfl, frame_of_none (k := .boot) rfl] at h
    cases h
  balanced _ := rfl

/-- A frame is a page of a live buffer. -/
theorem exists_has (h : Apart k) {s : BufId × ℕ} (hs : k.frame s = some p) :
    ∃ buf ps, k.bufs s.1 = some buf ∧ k.Has buf ps ∧ ps[s.2]? = some p := by
  obtain ⟨b, i⟩ := s
  cases hbuf : k.bufs b with
  | none =>
    rw [frame_of_none hbuf] at hs
    cases hs
  | some buf =>
    obtain ⟨ps, hps⟩ := h.live b buf hbuf
    exact ⟨buf, ps, rfl, hps, frame_of_has hbuf hps i ▸ hs⟩

theorem frame_inUse (h : Apart k) {s : BufId × ℕ} (hs : k.frame s = some p) : p ∈ k.pages := by
  obtain ⟨_, _, _, hps, hp⟩ := h.exists_has hs
  exact (hps.inUse (List.mem_of_getElem? hp)).1

end Apart

/-- Every buffer but `b` is as it was, with the pages it had. -/
structure KeepsRest (k : KState) (b : BufId) (k' : KState) : Prop where
  bufs : ∀ b', b' ≠ b → k'.bufs b' = k.bufs b'
  has : ∀ b' buf ps, b' ≠ b → k.bufs b' = some buf → k.Has buf ps → k'.Has buf ps

theorem KeepsRest.frame {b' : BufId} (h : KeepsRest k b k') (hk : Apart k) (hb : b' ≠ b) (i : ℕ) :
    k'.frame (b', i) = k.frame (b', i) := by
  cases hbuf : k.bufs b' with
  | none => rw [frame_of_none ((h.bufs b' hb).trans hbuf), frame_of_none hbuf]
  | some buf =>
    obtain ⟨ps, hps⟩ := hk.live b' buf hbuf
    rw [frame_of_has ((h.bufs b' hb).trans hbuf) (h.has b' buf ps hb hbuf hps),
      frame_of_has hbuf hps]

/-- What an allocation may do to the buffers and to the contents of their pages; `o` is the buffer
it may add. -/
inductive BufEffect (o : Option BufId) (k k' : KState) : Prop
  /-- The buffers stay. -/
  | same (hbufs : k'.bufs = k.bufs)
      (hhas : ∀ b buf ps, k.bufs b = some buf → k.Has buf ps → k'.Has buf ps)
      (hpages : k'.pages = k.pages) (hram : ∀ p ∈ k.pages, k'.ram p = k.ram p)
  /-- Buffer `b` comes, with pages that were free. -/
  | new (b : BufId) (buf : Buf) (ps : List Page) (ho : o = some b) (hfree : k.bufs b = none)
      (hbuf : k'.bufs b = some buf) (hps : k'.Has buf ps) (hrest : KeepsRest k b k')
      (hfresh : ∀ p ∈ ps, p ∉ k.pages)
      (hpriv : ∀ b' buf', k.bufs b' = some buf' → buf'.priv ≠ buf.priv)
      (hpages : ∀ p ∈ k'.pages, p ∈ ps ∨ p ∈ k.pages) (hram : ∀ p ∈ k.pages, k'.ram p = k.ram p)

/-- Buffer `b` goes with its pages, and the contents of all pages stay. -/
structure LosesBuf (k : KState) (b : BufId) (k' : KState) : Prop where
  gone : k'.bufs b = none
  rest : KeepsRest k b k'
  ram : k'.ram = k.ram
  pages : ∀ p ∈ k'.pages, p ∈ k.pages ∧ ∀ i, k.frame (b, i) ≠ some p

theorem BufEffect.refl (o : Option BufId) (k : KState) : BufEffect o k k :=
  .same rfl (fun _ _ _ _ h ↦ h) rfl fun _ _ ↦ rfl

/-- An allocation leaves the frames there are where they are, with their contents. -/
theorem BufEffect.frame (h : BufEffect o k k') (hk : Apart k) {s : BufId × ℕ}
    (hs : k.frame s = some p) :
    k'.frame s = some p ∧ k'.ram p = k.ram p := by
  obtain ⟨buf, ps, hbuf, hps, hp⟩ := hk.exists_has hs
  obtain ⟨b, i⟩ := s
  have hin := hk.frame_inUse hs
  cases h with
  | same hbufs hhas _ hram =>
    rw [frame_of_has (hbufs ▸ hbuf) (hhas b buf ps hbuf hps)]
    exact ⟨hp, hram p hin⟩
  | new b' buf' ps' _ hfree hbuf' hps' hrest _ _ _ hram =>
    have hb : b ≠ b' := by
      rintro rfl
      exact absurd (hfree.symm.trans hbuf) (by simp)
    rw [hrest.frame hk hb]
    exact ⟨hs, hram p hin⟩

/-- What an effect on buffers depends on. -/
def KState.core (k : KState) := (k.pages, k.gets, k.puts, k.ram, k.heap, k.bufs)

theorem BufEffect.congr {k'' : KState} (h : BufEffect o k k') (hcore : k''.core = k'.core) :
    BufEffect o k k'' := by
  have hbufs : k''.bufs = k'.bufs := congrArg (fun c ↦ c.2.2.2.2.2) hcore
  have hram : k''.ram = k'.ram := congrArg (fun c ↦ c.2.2.2.1) hcore
  have hheap : k''.heap = k'.heap := congrArg (fun c ↦ c.2.2.2.2.1) hcore
  have hpages : k''.pages = k'.pages := congrArg (fun c ↦ c.1) hcore
  have hhas : ∀ {buf ps}, k'.Has buf ps → k''.Has buf ps := fun {buf ps} h ↦
    h.transfer (fun a d _ hd ↦ hheap ▸ hd) fun p hp ↦ hpages ▸ (h.inUse hp).1
  cases h with
  | same hb hh hp hr =>
    exact .same (hbufs.trans hb) (fun b buf ps hbuf hps ↦ hhas (hh b buf ps hbuf hps))
      (hpages.trans hp) fun p hp ↦ hram ▸ hr p hp
  | new b buf ps ho hfree hbuf hps hrest hfresh hpriv hp hr =>
    refine .new b buf ps ho hfree (hbufs ▸ hbuf) (hhas hps)
      ⟨fun b' hb ↦ ?_, fun b' buf' qs hb hq h ↦ ?_⟩ hfresh hpriv (hpages ▸ hp)
      fun p hp ↦ hram ▸ hr p hp
    · exact hbufs ▸ hrest.bufs b' hb
    · exact hhas (hrest.has b' buf' qs hb hq h)

namespace Apart

/-- The frames of a kernel whose buffers stay. -/
theorem frame_of_same (hk : Apart k) (hbufs : k'.bufs = k.bufs)
    (hhas : ∀ b buf ps, k.bufs b = some buf → k.Has buf ps → k'.Has buf ps) :
    k'.frame = k.frame := by
  funext s
  obtain ⟨b, i⟩ := s
  cases hbuf : k.bufs b with
  | none => rw [frame_of_none hbuf, frame_of_none (hbufs ▸ hbuf)]
  | some buf =>
    obtain ⟨ps, hps⟩ := hk.live b buf hbuf
    rw [frame_of_has hbuf hps, frame_of_has (hbufs ▸ hbuf) (hhas b buf ps hbuf hps)]

theorem new (hk : Apart k) (hfree : k.bufs b = none) (hbuf : k'.bufs b = some buf)
    (hps : k'.Has buf ps) (hrest : KeepsRest k b k') (hfresh : ∀ p ∈ ps, p ∉ k.pages)
    (hpriv : ∀ b' buf', k.bufs b' = some buf' → buf'.priv ≠ buf.priv) (hbal : k'.Balanced) :
    Apart k' where
  live b' buf' hbuf' := by
    by_cases hb : b' = b
    · rw [hb, hbuf, Option.some_inj] at hbuf'
      exact ⟨ps, hbuf' ▸ hps⟩
    · rw [hrest.bufs b' hb] at hbuf'
      obtain ⟨qs, hqs⟩ := hk.live b' buf' hbuf'
      exact ⟨qs, hrest.has b' buf' qs hb hbuf' hqs⟩
  priv_inj b₁ b₂ buf₁ buf₂ h₁ h₂ heq := by
    by_cases hb₁ : b₁ = b
    · by_cases hb₂ : b₂ = b
      · rw [hb₁, hb₂]
      · rw [hb₁, hbuf, Option.some_inj] at h₁
        rw [hrest.bufs b₂ hb₂] at h₂
        exact absurd (heq.symm.trans (h₁ ▸ rfl)) (hpriv b₂ buf₂ h₂)
    · rw [hrest.bufs b₁ hb₁] at h₁
      by_cases hb₂ : b₂ = b
      · rw [hb₂, hbuf, Option.some_inj] at h₂
        exact absurd (heq.trans (h₂ ▸ rfl)) (hpriv b₁ buf₁ h₁)
      · rw [hrest.bufs b₂ hb₂] at h₂
        exact hk.priv_inj b₁ b₂ buf₁ buf₂ h₁ h₂ heq
  frame_inj := by
    have hself : ∀ i p, k'.frame (b, i) = some p → p ∉ k.pages := fun i p hp ↦
      hfresh p (List.mem_of_getElem? ((frame_of_has hbuf hps i).symm.trans hp))
    have hother : ∀ b' i p, b' ≠ b → k'.frame (b', i) = some p → p ∈ k.pages := fun b' i p hb hp ↦
      hk.frame_inUse ((hrest.frame hk hb i).symm.trans hp)
    rintro ⟨b₁, i₁⟩ ⟨b₂, i₂⟩ p h₁ h₂
    by_cases hb₁ : b₁ = b
    · subst hb₁
      by_cases hb₂ : b₂ = b₁
      · subst hb₂
        rw [frame_of_has hbuf hps] at h₁ h₂
        obtain ⟨hlt₁, heq₁⟩ := List.getElem?_eq_some_iff.mp h₁
        obtain ⟨hlt₂, heq₂⟩ := List.getElem?_eq_some_iff.mp h₂
        rw [hps.nodup.getElem_inj_iff.mp (heq₁.trans heq₂.symm)]
      · exact absurd (hother b₂ i₂ p hb₂ h₂) (hself i₁ p h₁)
    · by_cases hb₂ : b₂ = b
      · subst hb₂
        exact absurd (hother b₁ i₁ p hb₁ h₁) (hself i₂ p h₂)
      · rw [hrest.frame hk hb₁] at h₁
        rw [hrest.frame hk hb₂] at h₂
        exact hk.frame_inj _ _ p h₁ h₂
  balanced := hbal

theorem loses (hk : Apart k) (h : LosesBuf k b k') (hbal : k'.Balanced) : Apart k' := by
  obtain ⟨hgone, hrest, -, -⟩ := h
  have hne : ∀ b' buf', k'.bufs b' = some buf' → b' ≠ b := by
    rintro b' buf' hbuf' rfl
    rw [hgone] at hbuf'
    cases hbuf'
  have hframe : ∀ s p, k'.frame s = some p → k.frame s = some p := by
    rintro ⟨b', i⟩ p hp
    by_cases hb : b' = b
    · rw [hb, frame_of_none hgone] at hp
      cases hp
    · exact (hrest.frame hk hb i).symm.trans hp
  refine ⟨fun b' buf' hbuf' ↦ ?_, fun b₁ b₂ buf₁ buf₂ h₁ h₂ ↦ ?_, fun s s' p h₁ h₂ ↦ ?_, hbal⟩
  · have hb := hne b' buf' hbuf'
    rw [hrest.bufs b' hb] at hbuf'
    obtain ⟨qs, hqs⟩ := hk.live b' buf' hbuf'
    exact ⟨qs, hrest.has b' buf' qs hb hbuf' hqs⟩
  · exact hk.priv_inj b₁ b₂ buf₁ buf₂ ((hrest.bufs b₁ (hne b₁ buf₁ h₁)).symm.trans h₁)
      ((hrest.bufs b₂ (hne b₂ buf₂ h₂)).symm.trans h₂)
  · exact hk.frame_inj s s' p (hframe s p h₁) (hframe s' p h₂)

/-- The buffers stay apart where they stay. -/
theorem same (hk : Apart k) (hbufs : k'.bufs = k.bufs)
    (hhas : ∀ b buf ps, k.bufs b = some buf → k.Has buf ps → k'.Has buf ps)
    (hbal : k'.Balanced) : Apart k' := by
  have hframe := hk.frame_of_same hbufs hhas
  refine ⟨fun b buf hbuf ↦ ?_, ?_, hframe ▸ hk.frame_inj, hbal⟩
  · rw [hbufs] at hbuf
    obtain ⟨ps, hps⟩ := hk.live b buf hbuf
    exact ⟨ps, hhas b buf ps hbuf hps⟩
  · rw [hbufs]
    exact hk.priv_inj

/-- Where the pages of the buffers are depends neither on their contents nor on what is mapped. -/
theorem frame_congr (hk : Apart k) (hbufs : k'.bufs = k.bufs) (hheap : k'.heap = k.heap)
    (hpages : k'.pages = k.pages) : k'.frame = k.frame :=
  hk.frame_of_same hbufs fun _ _ _ _ hps ↦
    hps.transfer (fun _ _ _ hd ↦ hheap ▸ hd) fun _ hp ↦ hpages ▸ (hps.inUse hp).1

/-- What buffers consist of depends neither on the contents of pages nor on what is mapped. -/
theorem congr (hk : Apart k) (hbufs : k'.bufs = k.bufs) (hheap : k'.heap = k.heap)
    (hcounts : k'.counts = k.counts) : Apart k' := by
  have hpages : k'.pages = k.pages := congrArg (fun c ↦ c.1) hcounts
  refine hk.same hbufs (fun b buf ps _ hps ↦ ?_) (hk.balanced.congr hcounts)
  exact hps.transfer (fun a d _ hd ↦ hheap ▸ hd) fun p hp ↦ hpages ▸ (hps.inUse hp).1

/-- **An allocation** leaves the buffers apart. -/
theorem effect (hk : Apart k) (h : BufEffect o k k') (hbal : k'.Balanced) : Apart k' := by
  cases h with
  | same hbufs hhas _ _ => exact hk.same hbufs hhas hbal
  | new b buf ps _ hfree hbuf hps hrest hfresh hpriv _ _ =>
    exact hk.new hfree hbuf hps hrest hfresh hpriv hbal

end Apart

end

/-! ## What the calls do -/

/-- What processes have: descriptors and page tables. -/
def KState.owned (k : KState) := (k.fds, k.tables)

/-- The contents of a page change only when it is handed out, and what processes have does not
change. -/
def KState.grants : Evolution KState where
  rel k k' := k'.owned = k.owned ∧
    ∀ p, k.gets p ≤ k'.gets p ∧ (k'.gets p = k.gets p → k'.ram p = k.ram p)
  refl _ := ⟨rfl, fun _ ↦ ⟨Nat.le_refl _, fun _ ↦ rfl⟩⟩
  trans h h' := by
    refine ⟨h'.1.trans h.1, fun p ↦ ⟨Nat.le_trans (h.2 p).1 (h'.2 p).1, fun heq ↦ ?_⟩⟩
    have hmid := (h.2 p).1
    have hlast := (h'.2 p).1
    rw [(h'.2 p).2 (by omega), (h.2 p).2 (by omega)]

section

theorem grants_of_keeps {α : Type} {x : KProg α}
    (h : Keeps (fun k ↦ (k.owned, k.gets, k.ram)) x) : Within KState.grants x := by
  have hrel : ∀ k k' : KState, (k'.owned, k'.gets, k'.ram) = (k.owned, k.gets, k.ram) →
      KState.grants.rel k k' := by
    intro k k' heq
    obtain ⟨howned, hgets, hram⟩ := by simpa only [Prod.mk.injEq] using heq
    refine ⟨howned, fun p ↦ ?_⟩
    rw [hgets, hram]
    exact ⟨Nat.le_refl _, fun _ ↦ rfl⟩
  exact fun k ↦ wp_mono (h k) (fun _ k' hk ↦ hrel k k' hk) fun _ k' hk ↦ hrel k k' hk

/-- Looking at a header changes nothing. -/
theorem reads_loadIonData (data : KPtr) : Keeps (fun k : KState ↦ k) (loadIonData data) := by
  intro k
  cases data with
  | null => rfl
  | zeroSize => rfl
  | addr a =>
    simp only [loadIonData, wp_bind, wp_get]
    split <;> rfl

theorem reads_loadPage (data : KPtr) (i : ℕ) : Keeps (fun k : KState ↦ k) (loadPage data i) :=
  (reads_loadIonData data).bind fun _ ↦ .ite (.throw _) (.pure _)

theorem reads_loadNpages (data : KPtr) : Keeps (fun k : KState ↦ k) (loadNpages data) := by
  refine (reads_loadIonData data).bind fun d ↦ ?_
  split
  · exact .pure _
  · exact .throw _

theorem reads_loadBuf (b : BufId) : Keeps (fun k : KState ↦ k) (loadBuf b) := by
  intro k
  simp only [loadBuf, wp_bind, wp_get]
  split <;> rfl

/-- What changes nothing leaves every part alone. -/
theorem keeps_of_reads {α γ : Type} {x : KProg α} (view : KState → γ)
    (h : Keeps (fun k : KState ↦ k) x) : Keeps view x :=
  h.comp view

theorem grants_allocPage (o : Option Grant) : Within KState.grants (allocPage o) := by
  intro k
  by_cases hfree : ∃ g, o = some g ∧ k.Free g.page
  · obtain ⟨g, rfl, hg⟩ := hfree
    rw [wp_allocPage_of_free hg]
    refine ⟨rfl, fun p ↦ ?_⟩
    by_cases hp : p = g.page
    · subst hp
      simp [KState.grant]
    · simp [KState.grant, Function.update_of_ne hp]
  · rw [wp_allocPage_of_not_free fun g hg hk ↦ hfree ⟨g, hg, hk⟩]
    exact KState.grants.refl k

theorem grants_storePage (data : KPtr) (i : ℕ) (page : Slot) :
    Within KState.grants (storePage data i page) := by
  refine (grants_of_keeps (keeps_of_reads _ (reads_loadIonData data))).bind fun d ↦ ?_
  split
  · exact .ite (.throw _) (grants_of_keeps (.modify _ fun _ ↦ rfl))
  · exact .throw _

theorem grants_storeNpages (data : KPtr) (npages : BitVec 32) :
    Within KState.grants (storeNpages data npages) := by
  refine (grants_of_keeps (keeps_of_reads _ (reads_loadIonData data))).bind fun d ↦ ?_
  split
  · exact .ite (.throw _) (grants_of_keeps (.modify _ fun _ ↦ rfl))
  · exact .throw _

theorem grants_putPage (s : Slot) : Within KState.grants (putPage s) := by
  intro k
  cases s with
  | garbage => exact KState.grants.refl k
  | null => exact KState.grants.refl k
  | page p =>
    simp only [putPage, wp_bind, wp_get]
    split
    · exact ⟨rfl, fun _ ↦ ⟨Nat.le_refl _, fun _ ↦ rfl⟩⟩
    · exact KState.grants.refl k

theorem grants_kmalloc (bytes : ℕ) (obj : HeapObj) (o : Option Addr) :
    Within KState.grants (kmalloc bytes obj o) :=
  grants_of_keeps (keeps_kmalloc_of fun _ _ _ ↦ rfl)

theorem grants_kfree (kind : HeapKind) (p : KPtr) : Within KState.grants (kfree kind p) :=
  grants_of_keeps (keeps_kfree_of (fun _ _ _ ↦ rfl) p)

theorem grants_dmaBufExport (buf : Buf) (o : Option BufId) :
    Within KState.grants (dmaBufExport buf o) := by
  intro k
  by_cases hfree : ∃ b, o = some b ∧ k.bufs b = none
  · obtain ⟨b, rfl, hb⟩ := hfree
    rw [wp_dmaBufExport_of_free hb]
    exact ⟨rfl, fun _ ↦ ⟨Nat.le_refl _, fun _ ↦ rfl⟩⟩
  · rw [wp_dmaBufExport_of_not_free fun b hb hk ↦ hfree ⟨b, hb, hk⟩]
    exact KState.grants.refl k

theorem grants_ionAllocErr (data : KPtr) (i : ℕ) :
    Within KState.grants (ionAllocErr data i) := by
  refine .bind (.whileDown (fun j ↦ .bind ?_ fun page ↦ grants_putPage page) i) fun _ ↦ ?_
  · exact grants_of_keeps (keeps_of_reads _ (reads_loadPage data j))
  · exact (grants_kfree _ data).bind fun _ ↦ .pure _

theorem grants_ionRelease (buf : Buf) : Within KState.grants (ionRelease buf) := by
  refine (grants_of_keeps (keeps_of_reads _ (reads_loadNpages _))).bind fun npages ↦ ?_
  refine .bind (.forFrom (fun i _ ↦ .bind ?_ fun page ↦ ?_) _ _ _) fun _ ↦ grants_kfree _ _
  · exact grants_of_keeps (keeps_of_reads _ (reads_loadPage _ i))
  · exact (grants_putPage page).bind fun _ ↦ .pure _

theorem grants_ionAlloc (size : BitVec 64) (o : AllocOutcome) :
    Within KState.grants (ionAlloc size o) := by
  refine .ite (.pure _) ((grants_kmalloc _ _ _).bind fun data ↦ ?_)
  refine .ite (.pure _) (.bind (.forFrom (fun i _ ↦ ?_) _ _ _) fun r ↦ ?_)
  · exact (grants_allocPage _).bind fun page ↦ (grants_storePage _ _ _).bind fun _ ↦ .pure _
  · obtain ⟨i, -⟩ := r
    refine .ite (grants_ionAllocErr data i) ((grants_storeNpages data _).bind fun _ ↦ ?_)
    exact (grants_dmaBufExport _ _).bind fun _ ↦ .ite (grants_ionAllocErr data i) (.pure _)

variable {k k' : KState} {b : BufId} {buf : Buf} {ps : List Page}

/-- A page that is in use throughout, on a balanced account, was not handed out anew. -/
theorem ram_of_grants (h : KState.grants.rel k k') (hbal : k.Balanced) (hbal' : k'.Balanced)
    (hputs : k'.puts = k.puts) {p : Page} (hp : p ∈ k.pages) (hp' : p ∈ k'.pages) :
    k'.ram p = k.ram p := by
  refine (h.2 p).2 ?_
  rw [hbal p, hbal' p, hputs, if_pos hp, if_pos hp']

/-- **`ion_alloc`** adds a buffer, or leaves the buffers as they are. -/
theorem ionAlloc_effect (hk : Apart k) (size : BitVec 64) (o : AllocOutcome) :
    BufEffect o.dmabuf k ((ionAlloc size o).final k) ∧ ((ionAlloc size o).final k).Balanced := by
  have hbal := (preserves_ionAlloc size o).final k hk.balanced
  have hgrants := (grants_ionAlloc size o).final k
  refine ⟨?_, hbal⟩
  cases hres : (ionAlloc size o).result k with
  | none =>
    obtain ⟨-, -, -, -, hsame⟩ := fault_of_wp (wp_ionAlloc_ends k size o) hres
    rw [hsame]
    exact .refl _ k
  | some r =>
    have hends := result_of_wp (wp_ionAlloc_ends k size o) hres
    generalize (ionAlloc size o).final k = k' at hends hgrants hbal ⊢
    cases hends with
    | @allocated a b _ hok ha hb h =>
      have hfree : ∀ b' buf', k.bufs b' = some buf' → buf'.priv ≠ .data (.addr a) := by
        intro b' buf' hbuf' hpriv
        obtain ⟨ps, hps⟩ := hk.live b' buf' hbuf'
        cases hps with
        | ion _ hps =>
          obtain ⟨a', d, hpriv', hd, -⟩ := hps.data
          obtain rfl : a = a' := by simpa [hpriv] using hpriv'
          exact absurd (h.data_free.symm.trans hd) (by simp)
        | page _ hpriv' _ _ => exact absurd (hpriv.symm.trans hpriv') (by simp)
      refine .new _ _ _ hb h.buf_free h.bufs_self (.ion rfl h.holds) ⟨fun b' hb ↦ ?_,
        fun b' buf' qs _ hbuf' hqs ↦ ?_⟩ (fun p hp ↦ (h.free p hp).1) hfree
        (fun p ↦ (h.mem_pages p).mp) fun p hp ↦ ?_
      · rw [h.bufs]
        exact Function.update_of_ne hb ..
      · refine hqs.transfer (fun a' d hpriv hd ↦ ?_) fun p hp ↦
          (h.mem_pages p).mpr (.inr (hqs.inUse hp).1)
        rw [h.heap a' fun haa ↦ hfree b' buf' hbuf' (haa ▸ hpriv)]
        exact hd
      · exact ram_of_grants hgrants hk.balanced hbal h.puts hp ((h.mem_pages p).mpr (.inr hp))
    | failed _ _ h =>
      have hpages := h.sameResources.pages
      refine .same (congrArg (fun r ↦ r.2.2.2.1) h.sameResources.rest)
        (fun b buf ps hbuf hps ↦ hps.transfer (fun a d _ hd ↦ h.sameResources.heap ▸ hd)
          fun p hp ↦ hpages ▸ (hps.inUse hp).1) hpages fun p hp ↦ ?_
      refine (hgrants.2 p).2 ?_
      rw [h.counted.gets, List.count_eq_zero_of_not_mem fun hmem ↦ (h.free p hmem).1 hp,
        Nat.add_zero]

/-- `dma_buf_fd` only writes the table of descriptors. -/
theorem core_dmaBufFd (pid : Pid) (dmabuf : Ptr BufId) (o : Option ℕ) :
    Keeps (fun k ↦ (k.core, k.tables)) (dmaBufFd pid dmabuf o) := by
  cases dmabuf with
  | null => exact .pure _
  | err e => exact .throw _
  | obj b =>
    refine (keeps_of_reads _ (reads_loadBuf b)).bind fun buf k ↦ ?_
    rw [wp_bind, wp_get]
    split
    · split <;> rfl
    · rfl

theorem balanced_of_core (hcore : k'.core = k.core) (h : k.Balanced) : k'.Balanced :=
  h.congr (congrArg (fun c ↦ (c.1, c.2.1, c.2.2.1)) hcore)

/-- **`ion_ioctl`** adds a buffer, or leaves the buffers as they are. -/
theorem ionIoctl_effect (hk : Apart k) (ionIocAlloc : BitVec 32) (pid : Pid) (cmd : BitVec 32)
    (len : BitVec 64) (o : IonIoctlOutcome) :
    BufEffect o.alloc.dmabuf k ((ionIoctl ionIocAlloc pid cmd len o).final k) ∧
      ((ionIoctl ionIocAlloc pid cmd len o).final k).Balanced ∧
      ((ionIoctl ionIocAlloc pid cmd len o).final k).tables = k.tables := by
  by_cases hrefused : o.copiedIn = false ∨ cmd ≠ ionIocAlloc
  · have hsame : (ionIoctl ionIocAlloc pid cmd len o).final k = k := by
      rw [ionIoctl]
      by_cases hin : o.copiedIn = false
      · rw [if_pos hin]
        rfl
      · rw [if_neg hin, if_pos (hrefused.resolve_left hin)]
        rfl
    rw [hsame]
    exact ⟨.refl _ k, hk.balanced, rfl⟩
  · obtain ⟨hin, hcmd⟩ := not_or.mp hrefused
    obtain ⟨heffect, hbal⟩ := ionAlloc_effect hk len o.alloc
    have hrest : (((ionIoctl ionIocAlloc pid cmd len o).final k).core,
        ((ionIoctl ionIocAlloc pid cmd len o).final k).tables) =
          (((ionAlloc len o.alloc).final k).core, ((ionAlloc len o.alloc).final k).tables) := by
      rw [ionIoctl, if_neg hin, if_neg hcmd]
      exact Within.final_bind (R := .frame fun k : KState ↦ (k.core, k.tables)) (fun dmabuf ↦
        .ite (.pure _) ((core_dmaBufFd pid dmabuf o.fd).bind fun fd ↦
          .ite (.pure _) (.pure _))) k
    obtain ⟨hcore, htables⟩ := Prod.mk.inj hrest
    refine ⟨heffect.congr hcore, balanced_of_core hcore hbal, htables.trans ?_⟩
    exact congrArg Prod.snd ((grants_ionAlloc len o.alloc).final k).1

/-- The descriptors once `fd` leads to `b`. -/
def KState.withFd (k : KState) (pid : Pid) (fd : ℕ) (b : BufId) : Pid → ℕ → Option BufId :=
  Function.update k.fds pid (Function.update (k.fds pid) fd (some b))

/-- `dma_buf_fd` installs the descriptor it finds, or does nothing. -/
theorem dmaBufFd_final (k : KState) (pid : Pid) (dmabuf : Ptr BufId) (o : Option ℕ) :
    (dmaBufFd pid dmabuf o).final k = k ∨
      ∃ b fd, dmabuf = .obj b ∧ (k.bufs b).isSome ∧ o = some fd ∧ k.fds pid fd = none ∧
        (dmaBufFd pid dmabuf o).final k = { k with fds := k.withFd pid fd b } := by
  cases dmabuf with
  | null => exact .inl rfl
  | err e => exact .inl rfl
  | obj b =>
    cases hbuf : k.bufs b with
    | none =>
      refine .inl (final_of_wp (P := (· = k)) ?_)
      simp [dmaBufFd, loadBuf, hbuf]
    | some buf =>
      by_cases hfd : FdOk k pid o
      · obtain ⟨fd, rfl, hfree⟩ := hfd
        refine .inr ⟨b, fd, rfl, by rw [hbuf]; rfl, rfl, hfree, ?_⟩
        exact final_of_wp (P := (· = { k with fds := k.withFd pid fd b }))
          ((wp_dmaBufFd_of_ok hbuf hfree).mpr rfl)
      · exact .inl (final_of_wp (P := (· = k)) ((wp_dmaBufFd_of_not_ok hbuf hfd).mpr rfl))

/-- The descriptors stay, or a new buffer has got one. -/
def NewFd (pid : Pid) (o : Option ℕ) (dmabuf : Option BufId) (k k' : KState) : Prop :=
  k'.fds = k.fds ∨ ∃ fd b, o = some fd ∧ dmabuf = some b ∧ k.bufs b = none ∧ (k'.bufs b).isSome ∧
    k.fds pid fd = none ∧ k'.fds = k.withFd pid fd b

/-- **The descriptor of `ion_ioctl`** is that of its buffer. -/
theorem ionIoctl_fds (k : KState) (ionIocAlloc : BitVec 32) (pid : Pid) (cmd : BitVec 32)
    (len : BitVec 64) (o : IonIoctlOutcome) : NewFd pid o.fd o.alloc.dmabuf k
      ((ionIoctl ionIocAlloc pid cmd len o).final k) := by
  refine final_of_wp ?_
  rw [ionIoctl]
  split
  · exact .inl rfl
  split
  · exact .inl rfl
  rw [wp_bind]
  refine wp_mono (wp_ionAlloc_ends k len o.alloc) (fun dmabuf k₁ hends ↦ ?_) fun e k₁ hfault ↦ ?_
  swap
  · rw [hfault.2.2.2]
    exact .inl rfl
  cases hends with
  | failed he _ h =>
    have hfds : k₁.fds = k.fds := congrArg (fun r ↦ r.2.2.2.2.1) h.sameResources.rest
    simp only [Ptr.isNull_err, Bool.false_eq_true, ↓reduceIte, dmaBufFd, wp_bind, wp_throw]
    exact .inl hfds
  | @allocated a b _ hok ha hb h =>
    simp only [Ptr.isNull_obj, Bool.false_eq_true, ↓reduceIte, wp_bind]
    by_cases hfd : FdOk k₁ pid o.fd
    · obtain ⟨fd, hofd, hfree⟩ := hfd
      rw [hofd, wp_dmaBufFd_of_ok h.bufs_self hfree]
      rw [h.fds] at hfree ⊢
      have hnew : (k₁.bufs b).isSome := by rw [h.bufs_self]; rfl
      split <;> exact .inr ⟨fd, b, rfl, hb, h.buf_free, hnew, hfree, rfl⟩
    · rw [wp_dmaBufFd_of_not_ok h.bufs_self hfd]
      split <;> exact .inl h.fds

end

/-! ## The page exporter -/

section

variable {k : KState}

/-- What the page exporter puts into a page is not seen by any buffer there was. -/
theorem balanced_exporterAllocPage (o : PageOutcome) :
    Preserves KState.Balanced (exporterAllocPage o) := by
  refine (preserves_allocPage o.page).bind fun page ↦ ?_
  cases page with
  | none => exact .pure _
  | some p =>
    refine (balanced_of_counts (counts_dmaBufExport _ _)).bind fun dmabuf ↦ .ite ?_ ?_
    · exact (preserves_putPage _).bind fun _ ↦ .pure _
    · exact .bind (balanced_of_counts (.modify _ fun _ ↦ rfl)) fun _ ↦ .pure dmabuf

theorem owned_exporterAllocPage (o : PageOutcome) :
    Keeps KState.owned (exporterAllocPage o) := by
  refine .bind (fun k ↦ ?_) fun page ↦ ?_
  · exact wp_mono (grants_allocPage o.page k) (fun _ _ h ↦ h.1) fun _ _ h ↦ h.1
  cases page with
  | none => exact .pure _
  | some p =>
    refine .bind (fun k ↦ ?_) fun dmabuf ↦ .ite (.bind (fun k ↦ ?_) fun _ ↦ .pure _) ?_
    · exact wp_mono (grants_dmaBufExport _ _ k) (fun _ _ h ↦ h.1) fun _ _ h ↦ h.1
    · exact wp_mono (grants_putPage _ k) (fun _ _ h ↦ h.1) fun _ _ h ↦ h.1
    · exact .bind (.modify _ fun _ ↦ rfl) fun _ ↦ .pure _

/-- **`exporter_alloc_page`** adds a buffer of one page, or leaves the buffers as they are. -/
theorem exporterAllocPage_effect (hk : Apart k) (o : PageOutcome) :
    BufEffect o.dmabuf k ((exporterAllocPage o).final k) := by
  refine final_of_wp ?_
  rw [exporterAllocPage, wp_bind]
  by_cases hpage : ∃ g, o.page = some g ∧ k.Free g.page
  · obtain ⟨g, hg, hfree⟩ := hpage
    rw [hg, wp_allocPage_of_free hfree]
    have hram : ∀ p ∈ k.pages, (k.grant g).ram p = k.ram p := by
      intro p hp
      refine Function.update_of_ne ?_ ..
      rintro rfl
      exact hfree.1 hp
    by_cases hbuf : ∃ b, o.dmabuf = some b ∧ k.bufs b = none
    · obtain ⟨b, hb, hbfree⟩ := hbuf
      simp only [wp_bind]
      rw [hb, wp_dmaBufExport_of_free (k := k.grant g) hbfree]
      refine .new b ⟨.page, 4096, .page g.page, []⟩ [g.page] rfl hbfree (Function.update_self ..)
        (.page rfl rfl (Finset.mem_insert_self ..) hfree.2)
        ⟨fun b' hb' ↦ Function.update_of_ne hb' .., fun b' buf' ps _ _ h ↦ ?_⟩ (fun p hp ↦ ?_)
        (fun b' buf' hbuf' ↦ ?_) (fun p hp ↦ ?_) fun p hp ↦ ?_
      · exact h.transfer (fun _ _ _ hd ↦ hd) fun p hp ↦ Finset.mem_insert_of_mem (h.inUse hp).1
      · exact List.mem_singleton.mp hp ▸ hfree.1
      · intro hpriv
        obtain ⟨ps, hps⟩ := hk.live b' buf' hbuf'
        cases hps with
        | ion _ hps =>
          obtain ⟨a, -, hpriv', -⟩ := hps.data
          exact absurd (hpriv'.symm.trans hpriv) (by simp)
        | page _ hpriv' hin _ =>
          obtain rfl := Priv.page.inj (hpriv'.symm.trans hpriv)
          exact hfree.1 hin
      · exact (mem_grant_pages.mp hp).imp (fun h ↦ List.mem_singleton.mpr h) id
      · refine (Function.update_of_ne ?_ ..).trans (hram p hp)
        rintro rfl
        exact hfree.1 hp
    · simp only [wp_bind]
      rw [wp_dmaBufExport_of_not_free (k := k.grant g) fun b hb hk ↦ hbuf ⟨b, hb, hk⟩]
      have hback : ((k.grant g).put g.page).pages = k.pages := by
        refine Finset.ext fun p ↦ ?_
        rw [mem_put_pages, mem_grant_pages]
        refine ⟨fun h ↦ h.2.resolve_left h.1, fun hp ↦ ⟨?_, .inr hp⟩⟩
        rintro rfl
        exact hfree.1 hp
      simp only [Ptr.isErr_err, ↓reduceIte, wp_bind]
      rw [wp_putPage (Finset.mem_insert_self ..)]
      exact .same rfl (fun b buf ps _ h ↦ h.transfer (fun _ _ _ hd ↦ hd) fun p hp ↦
        hback.symm ▸ (h.inUse hp).1) hback hram
  · rw [wp_allocPage_of_not_free fun g hg hk ↦ hpage ⟨g, hg, hk⟩]
    exact .refl _ k

/-- **`exporter_ioctl`** leaves the buffers and the page tables as they are. -/
theorem exporterIoctl_effect (dmabuf : Ptr BufId) (pid : Pid) (fd : Option ℕ) (copiedOut : Bool) :
    Keeps (fun k ↦ (k.core, k.tables)) (exporterIoctl dmabuf pid fd copiedOut) :=
  (core_dmaBufFd pid dmabuf fd).bind fun _ ↦ .ite (.pure _) (.pure _)

/-- It installs a descriptor and does nothing else. -/
theorem exporterIoctl_final (dmabuf : Ptr BufId) (pid : Pid) (fd : Option ℕ) (copiedOut : Bool)
    (k : KState) : (exporterIoctl dmabuf pid fd copiedOut).final k =
      (dmaBufFd pid dmabuf fd).final k :=
  Within.final_bind (R := .frame fun k : KState ↦ k) (fun _ ↦ .ite (.pure _) (.pure _)) k

end

/-! ## Releasing a buffer -/

section

variable {k k' : KState} {b : BufId} {buf : Buf} {ps : List Page}

/-- The pages of the other buffers are others. -/
theorem Apart.keepsRest_of_put (hk : Apart k) (hbuf : k.bufs b = some buf) (hps : k.Has buf ps)
    (hpages : ∀ p, p ∈ k.pages → p ∉ ps → p ∈ k'.pages) (hbufs : k'.bufs = k.bufs)
    (hheap : ∀ a d, buf.priv ≠ .data (.addr a) → k.heap a = some (.ionData d) →
      k'.heap a = some (.ionData d)) : KeepsRest k b (k'.dropBuf b) where
  bufs b' hb := (Function.update_of_ne hb ..).trans (congrFun hbufs b')
  has b' buf' qs hb hbuf' hqs := by
    refine hqs.transfer (fun a d hpriv hd ↦ ?_) fun p hp ↦ ?_
    · exact hheap a d (fun hpriv' ↦ hb (hk.priv_inj b' b buf' buf hbuf' hbuf
        (hpriv.trans hpriv'.symm))) hd
    · refine hpages p (hqs.inUse hp).1 fun hp' ↦ ?_
      obtain ⟨i, hi⟩ := List.mem_iff_getElem?.mp hp
      obtain ⟨j, hj⟩ := List.mem_iff_getElem?.mp hp'
      exact hb (congrArg Prod.fst (hk.frame_inj (b', i) (b, j) p
        ((frame_of_has hbuf' hqs i).trans hi) ((frame_of_has hbuf hps j).trans hj)))

/-- **The end of a buffer**: it is gone, and nothing else about buffers has changed. -/
theorem dmaBufRelease_effect (hk : Apart k) (b : BufId) :
    LosesBuf k b ((dmaBufRelease b).final k) ∧ ((dmaBufRelease b).final k).Balanced ∧
      ((dmaBufRelease b).final k).owned = k.owned := by
  cases hbuf : k.bufs b with
  | none =>
    have hsame : (dmaBufRelease b).final k = k := by
      refine final_of_wp (P := (· = k)) ?_
      simp [dmaBufRelease, loadBuf, hbuf]
    rw [hsame]
    have hgone : ∀ p ∈ k.pages, p ∈ k.pages ∧ ∀ i, k.frame (b, i) ≠ some p :=
      fun p hp ↦ ⟨hp, fun i ↦ by rw [frame_of_none hbuf]; simp⟩
    exact ⟨⟨hbuf, ⟨fun _ _ ↦ rfl, fun _ _ _ _ _ h ↦ h⟩, rfl, hgone⟩, hk.balanced, rfl⟩
  | some buf =>
    obtain ⟨ps, hps⟩ := hk.live b buf hbuf
    refine final_of_wp (P := fun k' ↦ LosesBuf k b k' ∧ k'.Balanced ∧ k'.owned = k.owned) ?_
    rw [dmaBufRelease, wp_bind, wp_loadBuf hbuf, wp_bind]
    have hhas := hps
    have hframe : ∀ p, p ∉ ps → ∀ i, k.frame (b, i) ≠ some p := fun p hp i hi ↦
      hp (List.mem_of_getElem? ((frame_of_has hbuf hps i).symm.trans hi))
    cases hps with
    | ion hops h =>
      obtain ⟨a, d, hpriv, hd, -⟩ := h.data
      rw [hops]
      refine wp_imp ((grants_ionRelease buf).and_wp (wp_ionRelease h hpriv)) ?_
      rintro - k' ⟨⟨howned, hgrants⟩, hrel⟩
      have hram : k'.ram = k.ram := funext fun p ↦ (hgrants p).2 (congrFun hrel.gets p)
      refine ⟨⟨Function.update_self .., ?_, hram, fun p hp ↦ ?_⟩,
        .congr (k := k') rfl (balanced_released hk.balanced h hrel), howned⟩
      swap
      · obtain ⟨hin, hnot⟩ := (hrel.mem_pages p).mp hp
        exact ⟨hin, hframe p hnot⟩
      refine hk.keepsRest_of_put hbuf hhas (fun p hp hne ↦ (hrel.mem_pages p).mpr ⟨hp, hne⟩)
        (congrArg (fun r ↦ r.2.2.2.1) hrel.rest) fun a' d' hne hd' ↦ ?_
      have haa : a' ≠ a := by
        rintro rfl
        exact hne hpriv
      rw [hrel.heap, Function.update_of_ne haa]
      exact hd'
    | @page p hops hpriv hin hlt =>
      have hput : buf.ops.release buf = putPage (.page p) := by
        rw [hops]
        exact congrArg putPage (by rw [pageOf, hpriv])
      rw [hput, wp_putPage hin]
      refine ⟨⟨Function.update_self .., ?_, rfl, fun q hq ↦ ?_⟩, balanced_put hk.balanced hin, rfl⟩
      swap
      · obtain ⟨hne, hin'⟩ := mem_put_pages.mp hq
        exact ⟨hin', hframe q fun hmem ↦ hne (List.mem_singleton.mp hmem)⟩
      refine hk.keepsRest_of_put hbuf hhas (fun q hq hne ↦ ?_) rfl fun _ _ _ hd ↦ hd
      exact mem_put_pages.mpr ⟨fun heq ↦ hne (heq ▸ List.mem_singleton_self _), hq⟩

end

/-! ## Mapping a buffer -/

/-- The core lets the area through: it lies inside the buffer. -/
def KState.admits (k : KState) (b : BufId) (vma : Vma) : Bool :=
  (k.bufs b).any fun buf ↦ vma.vmPgoff + vma.pages ≤ buf.size.toNat / pageSize

/-- The round in which an address is mapped, if there is one. -/
def roundOf (vma : Vma) (base : ℕ) : ℕ := (base + (2 ^ 64 - vma.vmStart)) % 2 ^ 64 / pageSize

section

variable {vma : Vma} {ps : List Page} {mem : ℕ → Bool} {pt : PageTable} {i n base : ℕ}

theorem roundAddr_roundOf (hbase : pageSize ∣ base) (hlt : base < 2 ^ 64) :
    roundAddr vma (roundOf vma base) = base := by
  have hstart := Nat.lt_trans vma.start_lt_end vma.end_lt
  obtain ⟨s, hs⟩ := vma.start_aligned
  obtain ⟨t, ht⟩ := hbase
  simp only [roundAddr, roundOf, pageSize] at *
  omega

theorem roundOf_roundAddr (hi : i < 2 ^ 31) : roundOf vma (roundAddr vma i) = i := by
  have hstart := Nat.lt_trans vma.start_lt_end vma.end_lt
  obtain ⟨s, hs⟩ := vma.start_aligned
  simp only [roundAddr, roundOf, pageSize] at *
  omega

theorem pageSize_dvd_roundAddr (vma : Vma) (i : ℕ) : pageSize ∣ roundAddr vma i := by
  obtain ⟨s, hs⟩ := vma.start_aligned
  simp only [roundAddr, hs, pageSize]
  omega

/-- A call that maps its page says so. -/
theorem remap_eq_zero_of_maps (hi : i < 2 ^ 31) (h : Maps vma mem i) (p : Page) (pt : PageTable) :
    (remapPfnRange vma (roundAddr vma i) p pageSize (mem i) pt).1 = 0 := by
  rw [remapPfnRange, if_neg, if_pos h.1]
  rintro ⟨hcow, hpart⟩
  exact hpart ((whole_area_iff hi).mpr (h.2 hcow))

/-- The entry of an address that is mapped in no round. -/
theorem afterRounds_pte_of_ne (hn : n ≤ 2 ^ 31)
    (h : ∀ j < n, Maps vma mem j → roundAddr vma j ≠ base) :
    (afterRounds vma ps mem pt n).pte base = pt.pte base := by
  induction n with
  | zero => rfl
  | succ n ih =>
    have hprev := ih (by omega) fun j hj ↦ h j (Nat.lt_succ_of_lt hj)
    rw [afterRounds]
    by_cases hmaps : Maps vma mem n
    · have hne := h n (Nat.lt_succ_self n) hmaps
      rw [remap_of_maps (by omega) hmaps, PageTable.install_pte_of_ne _ _ (Ne.symm hne), hprev]
    · rw [remap_of_not_maps (by omega) hmaps, hprev]

instance (vma : Vma) (mem : ℕ → Bool) (i : ℕ) : Decidable (Maps vma mem i) :=
  inferInstanceAs (Decidable (_ ∧ _))

/-- **The page table after the loop**: an address shows the page of its round, if that round maps
it, and what it showed before otherwise. -/
theorem afterRounds_pte_eq (hlen : ps.length < 2 ^ 31) (hvalid : ∀ p ∈ ps, p < maxPfn)
    (hbase : pageSize ∣ base) :
    (afterRounds vma ps mem pt ps.length).pte base =
      (if base < 2 ^ 64 ∧ Maps vma mem (roundOf vma base) then ps[roundOf vma base]?
        else none).or (pt.pte base) := by
  by_cases h : ∃ j < ps.length, Maps vma mem j ∧ roundAddr vma j = base
  · obtain ⟨j, hj, hmaps, rfl⟩ := h
    have hp := hvalid _ (List.getElem_mem hj)
    have hlt : roundAddr vma j < 2 ^ 64 := Nat.mod_lt _ (by decide)
    rw [roundOf_roundAddr (by omega), if_pos ⟨hlt, hmaps⟩,
      afterRounds_pte (Nat.le_of_lt hlen) hj hmaps, List.getD_eq_getElem?_getD,
      List.getElem?_eq_getElem hj, Option.getD_some, Nat.mod_eq_of_lt (Nat.lt_trans hp (by decide))]
    rfl
  · rw [afterRounds_pte_of_ne (Nat.le_of_lt hlen) fun j hj hmaps heq ↦ h ⟨j, hj, hmaps, heq⟩]
    split
    · rename_i hmaps
      rw [List.getElem?_eq_none ?_]
      · rfl
      · by_contra hlt
        exact h ⟨_, Nat.not_le.mp hlt, hmaps.2, roundAddr_roundOf hbase hmaps.1⟩
    · rfl

end

section

variable {k : KState} {b : BufId} {buf : Buf} {ps : List Page} {vma : Vma} {mem : ℕ → Bool}

/-- What `exporter_mmap` and `ion_mmap` do to the page table is the same loop. -/
theorem mmap_final (h : k.Has buf ps) (pid : Pid) (vma : Vma) (mem : ℕ → Bool) :
    wp (buf.ops.mmap buf pid vma mem) (fun r k' ↦
        k' = k.setTable pid (afterRounds vma ps mem (k.tables pid) ps.length) ∧
          (r = 0 ∨ ∀ i < ps.length, ¬ Maps vma mem i)) (fun _ _ ↦ False) k := by
  cases h with
  | ion hops h =>
    rw [hops]
    exact (wp_of_ok (ionMmap_eq h pid vma mem)).mpr ⟨rfl, .inl rfl⟩
  | @page p hops hpriv _ _ =>
    have hpage : pageOf buf = .page p := by rw [pageOf, hpriv]
    have hround : afterRounds vma [p] mem (k.tables pid) 1 =
        (remapPfnRange vma vma.vmStart p pageSize (mem 0) (k.tables pid)).2 := by
      rw [afterRounds, roundAddr_zero]
      rfl
    rw [hops]
    simp only [Ops.mmap, exporterMmap, hpage, pageToPfn, remapPfn, wp_bind, wp_pure, wp_get, wp_set,
      List.length_singleton, hround, true_and]
    by_cases hmaps : Maps vma mem 0
    · have hzero := remap_eq_zero_of_maps (by decide) hmaps p (k.tables pid)
      rw [roundAddr_zero] at hzero
      exact .inl hzero
    · refine .inr fun i hi ↦ ?_
      obtain rfl : i = 0 := by omega
      exact hmaps

/-- The page of a buffer that is mapped at an address, by its number. -/
def KState.shown (k : KState) (b : BufId) (vma : Vma) (mem : ℕ → Bool) (base : ℕ) : Option ℕ :=
  let i := roundOf vma base
  if k.admits b vma = true ∧ base < 2 ^ 64 ∧ Maps vma mem i ∧ (k.frame (b, i)).isSome then some i
  else none

theorem isSome_frame_of_shown {base i : ℕ} (h : k.shown b vma mem base = some i) :
    (k.frame (b, i)).isSome := by
  rw [KState.shown] at h
  split at h
  · rename_i hall
    exact Option.some_inj.mp h ▸ hall.2.2.2
  · cases h

theorem shown_of_not_admits (h : k.admits b vma = false) (base : ℕ) :
    k.shown b vma mem base = none := by
  rw [KState.shown, if_neg]
  rw [h]
  exact fun hadm ↦ absurd hadm.1 (by decide)

theorem shown_bind (hbuf : k.bufs b = some buf) (h : k.Has buf ps) (hadm : k.admits b vma = true)
    (base : ℕ) : ((k.shown b vma mem base).bind fun i ↦ k.frame (b, i)) =
      if base < 2 ^ 64 ∧ Maps vma mem (roundOf vma base) then ps[roundOf vma base]? else none := by
  rw [KState.shown, frame_of_has hbuf h]
  simp only [hadm, true_and]
  by_cases hmaps : base < 2 ^ 64 ∧ Maps vma mem (roundOf vma base)
  · rw [if_pos hmaps]
    cases hp : ps[roundOf vma base]? with
    | none => simp
    | some p =>
      rw [if_pos ⟨hmaps.1, hmaps.2, rfl⟩, Option.bind_some, frame_of_has hbuf h, hp]
  · rw [if_neg hmaps, if_neg fun hall ↦ hmaps ⟨hall.1, hall.2.1⟩]
    rfl

/-- The check of the core, and the exporter. -/
theorem wp_dmaBufMmap (hbuf : k.bufs b = some buf) (h : k.Has buf ps) (pid : Pid) (vma : Vma)
    (mem : ℕ → Bool) :
    wp (dmaBufMmap b pid vma mem) (fun r k' ↦
        if k.admits b vma = true then
          k' = k.setTable pid (afterRounds vma ps mem (k.tables pid) ps.length) ∧
            (r = 0 ∨ ∀ i < ps.length, ¬ Maps vma mem i)
        else k' = k) (fun _ _ ↦ False) k := by
  have hadm : k.admits b vma = true ↔ vma.vmPgoff + vma.pages ≤ buf.size.toNat / pageSize := by
    rw [KState.admits, hbuf]
    exact decide_eq_true_iff
  rw [dmaBufMmap, wp_bind, wp_loadBuf hbuf]
  split
  · rename_i hlt
    rw [wp_pure, if_neg fun hin ↦ absurd (hadm.mp hin) (Nat.not_le.mpr hlt)]
  · rename_i hle
    simp only [if_pos (hadm.mpr (Nat.not_lt.mp hle))]
    exact mmap_final h pid vma mem

theorem afterRounds_of_not_maps (hlen : ps.length < 2 ^ 31)
    (h : ∀ i < ps.length, ¬ Maps vma mem i) (pt : PageTable) :
    afterRounds vma ps mem pt ps.length = pt := by
  have hround : ∀ n ≤ ps.length, afterRounds vma ps mem pt n = pt := by
    intro n hn
    induction n with
    | zero => rfl
    | succ n ih => rw [afterRounds, remap_of_not_maps (by omega) (h n hn), ih (Nat.le_of_lt hn)]
  exact hround _ (Nat.le_refl _)

/-- **Mapping a buffer** writes the page table of the process and nothing else: the addresses of
the rounds that map their page show the pages of the buffer.  Where it does not say so, nothing has
changed. -/
theorem dmaBufMmap_final (hk : Apart k) (b : BufId) (pid : Pid) (vma : Vma) (mem : ℕ → Bool) :
    ∃ pt, (dmaBufMmap b pid vma mem).final k = k.setTable pid pt ∧
      ((dmaBufMmap b pid vma mem).result k = some 0 ∨ pt = k.tables pid) ∧
      (∀ base, pageSize ∣ base → pt.pte base =
        ((k.shown b vma mem base).bind fun i ↦ k.frame (b, i)).or ((k.tables pid).pte base)) ∧
      ∀ a, ¬ pageSize ∣ a → pt.pte a = (k.tables pid).pte a := by
  cases hbuf : k.bufs b with
  | none =>
    have hadm : k.admits b vma = false := by rw [KState.admits, hbuf, Option.any_none]
    refine ⟨k.tables pid, ?_, .inr rfl, fun base _ ↦ ?_, fun _ _ ↦ rfl⟩
    · rw [KState.setTable_self]
      refine final_of_wp (P := (· = k)) ?_
      simp [dmaBufMmap, loadBuf, hbuf]
    · rw [shown_of_not_admits hadm]
      rfl
  | some buf =>
    obtain ⟨ps, hps⟩ := hk.live b buf hbuf
    have hwp := wp_dmaBufMmap hbuf hps pid vma mem
    obtain ⟨r, hr⟩ := Option.isSome_iff_exists.mp (result_isSome_of_wp hwp)
    have hend := result_of_wp hwp hr
    rw [hr]
    generalize (dmaBufMmap b pid vma mem).final k = k' at hend ⊢
    by_cases hadm : k.admits b vma = true
    · rw [if_pos hadm] at hend
      obtain ⟨rfl, hzero⟩ := hend
      refine ⟨_, rfl, hzero.imp (congrArg some) fun hnot ↦ ?_, fun base hbase ↦ ?_, fun a ha ↦ ?_⟩
      · exact afterRounds_of_not_maps hps.length_lt hnot _
      · rw [shown_bind hbuf hps hadm]
        exact afterRounds_pte_eq hps.length_lt (fun p hp ↦ (hps.inUse hp).2) hbase
      · exact afterRounds_pte_of_ne (Nat.le_of_lt hps.length_lt) fun j _ _ heq ↦
          ha (heq ▸ pageSize_dvd_roundAddr vma j)
    · rw [if_neg hadm] at hend
      subst hend
      refine ⟨_, (KState.setTable_self ..).symm, .inr rfl, fun base _ ↦ ?_, fun _ _ ↦ rfl⟩
      rw [shown_of_not_admits (Bool.eq_false_iff.mpr hadm)]
      rfl

end

end DmaBuf
