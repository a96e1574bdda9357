import SampleDrivers.DmaBuf.UserMemory

/-!
# Whether stale kernel data reaches the processes

`alloc_page` hands out pages as their last user left them, and neither exporter clears them.  Two
runs with the same operations and the same pages handed out may therefore show the processes
different bytes.

* `UserOp.forget` — an operation without what the pages handed out contained.
* `NoStaleData` — what was read does not depend on what the pages contained.
* `World.Rel B` — two worlds that differ only in stale bytes, and there in the way `B` says.
* `next_rel` — every operation keeps the worlds so: no kernel function of the model looks at the
  bytes of a page (`alike_ionAlloc` and the like).
* `noStaleData_iff` — what was read is independent of what the pages contained exactly if every
  byte that was read had been written since its page was handed out.
-/

set_option autoImplicit false

namespace DmaBuf

open Kernel Prog

/-! ## Operations up to the contents of pages -/

/-- Change the bytes a page contains. -/
def Grant.refill (f : UInt8 → UInt8) (g : Grant) : Grant :=
  { g with content := fun off ↦ f (g.content off) }

/-- Change the bytes of all pages found. -/
def AllocOutcome.refill (f : UInt8 → UInt8) (o : AllocOutcome) : AllocOutcome :=
  { o with pages := fun i ↦ (o.pages i).map (Grant.refill f) }

/-- The same page, with contents related by `B` byte by byte. -/
structure Grant.Rel (B : UInt8 → UInt8 → Prop) (g g' : Grant) : Prop where
  page : g'.page = g.page
  content : ∀ off, B (g.content off) (g'.content off)

theorem Grant.rel_refill (f : UInt8 → UInt8) (o : Option Grant) :
    Option.Rel (Grant.Rel fun c c' ↦ c' = f c) o (o.map (Grant.refill f)) := by
  cases o with
  | none => exact .none
  | some g => exact .some ⟨rfl, fun _ ↦ rfl⟩

theorem Grant.map_refill_const (f : UInt8 → UInt8) (c : UInt8) (o : Option Grant) :
    (o.map (Grant.refill f)).map (Grant.refill fun _ ↦ c) = o.map (Grant.refill fun _ ↦ c) := by
  rw [Option.map_map]
  rfl

/-- Pages that are the same but for their contents. -/
theorem Grant.rel_of_refill {f : UInt8 → UInt8} {o o' : Option Grant}
    (h : o'.map (Grant.refill f) = o.map (Grant.refill f)) :
    Option.Rel (Grant.Rel fun _ _ ↦ True) o o' := by
  cases o with
  | none =>
    rw [Option.map_none, Option.map_eq_none_iff] at h
    subst h
    exact .none
  | some g =>
    obtain ⟨g', rfl, hg⟩ := Option.map_eq_some_iff.mp h
    have hpage : (g'.refill f).page = (g.refill f).page := congrArg Grant.page hg
    exact .some ⟨hpage, fun _ ↦ trivial⟩

/-! ## Kernels that differ in stale bytes -/

section

variable {B : UInt8 → UInt8 → Prop}

/-- Equal bytes, or stale ones related by `B`. -/
structure Byte.Rel (B : UInt8 → UInt8 → Prop) (b b' : Byte) : Prop where
  stale : b'.stale = b.stale
  written : b.stale = false → b'.val = b.val
  left : b.stale = true → B b.val b'.val

theorem Byte.rel_written (val : UInt8) : Byte.Rel B ⟨val, false⟩ ⟨val, false⟩ :=
  ⟨rfl, fun _ ↦ rfl, fun h ↦ absurd h (by simp)⟩

/-- The kernels differ only in stale bytes of pages, which are related by `B`. -/
def KState.Rel (B : UInt8 → UInt8 → Prop) (k k' : KState) : Prop :=
  ∃ ram : Page → ℕ → Byte, (∀ p off, Byte.Rel B (k.ram p off) (ram p off)) ∧
    k' = { k with ram := ram }

/-- What is done without touching pages is done to both kernels alike. -/
theorem KState.Rel.congr {k k' : KState} (h : k.Rel B k') (f : KState → KState)
    (hf : ∀ k ram, f { k with ram := ram } = { f k with ram := ram }) : (f k).Rel B (f k') := by
  obtain ⟨ram, hram, rfl⟩ := h
  have hkeep : f k = { f k with ram := k.ram } := hf k k.ram
  refine ⟨ram, ?_, hf k ram⟩
  rw [hkeep]
  exact hram

/-! ## No kernel function looks at the bytes of a page -/

theorem alike_kmalloc (bytes : ℕ) (obj : HeapObj) (o : Option Addr) :
    Alike (KState.Rel B) (kmalloc bytes obj o) (kmalloc bytes obj o) := by
  rintro k _ ⟨ram, hram, rfl⟩
  by_cases hb : bytes = 0
  · rw [hb, wp_kmalloc_zero, wp_kmalloc_zero]
    exact ⟨rfl, ram, hram, rfl⟩
  by_cases hfree : ∃ a, o = some a ∧ k.heap a = none
  · obtain ⟨a, rfl, ha⟩ := hfree
    rw [wp_kmalloc_of_free hb ha, wp_kmalloc_of_free hb (by exact ha)]
    exact ⟨rfl, ram, hram, rfl⟩
  · have hused : ∀ a, o = some a → k.heap a ≠ none := fun a ha hk ↦ hfree ⟨a, ha, hk⟩
    rw [wp_kmalloc_of_not_free hb hused, wp_kmalloc_of_not_free hb (by exact hused)]
    exact ⟨rfl, ram, hram, rfl⟩

theorem alike_kfree (kind : HeapKind) (p : KPtr) :
    Alike (KState.Rel B) (kfree kind p) (kfree kind p) := by
  cases p with
  | null => exact .pure _
  | zeroSize => exact .pure _
  | addr a =>
    rintro k _ ⟨ram, hram, rfl⟩
    simp only [kfree, wp_bind, wp_get]
    split
    · exact ⟨trivial, ram, hram, rfl⟩
    · exact ⟨rfl, ram, hram, rfl⟩

theorem alike_loadIonData (data : KPtr) :
    Alike (KState.Rel B) (loadIonData data) (loadIonData data) := by
  cases data with
  | null => exact .throw _
  | zeroSize => exact .throw _
  | addr a =>
    rintro k _ ⟨ram, hram, rfl⟩
    simp only [loadIonData, wp_bind, wp_get]
    split
    · exact ⟨rfl, ram, hram, rfl⟩
    · exact ⟨rfl, ram, hram, rfl⟩

theorem alike_setHeap (a : Addr) (o : Option HeapObj) :
    Alike (KState.Rel B) (modify fun k ↦ k.setHeap a o : KProg PUnit)
      (modify fun k ↦ k.setHeap a o) :=
  .modify fun _ _ h ↦ h.congr (fun k ↦ k.setHeap a o) fun _ _ ↦ rfl

theorem alike_storeNpages (data : KPtr) (npages : BitVec 32) :
    Alike (KState.Rel B) (storeNpages data npages) (storeNpages data npages) := by
  refine (alike_loadIonData data).bind fun d ↦ ?_
  split
  · exact .ite (.throw _) (alike_setHeap _ _)
  · exact .throw _

theorem alike_storePage (data : KPtr) (i : ℕ) (page : Slot) :
    Alike (KState.Rel B) (storePage data i page) (storePage data i page) := by
  refine (alike_loadIonData data).bind fun d ↦ ?_
  split
  · exact .ite (.throw _) (alike_setHeap _ _)
  · exact .throw _

theorem alike_loadNpages (data : KPtr) :
    Alike (KState.Rel B) (loadNpages data) (loadNpages data) := by
  refine (alike_loadIonData data).bind fun d ↦ ?_
  split
  · exact .pure _
  · exact .throw _

theorem alike_loadPage (data : KPtr) (i : ℕ) :
    Alike (KState.Rel B) (loadPage data i) (loadPage data i) :=
  (alike_loadIonData data).bind fun _ ↦ .ite (.throw _) (.pure _)

theorem alike_loadBuf (b : BufId) : Alike (KState.Rel B) (loadBuf b) (loadBuf b) := by
  rintro k _ ⟨ram, hram, rfl⟩
  simp only [loadBuf, wp_bind, wp_get]
  split
  · exact ⟨rfl, ram, hram, rfl⟩
  · exact ⟨rfl, ram, hram, rfl⟩

theorem alike_dmaBufExport (buf : Buf) (o : Option BufId) :
    Alike (KState.Rel B) (dmaBufExport buf o) (dmaBufExport buf o) := by
  rintro k _ ⟨ram, hram, rfl⟩
  by_cases hfree : ∃ b, o = some b ∧ k.bufs b = none
  · obtain ⟨b, rfl, hb⟩ := hfree
    rw [wp_dmaBufExport_of_free hb, wp_dmaBufExport_of_free (by exact hb)]
    exact ⟨rfl, ram, hram, rfl⟩
  · have hused : ∀ b, o = some b → k.bufs b ≠ none := fun b hb hk ↦ hfree ⟨b, hb, hk⟩
    rw [wp_dmaBufExport_of_not_free hused, wp_dmaBufExport_of_not_free (by exact hused)]
    exact ⟨rfl, ram, hram, rfl⟩

theorem alike_dmaBufFd (pid : Pid) (dmabuf : Ptr BufId) (o : Option ℕ) :
    Alike (KState.Rel B) (dmaBufFd pid dmabuf o) (dmaBufFd pid dmabuf o) := by
  cases dmabuf with
  | null => exact .pure _
  | err e => exact .throw _
  | obj b =>
    refine (alike_loadBuf b).bind fun buf ↦ ?_
    rintro k _ ⟨ram, hram, rfl⟩
    cases o with
    | none => exact ⟨rfl, ram, hram, rfl⟩
    | some fd =>
      simp only [wp_bind, wp_get]
      split
      · exact ⟨rfl, ram, hram, rfl⟩
      · exact ⟨rfl, ram, hram, rfl⟩

theorem alike_putPage (s : Slot) : Alike (KState.Rel B) (putPage s) (putPage s) := by
  cases s with
  | garbage => exact .throw _
  | null => exact .throw _
  | page p =>
    rintro k _ ⟨ram, hram, rfl⟩
    simp only [putPage, wp_bind, wp_get]
    split
    · exact ⟨trivial, ram, hram, rfl⟩
    · exact ⟨rfl, ram, hram, rfl⟩

theorem alike_remapPfn (pid : Pid) (vma : Vma) (addr pfn size : ℕ) (mem : Bool) :
    Alike (KState.Rel B) (remapPfn pid vma addr pfn size mem)
      (remapPfn pid vma addr pfn size mem) := by
  rintro k _ ⟨ram, hram, rfl⟩
  exact ⟨rfl, ram, hram, rfl⟩

theorem alike_pageToPfn (s : Slot) : Alike (KState.Rel B) (pageToPfn s) (pageToPfn s) := by
  cases s with
  | garbage => exact .throw _
  | null => exact .throw _
  | page p => exact .pure _

/-- `alloc_page` does not decide by the contents of the page, which become stale bytes. -/
theorem alike_allocPage {o o' : Option Grant} (h : Option.Rel (Grant.Rel B) o o') :
    Alike (KState.Rel B) (allocPage o) (allocPage o') := by
  rintro k _ ⟨ram, hram, rfl⟩
  cases h with
  | none => exact ⟨rfl, ram, hram, rfl⟩
  | @some g g' hg =>
    obtain ⟨page, content⟩ := g
    obtain ⟨page', content'⟩ := g'
    obtain ⟨rfl, hcontent⟩ : page' = page ∧ ∀ off, B (content off) (content' off) :=
      ⟨hg.page, hg.content⟩
    by_cases hfree : k.Free page'
    · rw [wp_allocPage_of_free hfree, wp_allocPage_of_free (by exact hfree)]
      refine ⟨rfl, _, fun p off ↦ ?_, rfl⟩
      by_cases hp : p = page'
      · subst hp
        simp only [KState.grant, Function.update_self]
        exact ⟨rfl, fun hf ↦ absurd hf (by simp), fun _ ↦ hcontent off⟩
      · simp only [KState.grant, Function.update_of_ne hp]
        exact hram p off
    · have hused : ∀ c g, some (Grant.mk page' c) = some g → ¬ k.Free g.page := by
        rintro c _ ⟨⟩
        exact hfree
      rw [wp_allocPage_of_not_free (hused content), wp_allocPage_of_not_free (by exact hused _)]
      exact ⟨rfl, ram, hram, rfl⟩

/-- What the greeting leaves of the page stays stale. -/
theorem alike_sprintf (page : Page) (s : List UInt8) :
    Alike (KState.Rel B) (sprintf page s) (sprintf page s) := by
  refine .modify ?_
  rintro k _ ⟨ram, hram, rfl⟩
  refine ⟨_, fun p off ↦ ?_, rfl⟩
  by_cases hp : p = page
  · subst hp
    simp only [Function.update_self]
    split
    · exact Byte.rel_written _
    · exact hram p off
  · simp only [Function.update_of_ne hp]
    exact hram p off

/-! ## The exporters do the same whatever the pages contain -/

theorem alike_ionAllocErr (data : KPtr) (i : ℕ) :
    Alike (KState.Rel B) (ionAllocErr data i) (ionAllocErr data i) := by
  refine .bind (.whileDown (fun j ↦ ?_) i) fun _ ↦ (alike_kfree _ data).bind fun _ ↦ .pure _
  exact (alike_loadPage data j).bind fun page ↦ alike_putPage page

/-- `ion_alloc` takes the same way. -/
theorem alike_ionAlloc (size : BitVec 64) {data : Option Addr} {dmabuf : Option BufId}
    {pages pages' : ℕ → Option Grant}
    (h : ∀ i, Option.Rel (Grant.Rel B) (pages i) (pages' i)) :
    Alike (KState.Rel B) (ionAlloc size ⟨data, pages, dmabuf⟩)
      (ionAlloc size ⟨data, pages', dmabuf⟩) := by
  have hround : ∀ data i a, Alike (KState.Rel B) (ionAllocRound data pages i a)
      (ionAllocRound data pages' i a) := fun data i _ ↦
    (alike_allocPage (h i)).bind fun page ↦ (alike_storePage data i _).bind fun _ ↦ .pure _
  refine .ite (.pure _) ((alike_kmalloc _ _ data).bind fun p ↦ .ite (.pure _) ?_)
  refine .bind (.forFrom (hround p) _ _ _) fun r ↦ ?_
  refine .ite (alike_ionAllocErr p _) ((alike_storeNpages p _).bind fun _ ↦ ?_)
  exact (alike_dmaBufExport _ dmabuf).bind fun b ↦ .ite (alike_ionAllocErr p _) (.pure _)

theorem alike_ionIoctl (ionIocAlloc : BitVec 32) (pid : Pid) (cmd : BitVec 32) (len : BitVec 64)
    {data : Option Addr} {dmabuf : Option BufId} {pages pages' : ℕ → Option Grant}
    {copiedIn copiedOut : Bool} {fd : Option ℕ}
    (h : ∀ i, Option.Rel (Grant.Rel B) (pages i) (pages' i)) :
    Alike (KState.Rel B)
      (ionIoctl ionIocAlloc pid cmd len ⟨copiedIn, ⟨data, pages, dmabuf⟩, fd, copiedOut⟩)
      (ionIoctl ionIocAlloc pid cmd len ⟨copiedIn, ⟨data, pages', dmabuf⟩, fd, copiedOut⟩) := by
  refine .ite (.pure _) (.ite (.pure _) ((alike_ionAlloc len h).bind fun b ↦ .ite (.pure _) ?_))
  exact (alike_dmaBufFd pid b fd).bind fun _ ↦ .ite (.pure _) (.pure _)

theorem alike_ionRelease (buf : Buf) :
    Alike (KState.Rel B) (ionRelease buf) (ionRelease buf) := by
  refine (alike_loadNpages _).bind fun n ↦ .bind (.forFrom (fun i _ ↦ ?_) _ _ _) fun _ ↦
    alike_kfree _ _
  exact (alike_loadPage _ i).bind fun page ↦ (alike_putPage page).bind fun _ ↦ .pure _

theorem alike_ionMmap (buf : Buf) (pid : Pid) (vma : Vma) (mem : ℕ → Bool) :
    Alike (KState.Rel B) (ionMmap buf pid vma mem) (ionMmap buf pid vma mem) := by
  refine (alike_loadNpages _).bind fun n ↦ .bind (.forFrom (fun i vmStart ↦ ?_) _ _ _) fun _ ↦
    .pure _
  refine (alike_loadPage _ i).bind fun page ↦ (alike_pageToPfn page).bind fun pfn ↦ ?_
  exact (alike_remapPfn pid vma vmStart pfn pageSize (mem i)).bind fun _ ↦ .pure _

theorem alike_exporterAllocPage {page page' : Option Grant} (dmabuf : Option BufId)
    (h : Option.Rel (Grant.Rel B) page page') :
    Alike (KState.Rel B) (exporterAllocPage ⟨page, dmabuf⟩)
      (exporterAllocPage ⟨page', dmabuf⟩) := by
  refine (alike_allocPage h).bind fun p ↦ ?_
  cases p with
  | none => exact .pure _
  | some p =>
    refine (alike_dmaBufExport _ dmabuf).bind fun b ↦ .ite ?_ ?_
    · exact (alike_putPage _).bind fun _ ↦ .pure _
    · exact (alike_sprintf p greeting).bind fun _ ↦ .pure _

theorem alike_exporterIoctl (dmabufExported : Ptr BufId) (pid : Pid) (fd : Option ℕ)
    (copiedOut : Bool) : Alike (KState.Rel B) (exporterIoctl dmabufExported pid fd copiedOut)
      (exporterIoctl dmabufExported pid fd copiedOut) :=
  (alike_dmaBufFd pid dmabufExported fd).bind fun _ ↦ .ite (.pure _) (.pure _)

theorem alike_dmaBufMmap (b : BufId) (pid : Pid) (vma : Vma) (mem : ℕ → Bool) :
    Alike (KState.Rel B) (dmaBufMmap b pid vma mem) (dmaBufMmap b pid vma mem) := by
  refine (alike_loadBuf b).bind fun buf ↦ .ite (.pure _) ?_
  cases buf.ops with
  | page => exact (alike_pageToPfn _).bind fun pfn ↦ alike_remapPfn pid vma _ pfn pageSize _
  | ion => exact alike_ionMmap buf pid vma mem

theorem alike_dmaBufRelease (b : BufId) :
    Alike (KState.Rel B) (dmaBufRelease b) (dmaBufRelease b) := by
  have hrelease : ∀ buf : Buf, Alike (KState.Rel B) (buf.ops.release buf)
      (buf.ops.release buf) := by
    intro buf
    cases buf.ops with
    | page => exact alike_putPage _
    | ion => exact alike_ionRelease buf
  refine (alike_loadBuf b).bind fun buf ↦ (hrelease buf).bind fun _ ↦ .modify fun _ _ h ↦ ?_
  exact h.congr (fun k ↦ { k with bufs := Function.update k.bufs b none }) fun _ _ ↦ rfl

end

namespace UserMemory

/-! ## Runs up to the contents of pages -/

/-- Change the bytes of the pages an operation finds. -/
def UserOp.refill (f : UInt8 → UInt8) : UserOp → UserOp
  | .exporterInit o => .exporterInit { o with page := o.page.map (Grant.refill f) }
  | .ionIoctl pid cmd len o => .ionIoctl pid cmd len { o with alloc := o.alloc.refill f }
  | op => op

/-- An operation without what the pages it finds contain. -/
def UserOp.forget : UserOp → UserOp := UserOp.refill fun _ ↦ 0

/-- What the processes read does not depend on what the pages contained that were handed out: the
same operations, with the same pages handed out, read the same bytes. -/
def NoStaleData (ionIocAlloc : BitVec 32) (ops : List UserOp) : Prop :=
  ∀ ops', ops'.map UserOp.forget = ops.map UserOp.forget →
    reads ionIocAlloc .boot ops' = reads ionIocAlloc .boot ops

/-- The operation does not read a stale byte. -/
def UserOp.ReadsWritten (w : World) : UserOp → Prop
  | .read pid addr => ∀ b, w.byte pid addr = some b → b.stale = false
  | _ => True

/-- Every byte read in the run had been written since its page was handed out. -/
def ReadsWritten (ionIocAlloc : BitVec 32) : World → List UserOp → Prop
  | _, [] => True
  | w, op :: ops => op.ReadsWritten w ∧ ReadsWritten ionIocAlloc (w.next ionIocAlloc op) ops

/-- The operation looks for pages. -/
def UserOp.allocates : UserOp → Bool
  | .exporterInit _ => true
  | .ionIoctl .. => true
  | _ => false

/-- The same operation, finding the same pages with contents related by `B`. -/
inductive UserOp.Rel (B : UInt8 → UInt8 → Prop) : UserOp → UserOp → Prop
  | exporterInit {page page' : Option Grant} {dmabuf : Option BufId}
      (h : Option.Rel (Grant.Rel B) page page') :
      Rel B (.exporterInit ⟨page, dmabuf⟩) (.exporterInit ⟨page', dmabuf⟩)
  | ionIoctl {pid : Pid} {cmd : BitVec 32} {len : BitVec 64} {copiedIn copiedOut : Bool}
      {data : Option Addr} {dmabuf : Option BufId} {fd : Option ℕ}
      {pages pages' : ℕ → Option Grant} (h : ∀ i, Option.Rel (Grant.Rel B) (pages i) (pages' i)) :
      Rel B (.ionIoctl pid cmd len ⟨copiedIn, ⟨data, pages, dmabuf⟩, fd, copiedOut⟩)
        (.ionIoctl pid cmd len ⟨copiedIn, ⟨data, pages', dmabuf⟩, fd, copiedOut⟩)
  | same {op : UserOp} (h : op.allocates = false) : Rel B op op

theorem UserOp.rel_of_forget {op op' : UserOp} (h : op'.forget = op.forget) :
    UserOp.Rel (fun _ _ ↦ True) op op' := by
  cases op with
  | exporterInit o =>
    cases op' with
    | exporterInit o' =>
      obtain ⟨page, dmabuf⟩ := o
      obtain ⟨page', dmabuf'⟩ := o'
      simp only [forget, refill, UserOp.exporterInit.injEq, PageOutcome.mk.injEq] at h
      obtain ⟨hpage, rfl⟩ := h
      exact .exporterInit (Grant.rel_of_refill hpage)
    | _ => cases h
  | ionIoctl pid cmd len o =>
    cases op' with
    | ionIoctl pid' cmd' len' o' =>
      obtain ⟨copiedIn, ⟨data, pages, dmabuf⟩, fd, copiedOut⟩ := o
      obtain ⟨copiedIn', ⟨data', pages', dmabuf'⟩, fd', copiedOut'⟩ := o'
      simp only [forget, refill, AllocOutcome.refill, UserOp.ionIoctl.injEq,
        IonIoctlOutcome.mk.injEq, AllocOutcome.mk.injEq] at h
      obtain ⟨rfl, rfl, rfl, rfl, ⟨rfl, hpages, rfl⟩, rfl, rfl⟩ := h
      exact .ionIoctl fun i ↦ Grant.rel_of_refill (congrFun hpages i)
    | _ => cases h
  | _ =>
    cases op' <;> cases h
    exact .same rfl

theorem UserOp.rel_refill (f : UInt8 → UInt8) (op : UserOp) :
    UserOp.Rel (fun c c' ↦ c' = f c) op (op.refill f) := by
  cases op with
  | exporterInit o => exact .exporterInit (Grant.rel_refill f o.page)
  | ionIoctl pid cmd len o => exact .ionIoctl fun i ↦ Grant.rel_refill f (o.alloc.pages i)
  | _ => exact .same rfl

theorem UserOp.forget_refill (f : UInt8 → UInt8) (op : UserOp) :
    (op.refill f).forget = op.forget := by
  cases op with
  | exporterInit o => simp only [forget, refill, Grant.map_refill_const]
  | ionIoctl pid cmd len o =>
    simp only [forget, refill, AllocOutcome.refill, Grant.map_refill_const]
  | _ => rfl

/-! ## Worlds that differ in stale bytes -/

/-- The worlds differ only in stale bytes, which are related by `B`. -/
structure World.Rel (B : UInt8 → UInt8 → Prop) (w w' : World) : Prop where
  k : w.k.Rel B w'.k
  dmabufExported : w'.dmabufExported = w.dmabufExported
  access : w'.access = w.access
  copies : ∀ pid base, Option.Rel (fun c c' : ℕ → Byte ↦ ∀ off, Byte.Rel B (c off) (c' off))
    (w.copies pid base) (w'.copies pid base)

section

variable {B : UInt8 → UInt8 → Prop} {w w' : World}

theorem World.Rel.tables (h : w.Rel B w') : w'.k.tables = w.k.tables := by
  obtain ⟨ram, -, hk⟩ := h.k
  rw [hk]

theorem World.Rel.mappable (h : w.Rel B w') (pid : Pid) (fd : ℕ) (vma : Vma) (writable : Bool) :
    w'.mappable pid fd vma writable = w.mappable pid fd vma writable := by
  obtain ⟨ram, -, hk⟩ := h.k
  rw [World.mappable, World.mappable, hk]

theorem World.Rel.ram (h : w.Rel B w') (p : Page) (off : ℕ) :
    Byte.Rel B (w.k.ram p off) (w'.k.ram p off) := by
  obtain ⟨ram, hram, hk⟩ := h.k
  rw [hk]
  exact hram p off

theorem World.rel_boot : World.boot.Rel B .boot where
  k := ⟨_, fun _ _ ↦ Byte.rel_written 0, rfl⟩
  dmabufExported := rfl
  access := rfl
  copies _ _ := .none

/-- The byte at an address. -/
theorem World.Rel.byte (h : w.Rel B w') (pid : Pid) (addr : ℕ) :
    Option.Rel (Byte.Rel B) (w.byte pid addr) (w'.byte pid addr) := by
  rw [World.byte, World.byte, h.tables]
  split
  · exact .some (h.ram _ _)
  · have hcopies := h.copies pid (pageBase addr)
    generalize w.copies pid (pageBase addr) = o at hcopies ⊢
    generalize w'.copies pid (pageBase addr) = o' at hcopies ⊢
    cases hcopies with
    | none => exact .none
    | some hc => exact .some (hc _)

theorem World.Rel.call {α : Type} {x y : KProg α} (h : w.Rel B w')
    (hxy : Prog.Alike (KState.Rel B) x y) : (w.call x).Rel B (w'.call y) :=
  ⟨(hxy.final h.k).1, h.dmabufExported, h.access, h.copies⟩

theorem World.Rel.unmap (h : w.Rel B w') (pid : Pid) (start stop : ℕ) :
    (w.unmap pid start stop).Rel B (w'.unmap pid start stop) where
  k := by
    rw [World.unmap, World.unmap, h.tables]
    exact h.k.congr (fun k ↦ k.setTable pid _) fun _ _ ↦ rfl
  dmabufExported := h.dmabufExported
  access := h.access
  copies pid' base := by
    simp only [World.unmap]
    by_cases hp : pid' = pid
    · subst hp
      simp only [Function.update_self]
      split
      · exact .none
      · exact h.copies pid' base
    · simp only [Function.update_of_ne hp]
      exact h.copies pid' base

/-- A byte written is the same in both. -/
theorem Byte.Rel.storeByte {c c' : ℕ → Byte} (h : ∀ off, Byte.Rel B (c off) (c' off)) (off : ℕ)
    (val : UInt8) (i : ℕ) :
    Byte.Rel B (UserMemory.storeByte c off val i) (UserMemory.storeByte c' off val i) := by
  simp only [UserMemory.storeByte]
  by_cases hi : i = off
  · simp only [hi, Function.update_self]
    exact DmaBuf.Byte.rel_written val
  · simp only [Function.update_of_ne hi]
    exact h i

theorem World.Rel.setCopy (h : w.Rel B w') (pid : Pid) (base : ℕ) {c c' : ℕ → Byte}
    (hc : ∀ off, Byte.Rel B (c off) (c' off)) :
    (w.setCopy pid base c).Rel B (w'.setCopy pid base c') where
  k := by
    rw [World.setCopy, World.setCopy, h.tables]
    exact h.k.congr (fun k ↦ k.setTable pid _) fun _ _ ↦ rfl
  dmabufExported := h.dmabufExported
  access := h.access
  copies pid' base' := by
    simp only [World.setCopy]
    by_cases hp : pid' = pid
    · subst hp
      simp only [Function.update_self]
      by_cases hb : base' = base
      · subst hb
        simp only [Function.update_self]
        exact .some hc
      · simp only [Function.update_of_ne hb]
        exact h.copies pid' base'
    · simp only [Function.update_of_ne hp]
      exact h.copies pid' base'

theorem World.Rel.storeRam (h : w.Rel B w') (p : Page) (off : ℕ) (val : UInt8) :
    (w.storeRam p off val).Rel B (w'.storeRam p off val) where
  k := by
    obtain ⟨ram, hram, hk⟩ := h.k
    refine ⟨Function.update ram p (storeByte (ram p) off val), fun q i ↦ ?_, ?_⟩
    · simp only [World.storeRam]
      by_cases hq : q = p
      · subst hq
        simp only [Function.update_self]
        exact Byte.Rel.storeByte (hram q) off val i
      · simp only [Function.update_of_ne hq]
        exact hram q i
    · simp only [World.storeRam, hk]
  dmabufExported := h.dmabufExported
  access := h.access
  copies := h.copies

theorem World.Rel.write (h : w.Rel B w') (pid : Pid) (addr : ℕ) (val : UInt8) :
    (w.write pid addr val).Rel B (w'.write pid addr val) := by
  rw [World.write, World.write, h.tables, h.access]
  split
  · split
    · exact h
    · exact h.storeRam _ _ val
    · exact h.setCopy pid _ fun off ↦ Byte.Rel.storeByte (h.ram _) _ val off
  · have hcopies := h.copies pid (pageBase addr)
    generalize w.copies pid (pageBase addr) = o at hcopies ⊢
    generalize w'.copies pid (pageBase addr) = o' at hcopies ⊢
    cases hcopies with
    | none => exact h
    | some hc => exact h.setCopy pid _ fun off ↦ Byte.Rel.storeByte hc _ val off

theorem World.Rel.setAccess (h : w.Rel B w') (pid : Pid) (vma : Vma) (writable : Bool) :
    (w.setAccess pid vma writable).Rel B (w'.setAccess pid vma writable) where
  k := h.k
  dmabufExported := h.dmabufExported
  access := by rw [World.setAccess, World.setAccess, h.access]
  copies := h.copies

theorem World.Rel.mmap (h : w.Rel B w') (pid : Pid) (fd : ℕ) (vma : Vma) (writable : Bool)
    (mem : ℕ → Bool) :
    (w.mmap pid fd vma writable mem).Rel B (w'.mmap pid fd vma writable mem) := by
  simp only [World.mmap, h.mappable]
  split
  · exact h
  · rename_i b _
    have hmap := alike_dmaBufMmap (B := B) b pid vma mem
    have harea := (h.unmap pid vma.vmStart vma.vmEnd).setAccess pid vma writable
    rw [(hmap.final harea.k).2]
    split
    · exact harea.call hmap
    · exact (harea.call hmap).unmap pid vma.vmStart vma.vmEnd

end

/-! ## Runs that differ in stale bytes -/

section

variable {B : UInt8 → UInt8 → Prop} {w w' : World} {op op' : UserOp} {ops ops' : List UserOp}
  (ionIocAlloc : BitVec 32)

/-- **One operation** keeps the worlds equal up to stale bytes. -/
theorem next_rel (h : w.Rel B w') (hop : op.Rel B op') :
    (w.next ionIocAlloc op).Rel B (w'.next ionIocAlloc op') := by
  cases hop with
  | @exporterInit page page' dmabuf hpage =>
    have halike := alike_exporterAllocPage dmabuf hpage
    have hcall := h.call halike
    have hres := (halike.final h.k).2
    refine ⟨hcall.k, ?_, hcall.access, hcall.copies⟩
    simp only [World.next, hres]
  | ionIoctl hpages => exact h.call (alike_ionIoctl ionIocAlloc _ _ _ hpages)
  | same hsame =>
    cases op with
    | exporterInit o => exact absurd hsame (by simp [UserOp.allocates])
    | ionIoctl pid cmd len o => exact absurd hsame (by simp [UserOp.allocates])
    | exporterIoctl pid fd copiedOut =>
      simp only [World.next, h.dmabufExported]
      exact h.call (alike_exporterIoctl _ pid fd copiedOut)
    | mmap pid fd vma writable mem => exact h.mmap pid fd vma writable mem
    | munmap pid start stop => exact h.unmap pid start stop
    | read pid addr => exact h
    | write pid addr val => exact h.write pid addr val
    | close pid fd =>
      refine ⟨?_, h.dmabufExported, h.access, h.copies⟩
      exact h.k.congr (fun k ↦ { k with
        fds := Function.update k.fds pid (Function.update (k.fds pid) fd none) }) fun _ _ ↦ rfl
    | release b => exact h.call (alike_dmaBufRelease b)

theorem length_observe (hop : op.Rel B op') :
    (w'.observe op').length = (w.observe op).length := by
  cases hop with
  | exporterInit _ => rfl
  | ionIoctl _ => rfl
  | same _ => cases op <;> rfl

/-- An operation that does not read a stale byte reads the same. -/
theorem observe_eq (h : w.Rel B w') (hop : op.Rel B op') (hread : op.ReadsWritten w) :
    w'.observe op' = w.observe op := by
  cases hop with
  | exporterInit _ => rfl
  | ionIoctl _ => rfl
  | same _ =>
    cases op with
    | read pid addr =>
      simp only [World.observe, UserOp.ReadsWritten] at hread ⊢
      have hbyte := h.byte pid addr
      generalize w.byte pid addr = o at hbyte hread ⊢
      generalize w'.byte pid addr = o' at hbyte ⊢
      cases hbyte with
      | none => rfl
      | some hb => rw [Option.map_some, Option.map_some, hb.written (hread _ rfl)]
    | _ => rfl

/-- Where stale bytes differ, an operation that reads the same does not read a stale byte. -/
theorem readsWritten_of_observe_eq (hB : ∀ c c', B c c' → c' ≠ c) (h : w.Rel B w')
    (hop : op.Rel B op') (hread : w'.observe op' = w.observe op) : op.ReadsWritten w := by
  cases hop with
  | exporterInit _ => trivial
  | ionIoctl _ => trivial
  | same _ =>
    cases op with
    | read pid addr =>
      simp only [World.observe, UserOp.ReadsWritten] at hread ⊢
      have hbyte := h.byte pid addr
      generalize w.byte pid addr = o at hbyte hread ⊢
      generalize w'.byte pid addr = o' at hbyte hread
      cases hbyte with
      | none => exact fun b hb ↦ absurd hb (by simp)
      | some hb =>
        rintro _ ⟨⟩
        simp only [Option.map_some, List.cons.injEq, Option.some_inj, and_true] at hread
        by_contra hstale
        exact hB _ _ (hb.left (by simpa using hstale)) hread
    | _ => trivial

theorem reads_eq (hops : List.Forall₂ (UserOp.Rel B) ops ops') (h : w.Rel B w')
    (hread : ReadsWritten ionIocAlloc w ops) :
    reads ionIocAlloc w' ops' = reads ionIocAlloc w ops := by
  induction hops generalizing w w' with
  | nil => rfl
  | cons hop _ ih =>
    rw [reads, reads, observe_eq h hop hread.1, ih (next_rel ionIocAlloc h hop) hread.2]

theorem readsWritten_of_reads_eq (hB : ∀ c c', B c c' → c' ≠ c)
    (hops : List.Forall₂ (UserOp.Rel B) ops ops') (h : w.Rel B w')
    (hread : reads ionIocAlloc w' ops' = reads ionIocAlloc w ops) :
    ReadsWritten ionIocAlloc w ops := by
  induction hops generalizing w w' with
  | nil => trivial
  | cons hop _ ih =>
    obtain ⟨hobserve, hrest⟩ := List.append_inj hread (length_observe hop)
    exact ⟨readsWritten_of_observe_eq hB h hop hobserve, ih (next_rel ionIocAlloc h hop) hrest⟩

end

/-- **What the processes read is independent of what the pages contained that were handed out**,
exactly if every byte they read had been written since. -/
theorem noStaleData_iff (ionIocAlloc : BitVec 32) (ops : List UserOp) :
    NoStaleData ionIocAlloc ops ↔ ReadsWritten ionIocAlloc .boot ops := by
  refine ⟨?_, ?_⟩
  · intro h
    -- Compare with the run in which every byte of every page is one greater.
    have hops : List.Forall₂ (UserOp.Rel fun c c' ↦ c' = c + 1) ops
        (ops.map (UserOp.refill (· + 1))) := by
      rw [List.forall₂_map_right_iff, List.forall₂_same]
      exact fun op _ ↦ op.rel_refill (· + 1)
    refine readsWritten_of_reads_eq ionIocAlloc (fun c c' hc ↦ ?_) hops World.rel_boot (h _ ?_)
    · rw [hc]
      simp
    · rw [List.map_map]
      exact List.map_congr_left fun op _ ↦ op.forget_refill (· + 1)
  · intro h ops' hsame
    have hops : List.Forall₂ (UserOp.Rel fun _ _ ↦ True) ops ops' := by
      rw [← List.forall₂_eq_eq_eq, List.forall₂_map_left_iff, List.forall₂_map_right_iff] at hsame
      exact (hsame.imp fun op' op heq ↦ UserOp.rel_of_forget heq).flip
    exact reads_eq ionIocAlloc hops World.rel_boot h

/-- The one page of an area at page 16. -/
def onePageArea : Vma := .ofPages 16 1 0 false (by decide) (by decide) (by decide)

/-- A process gets a page from ion, which contains `c` everywhere, maps it and reads its first
byte. -/
def ionReadRun (c : UInt8) : List UserOp :=
  [.ionIoctl 0 0 1 ⟨true, ⟨some 0, fun i ↦ some ⟨5 + i, fun _ ↦ c⟩, some 0⟩, some 3, true⟩,
    .mmap 0 3 onePageArea false fun _ ↦ true, .read 0 65536]

/-- The page exporter is loaded and finds a page which contains `c` everywhere; a process maps it
and reads the byte behind the greeting. -/
def pageReadRun (c : UInt8) : List UserOp :=
  [.exporterInit ⟨some ⟨5, fun _ ↦ c⟩, some 0⟩, .exporterIoctl 0 (some 3) true,
    .mmap 0 3 onePageArea false fun _ ↦ true, .read 0 (65536 + 13)]

/-- Both exporters show a process what was in the page before. -/
theorem readRuns_stale : ¬ NoStaleData 0 (ionReadRun 0) ∧ ¬ NoStaleData 0 (pageReadRun 0) := by
  refine ⟨fun h ↦ ?_, fun h ↦ ?_⟩
  · have hread : reads 0 .boot (ionReadRun 1) = reads 0 .boot (ionReadRun 0) := h _ rfl
    exact absurd hread (by decide)
  · have hread : reads 0 .boot (pageReadRun 1) = reads 0 .boot (pageReadRun 0) := h _ rfl
    exact absurd hread (by decide)

end UserMemory

end DmaBuf
