import SampleDrivers.DmaBuf.SharedMemory
import SampleDrivers.Lib.Ownership

/-!
# Buffers and the references that keep them

The file of a `dma_buf` counts its references: the descriptors that lead to it, the areas that map
it, and the importers that are between `dma_buf_get` and `dma_buf_put`.  When the last of them goes,
the core calls the exporter, which gives the pages back.

* `Host`, `Host.act`, `machine` — the kernel and the processes with the references to each buffer.
  No action releases a buffer: that happens by itself (`Host.release`).
* `Careful` — an area is as long as the buffer it maps, and dma-buf/08 hands its buffer out while
  the reference it got with it is still its own.
* `reads_eq_store_held` — under that guard the exported buffers are shared memory, and nothing has
  to be said about when they are released.
* `Host.held`, `Host.leaked` — the buffers somebody holds, and those that `ion_ioctl` has made for
  nobody, because there was no descriptor for them.
* `live_iff_held` — a buffer is live exactly while it is held or was leaked, and every page a
  process has mapped is a page of a buffer that the area there holds.
* `pages_reclaimed` — the pages in use are the pages of these buffers: in the end none is left but
  those that were leaked.
-/

set_option autoImplicit false

namespace DmaBuf

open Kernel Prog UserMemory

namespace LastReference

/-! ## Areas -/

/-- A range of addresses of a process that maps a buffer. -/
structure Area where
  pid : Pid
  start : ℕ
  stop : ℕ
  buf : BufId
  deriving DecidableEq

/-- The address is in the area. -/
def Area.Covers (a : Area) (pid : Pid) (addr : ℕ) : Prop :=
  a.pid = pid ∧ a.start ≤ addr ∧ addr < a.stop

/-- What is left of an area when a range of addresses is unmapped: one part, two, or none. -/
def Area.cut (pid : Pid) (start stop : ℕ) (a : Area) : List Area :=
  if a.pid = pid ∧ start < stop then
    (if a.start < min a.stop start then [{ a with stop := min a.stop start }] else []) ++
      if max a.start stop < a.stop then [{ a with start := max a.start stop }] else []
  else [a]

/-! ## References -/

/-- A call of `importer_ioctl`. -/
abbrev Tid := ℕ

/-- The kernel, the processes, and who holds the buffers. -/
structure Host where
  world : World
  /-- The references to the file of each buffer. -/
  fCount : BufId → ℕ
  /-- The descriptors that lead to buffers. -/
  installed : List (Pid × ℕ × BufId)
  areas : List Area
  /-- The importers that have called `dma_buf_get`, and not `dma_buf_put`. -/
  importing : List (Tid × BufId)
  /-- The reference dma-buf/08 gets with its buffer, until it hands it out. -/
  owed : List BufId
  /-- The references of buffers that `ion_ioctl` has made and got no descriptor for: nobody knows
  the buffer any more, so nobody will drop them. -/
  leaked : List BufId

namespace Host

/-- Nothing is loaded. -/
def boot : Host := ⟨.boot, fun _ ↦ 0, [], [], [], [], []⟩

/-- The buffers that somebody holds. -/
def held (s : Host) : List BufId :=
  s.installed.map (·.2.2) ++ s.areas.map Area.buf ++ s.importing.map Prod.snd ++ s.owed

/-- All references. -/
def refs (s : Host) : List BufId := s.held ++ s.leaked

/-- `get_file`. -/
def getFile (s : Host) (b : BufId) : BufId → ℕ := Function.update s.fCount b (s.fCount b + 1)

/-- `fput`, but for what it does when no reference is left. -/
def fput (s : Host) (b : BufId) : BufId → ℕ := Function.update s.fCount b (s.fCount b - 1)

/-- The descriptor of `b` that has come. -/
def newFd (s : Host) (w' : World) (pid : Pid) (o : Option ℕ) (b : BufId) : Option ℕ :=
  o.filter fun fd ↦ (s.world.k.fds pid fd).isNone && w'.k.fds pid fd = some b

/-- A call that may export a buffer.  The file of a new buffer has one reference, which its
descriptor takes over; without one, the exporter keeps it if it has a global for it. -/
def exports (s : Host) (w' : World) (pid : Pid) (fd : Option ℕ) (dmabuf : Option BufId)
    (keeps : Bool) : Host :=
  match dmabuf.filter fun b ↦ (s.world.k.bufs b).isNone && (w'.k.bufs b).isSome with
  | none => { s with world := w' }
  | some b =>
    match s.newFd w' pid fd b with
    | some fd =>
      { s with
        world := w'
        fCount := Function.update s.fCount b 1
        installed := (pid, fd, b) :: s.installed }
    | none =>
      let s' := { s with world := w', fCount := Function.update s.fCount b 1 }
      if keeps then { s' with owed := b :: s.owed } else { s' with leaked := b :: s.leaked }

/-- `exporter_ioctl`: the descriptor takes over the reference the exporter got. -/
def handOut (s : Host) (w' : World) (pid : Pid) (fd : Option ℕ) : Host :=
  match s.world.dmabufExported with
  | .obj b =>
    match s.newFd w' pid fd b with
    | some fd =>
      { s with world := w', installed := (pid, fd, b) :: s.installed, owed := s.owed.erase b }
    | none => { s with world := w' }
  | _ => { s with world := w' }

/-- A process gets a copy of a descriptor of `b`. -/
def passed (s : Host) (w' : World) (pid : Pid) (fd : ℕ) (b : BufId) : Host :=
  { s with world := w', fCount := s.getFile b, installed := (pid, fd, b) :: s.installed }

/-- A process closes a descriptor of `b`. -/
def closed (s : Host) (w' : World) (pid : Pid) (fd : ℕ) (b : BufId) : Host :=
  { s with world := w', fCount := s.fput b, installed := s.installed.erase (pid, fd, b) }

/-- Unmap a range of addresses: areas lose parts, or go, and their files lose references; an area
that is split takes another one. -/
def cutAreas (s : Host) (w' : World) (pid : Pid) (start stop : ℕ) : Host :=
  let areas := s.areas.flatMap (Area.cut pid start stop)
  { s with
    world := w'
    areas := areas
    fCount := fun b ↦
      s.fCount b - (s.areas.map Area.buf).count b + (areas.map Area.buf).count b }

/-- A new area takes a reference. -/
def addArea (s : Host) (w' : World) (a : Area) : Host :=
  { s with world := w', fCount := s.getFile a.buf, areas := a :: s.areas }

/-- `mmap` of a descriptor: what was mapped there goes first. -/
def mmap (s : Host) (pid : Pid) (fd : ℕ) (vma : Vma) (writable : Bool) (mem : ℕ → Bool) : Host :=
  match s.world.mappable pid fd vma writable with
  | none => s
  | some b =>
    let w₁ := (s.world.unmap pid vma.vmStart vma.vmEnd).setAccess pid vma writable
    let w' := s.world.mmap pid fd vma writable mem
    if (dmaBufMmap b pid vma mem).result w₁.k = some 0 then
      (s.cutAreas w₁ pid vma.vmStart vma.vmEnd).addArea w' ⟨pid, vma.vmStart, vma.vmEnd, b⟩
    else s.cutAreas w' pid vma.vmStart vma.vmEnd

end Host

/-! ## Actions -/

/-- What can happen. -/
inductive Action
  | user (op : UserOp)
  /-- A process gets a copy of a descriptor, by `dup` or from another process. -/
  | pass (pid : Pid) (fd : ℕ) (pid' : Pid) (fd' : ℕ)
  /-- `importer_ioctl` calls `dma_buf_get`. -/
  | importerEnter (t : Tid) (pid : Pid) (fd : ℕ)
  /-- `importer_ioctl` calls `dma_buf_put`. -/
  | importerLeave (t : Tid)

section

variable (ionIocAlloc : BitVec 32)

/-- What an action does, before anything is released; a user does not release buffers. -/
def Host.act (s : Host) : Action → Option Host
  | .user (.exporterInit o) =>
    some (s.exports (s.world.next ionIocAlloc (.exporterInit o)) 0 none o.dmabuf true)
  | .user (.ionIoctl pid cmd len o) =>
    some (s.exports (s.world.next ionIocAlloc (.ionIoctl pid cmd len o)) pid o.fd o.alloc.dmabuf
      false)
  | .user (.exporterIoctl pid fd copiedOut) =>
    some (s.handOut (s.world.next ionIocAlloc (.exporterIoctl pid fd copiedOut)) pid fd)
  | .user (.mmap pid fd vma writable mem) => some (s.mmap pid fd vma writable mem)
  | .user (.munmap pid start stop) =>
    some (s.cutAreas (s.world.next ionIocAlloc (.munmap pid start stop)) pid start stop)
  | .user (.read pid addr) => some { s with world := s.world.next ionIocAlloc (.read pid addr) }
  | .user (.write pid addr val) =>
    some { s with world := s.world.next ionIocAlloc (.write pid addr val) }
  | .user (.close pid fd) =>
    match s.world.k.fds pid fd with
    | none => some s
    | some b => some (s.closed (s.world.next ionIocAlloc (.close pid fd)) pid fd b)
  | .user (.release _) => none
  | .pass pid fd pid' fd' =>
    match s.world.k.fds pid fd, s.world.k.fds pid' fd' with
    | some b, none => some (s.passed
        { s.world with k := { s.world.k with fds := s.world.k.withFd pid' fd' b } } pid' fd' b)
    | _, _ => none
  | .importerEnter t pid fd =>
    match s.world.k.fds pid fd with
    | some b => some { s with fCount := s.getFile b, importing := (t, b) :: s.importing }
    | none => none
  | .importerLeave t =>
    match s.importing.find? (·.1 = t) with
    | some c => some { s with fCount := s.fput c.2, importing := s.importing.erase c }
    | none => none

/-- The buffers that have lost their last reference. -/
def Host.dying (s s' : Host) : List BufId := s.refs.dedup.filter fun b ↦ s'.fCount b = 0

/-- The core releases a buffer. -/
def Host.release (s : Host) (b : BufId) : Host :=
  { s with world := s.world.next ionIocAlloc (.release b) }

/-- The actions, in any order; buffers are released as soon as nobody holds them. -/
def machine : Machine Host Action :=
  ⟨fun s a ↦ (s.act ionIocAlloc a).map fun s' ↦ (s.dying s').foldl (Host.release ionIocAlloc) s'⟩

/-- What an action means for the store of the bytes of the buffers, before anything is released. -/
def Host.actMeaning (s : Host) : Action → List (Store.Op Cell View Byte)
  | .user op => s.world.meaning ionIocAlloc op
  | _ => []

/-- What an action means for the store. -/
def Host.meaning (s : Host) (a : Action) : List (Store.Op Cell View Byte) :=
  s.actMeaning ionIocAlloc a ++
    (s.act ionIocAlloc a).elim [] fun s' ↦ (s.dying s').map fun b ↦ .destroy (bufCells b)

end

/-- The byte an action reads. -/
def Host.observe (s : Host) : Action → List (Option UInt8)
  | .user op => s.world.observe op
  | _ => []

/-- An area is as long as the buffer it maps, and a reference is handed out while it is there. -/
def Careful (s : Host) : Action → Prop
  | .user (.mmap pid fd vma _ _) => ∀ b i p, s.world.k.fds pid fd = some b →
      s.world.k.frame (b, i) = some p → i < vma.pages
  | .user (.exporterIoctl _ _ _) => ∀ b, s.world.dmabufExported = .obj b → b ∈ s.owed
  | _ => True

/-! ## What holds in between -/

/-- Counts, descriptors, mappings and pages fit together. -/
structure Tied (s : Host) : Prop where
  /-- Each reference is counted. -/
  exact : ∀ b, s.fCount b = s.refs.count b
  dead : ∀ b, s.world.k.bufs b = none → s.fCount b = 0
  fds : ∀ pid fd b, s.world.k.fds pid fd = some b ↔ (pid, fd, b) ∈ s.installed
  nodup : s.installed.Nodup
  /-- A page that is mapped belongs to the buffer that the area holds. -/
  mapped : ∀ pid addr p, (s.world.k.tables pid).pte addr = some p →
    ∃ a ∈ s.areas, a.Covers pid addr ∧ ∃ i, s.world.k.frame (a.buf, i) = some p
  filled : ∀ p ∈ s.world.k.pages, ∃ c, s.world.k.frame c = some p

/-- What nobody holds is gone. -/
def Reaped (s : Host) : Prop := ∀ b, s.fCount b = 0 → s.world.k.bufs b = none

theorem Host.getFile_apply (s : Host) (b b' : BufId) :
    s.getFile b b' = s.fCount b' + if b = b' then 1 else 0 := by
  rw [Host.getFile, Function.update_apply]
  split <;> split <;> simp_all

theorem Host.fput_apply (s : Host) (b b' : BufId) :
    s.fput b b' = s.fCount b' - if b = b' then 1 else 0 := by
  rw [Host.fput, Function.update_apply]
  split <;> split <;> simp_all

theorem Host.count_refs (s : Host) (b : BufId) :
    s.refs.count b = (s.installed.map (·.2.2)).count b + (s.areas.map Area.buf).count b +
      (s.importing.map Prod.snd).count b + s.owed.count b + s.leaked.count b := by
  simp only [Host.refs, Host.held, List.count_append]

/-- Two worlds in which the same buffers and pages are in use. -/
structure SameUse (w w' : World) : Prop where
  bufs : w'.k.bufs = w.k.bufs
  frame : w'.k.frame = w.k.frame
  pages : w'.k.pages = w.k.pages

theorem SameUse.of_core {w w' : World} (hk : Apart w.k) (hbufs : w'.k.bufs = w.k.bufs)
    (hheap : w'.k.heap = w.k.heap) (hpages : w'.k.pages = w.k.pages) : SameUse w w' :=
  ⟨hbufs, hk.frame_congr hbufs hheap hpages, hpages⟩

theorem Tied.boot : Tied Host.boot where
  exact _ := rfl
  dead _ _ := rfl
  fds pid fd b := by
    refine iff_of_false (fun h ↦ ?_) List.not_mem_nil
    cases h
  nodup := List.nodup_nil
  mapped pid addr p h := by cases h
  filled p hp := by cases hp

section

variable {s s' : Host} {w' : World} {pid : Pid} {b : BufId}

/-- Nothing is used in another way, and pages may have been unmapped. -/
theorem Tied.of_world (h : Tied s) (hsame : SameUse s.world w')
    (hfds : w'.k.fds = s.world.k.fds) (hpte : ∀ pid addr p,
      (w'.k.tables pid).pte addr = some p → (s.world.k.tables pid).pte addr = some p) :
    Tied { s with world := w' } where
  exact := h.exact
  dead b hb := h.dead b (hsame.bufs ▸ hb)
  fds pid fd b := (iff_of_eq (congrArg (fun fds ↦ fds pid fd = some b) hfds)).trans (h.fds pid fd b)
  nodup := h.nodup
  mapped pid addr p hp := by
    obtain ⟨a, ha, hcovers, i, hi⟩ := h.mapped pid addr p (hpte pid addr p hp)
    exact ⟨a, ha, hcovers, i, hsame.frame ▸ hi⟩
  filled p hp := by
    obtain ⟨c, hc⟩ := h.filled p (hsame.pages ▸ hp)
    exact ⟨c, hsame.frame ▸ hc⟩

/-- Only references have changed. -/
theorem Tied.of_refs (h : Tied s) (hsame : SameUse s.world s'.world)
    (htables : s'.world.k.tables = s.world.k.tables) (hareas : s'.areas = s.areas)
    (hexact : ∀ b, s'.fCount b = s'.refs.count b)
    (hdead : ∀ b, s.world.k.bufs b = none → s'.fCount b = 0)
    (hfds : ∀ pid fd b, s'.world.k.fds pid fd = some b ↔ (pid, fd, b) ∈ s'.installed)
    (hnodup : s'.installed.Nodup) : Tied s' where
  exact := hexact
  dead b hb := hdead b (hsame.bufs ▸ hb)
  fds := hfds
  nodup := hnodup
  mapped pid addr p hp := by
    rw [htables] at hp
    obtain ⟨a, ha, hcovers, i, hi⟩ := h.mapped pid addr p hp
    exact ⟨a, hareas ▸ ha, hcovers, i, hsame.frame ▸ hi⟩
  filled p hp := by
    obtain ⟨c, hc⟩ := h.filled p (hsame.pages ▸ hp)
    exact ⟨c, hsame.frame ▸ hc⟩

/-- A reference is counted for each who holds the buffer. -/
theorem Tied.fCount_ne_zero_iff (h : Tied s) : s.fCount b ≠ 0 ↔ b ∈ s.refs := by
  rw [h.exact, Ne, List.count_eq_zero, not_not]

theorem Tied.live_of_fd (h : Tied s) {fd : ℕ} (hfd : s.world.k.fds pid fd = some b) :
    s.world.k.bufs b ≠ none := by
  intro hnone
  refine h.fCount_ne_zero_iff.mpr ?_ (h.dead b hnone)
  simp only [Host.refs, Host.held, List.mem_append]
  exact .inl (.inl (.inl (.inl (List.mem_map.mpr ⟨_, (h.fds pid fd b).mp hfd, rfl⟩))))

theorem Tied.held_of_area (h : Tied s) {a : Area} (ha : a ∈ s.areas) : s.fCount a.buf ≠ 0 := by
  refine h.fCount_ne_zero_iff.mpr ?_
  simp only [Host.refs, Host.held, List.mem_append]
  exact .inl (.inl (.inl (.inr (List.mem_map_of_mem ha))))

/-- A reference more to a live buffer. -/
theorem Tied.getFile_dead (h : Tied s) (hlive : s.world.k.bufs b ≠ none) {b' : BufId}
    (hb' : s.world.k.bufs b' = none) : s.getFile b b' = 0 := by
  rw [Host.getFile_apply, h.dead b' hb', if_neg]
  rintro rfl
  exact hlive hb'

/-! ## New buffers -/

@[simp] theorem Host.exports_world (s : Host) (w' : World) (pid : Pid) (fd : Option ℕ)
    (o : Option BufId) (keeps : Bool) : (s.exports w' pid fd o keeps).world = w' := by
  rw [Host.exports]
  split
  · rfl
  · split
    · rfl
    · cases keeps <;> rfl

/-- A descriptor that has come. -/
theorem Host.newFd_eq_some_iff {o : Option ℕ} {n : ℕ} : s.newFd w' pid o b = some n ↔
    o = some n ∧ s.world.k.fds pid n = none ∧ w'.k.fds pid n = some b := by
  simp [Host.newFd, Option.filter_eq_some_iff]

/-- One descriptor more. -/
theorem Tied.withFd (h : Tied s) {fd : ℕ} (hfree : s.world.k.fds pid fd = none) (b : BufId) :
    (∀ pid' fd' b', s.world.k.withFd pid fd b pid' fd' = some b' ↔
      (pid', fd', b') ∈ (pid, fd, b) :: s.installed) ∧ ((pid, fd, b) :: s.installed).Nodup := by
  refine ⟨fun pid' fd' b' ↦ ?_, List.nodup_cons.mpr ⟨fun hmem ↦ ?_, h.nodup⟩⟩
  · rw [List.mem_cons, ← h.fds, KState.withFd, Function.update_apply]
    by_cases hpid : pid' = pid
    · subst hpid
      rw [if_pos rfl, Function.update_apply]
      by_cases hfd : fd' = fd
      · subst hfd
        simp [hfree, eq_comm]
      · simp [hfd]
    · simp [hpid]
  · rw [← h.fds, hfree] at hmem
    cases hmem

/-- A call that may export a buffer. -/
theorem Tied.exports (h : Tied s) (hk : Apart s.world.k) {fd : Option ℕ} {o : Option BufId}
    (heffect : BufEffect o s.world.k w'.k) (htables : w'.k.tables = s.world.k.tables)
    (hnew : NewFd pid fd o s.world.k w'.k) (keeps : Bool) : Tied (s.exports w' pid fd o keeps) ∧
      ∀ b, (s.exports w' pid fd o keeps).fCount b = 0 → s.world.k.bufs b = none →
        w'.k.bufs b = none := by
  have hframe : ∀ c p, s.world.k.frame c = some p → w'.k.frame c = some p :=
    fun c p hc ↦ (heffect.frame hk hc).1
  cases heffect with
  | same hbufs hhas hpages _ =>
    have hnone : (o.filter fun b ↦ (s.world.k.bufs b).isNone && (w'.k.bufs b).isSome) = none := by
      rw [Option.filter_eq_none_iff]
      intro b _
      rw [hbufs]
      cases s.world.k.bufs b <;> simp
    have hfds : w'.k.fds = s.world.k.fds := by
      refine hnew.resolve_right ?_
      rintro ⟨fd, b, -, -, hfree, hsome, -⟩
      rw [hbufs, hfree] at hsome
      cases hsome
    rw [Host.exports, hnone]
    refine ⟨h.of_world ⟨hbufs, hk.frame_of_same hbufs hhas, hpages⟩ hfds fun pid addr p hp ↦ ?_,
      fun b _ hb ↦ hbufs ▸ hb⟩
    exact htables ▸ hp
  | new b buf ps ho hfree hbuf hps hrest hfresh _ hpages _ =>
    have hsome : (o.filter fun b ↦ (s.world.k.bufs b).isNone && (w'.k.bufs b).isSome) =
        some b := by
      rw [ho, Option.filter_some, hfree, hbuf]
      rfl
    have hexact : ∀ b', Function.update s.fCount b 1 b' =
        s.refs.count b' + if b = b' then 1 else 0 := by
      intro b'
      rw [← h.exact, Function.update_apply]
      by_cases hb : b' = b
      · rw [hb, if_pos rfl, if_pos rfl, h.dead b hfree]
      · rw [if_neg hb, if_neg (Ne.symm hb), Nat.add_zero]
    have hdead : ∀ b', w'.k.bufs b' = none → Function.update s.fCount b 1 b' = 0 := by
      intro b' hb'
      have hb : b' ≠ b := by
        rintro rfl
        rw [hbuf] at hb'
        cases hb'
      rw [Function.update_of_ne hb]
      exact h.dead b' ((hrest.bufs b' hb).symm.trans hb')
    have hlive : ∀ b', Function.update s.fCount b 1 b' = 0 → s.world.k.bufs b' = none →
        w'.k.bufs b' = none := by
      intro b' hzero hb'
      have hb : b' ≠ b := by
        rintro rfl
        rw [Function.update_self] at hzero
        cases hzero
      exact (hrest.bufs b' hb).trans hb'
    have hmapped : ∀ pid addr p, (w'.k.tables pid).pte addr = some p →
        ∃ a ∈ s.areas, a.Covers pid addr ∧ ∃ i, w'.k.frame (a.buf, i) = some p := by
      intro pid addr p hp
      rw [htables] at hp
      obtain ⟨a, ha, hcovers, i, hi⟩ := h.mapped pid addr p hp
      exact ⟨a, ha, hcovers, i, hframe _ p hi⟩
    have hfilled : ∀ p ∈ w'.k.pages, ∃ c, w'.k.frame c = some p := by
      intro p hp
      rcases hpages p hp with hp | hp
      · obtain ⟨i, hi⟩ := List.mem_iff_getElem?.mp hp
        exact ⟨(b, i), (frame_of_has hbuf hps i).trans hi⟩
      · obtain ⟨c, hc⟩ := h.filled p hp
        exact ⟨c, hframe c p hc⟩
    rw [Host.exports, hsome]
    cases hfd : s.newFd w' pid fd b with
    | some n =>
      simp only [hfd]
      obtain ⟨rfl, hnfree, hinst⟩ := Host.newFd_eq_some_iff.mp hfd
      have hfds : w'.k.fds = s.world.k.withFd pid n b := by
        rcases hnew with hsame | ⟨n', b', hn, hb, -, -, -, hfds⟩
        · rw [hsame, hnfree] at hinst
          cases hinst
        · obtain rfl := Option.some_inj.mp hn
          obtain rfl := Option.some_inj.mp (ho.symm.trans hb)
          exact hfds
      obtain ⟨hiff, hnodup⟩ := h.withFd hnfree b
      refine ⟨⟨fun b' ↦ ?_, hdead, fun pid' fd' b' ↦ hfds ▸ hiff pid' fd' b', hnodup, hmapped,
        hfilled⟩, hlive⟩
      refine (hexact b').trans ?_
      simp only [Host.count_refs, List.map_cons, List.count_cons, beq_iff_eq]
      omega
    | none =>
      simp only [hfd]
      have hfds : w'.k.fds = s.world.k.fds := by
        refine hnew.resolve_right ?_
        rintro ⟨n, b', hn, hb, -, -, hnfree, hfds⟩
        obtain rfl := Option.some_inj.mp (ho.symm.trans hb)
        have hinst : w'.k.fds pid n = some b := by
          rw [hfds, KState.withFd, Function.update_self, Function.update_self]
        have hfound := Host.newFd_eq_some_iff.mpr ⟨hn, hnfree, hinst⟩
        rw [hfd] at hfound
        cases hfound
      cases keeps <;>
      · refine ⟨⟨fun b' ↦ ?_, hdead, fun pid' fd' b' ↦ hfds ▸ h.fds pid' fd' b', h.nodup, hmapped,
          hfilled⟩, hlive⟩
        refine (hexact b').trans ?_
        simp only [Host.count_refs, if_true, if_neg Bool.false_ne_true, List.count_cons, beq_iff_eq]
        omega

/-! ## Descriptors and importers -/

@[simp] theorem Host.handOut_world (s : Host) (w' : World) (pid : Pid) (fd : Option ℕ) :
    (s.handOut w' pid fd).world = w' := by
  rw [Host.handOut]
  split
  · split <;> rfl
  · rfl

/-- `exporter_ioctl` hands out a reference that is owed. -/
theorem Tied.handOut (h : Tied s) {o : Option ℕ} (hsame : SameUse s.world w')
    (htables : w'.k.tables = s.world.k.tables)
    (howed : ∀ b, s.world.dmabufExported = .obj b → b ∈ s.owed)
    (hnew : w'.k.fds = s.world.k.fds ∨ ∃ b n, s.world.dmabufExported = .obj b ∧ o = some n ∧
      s.world.k.fds pid n = none ∧ w'.k.fds = s.world.k.withFd pid n b) :
    Tied (s.handOut w' pid o) := by
  have hkept : w'.k.fds = s.world.k.fds → Tied { s with world := w' } := fun hfds ↦
    h.of_world hsame hfds fun _ _ _ hp ↦ htables ▸ hp
  rcases hnew with hfds | ⟨b, n, hexported, rfl, hfree, hfds⟩
  · have hnone : ∀ b, s.newFd w' pid o b = none := by
      intro b
      by_contra hne
      obtain ⟨n, hn⟩ := Option.ne_none_iff_exists'.mp hne
      obtain ⟨-, hfree, hinst⟩ := Host.newFd_eq_some_iff.mp hn
      rw [hfds, hfree] at hinst
      cases hinst
    have hout : s.handOut w' pid o = { s with world := w' } := by
      rw [Host.handOut]
      split
      · rw [hnone]
      · rfl
    rw [hout]
    exact hkept hfds
  · have hinst : w'.k.fds pid n = some b := by
      rw [hfds, KState.withFd, Function.update_self, Function.update_self]
    have hout : s.handOut w' pid (some n) = { s with
        world := w', installed := (pid, n, b) :: s.installed, owed := s.owed.erase b } := by
      rw [Host.handOut, hexported]
      simp only [Host.newFd_eq_some_iff.mpr ⟨rfl, hfree, hinst⟩]
    rw [hout]
    obtain ⟨hiff, hnodup⟩ := h.withFd hfree b
    refine h.of_refs hsame htables rfl (fun b' ↦ ?_) h.dead
      (fun pid' fd' b' ↦ hfds ▸ hiff pid' fd' b') hnodup
    have hexact := h.exact b'
    rw [Host.count_refs] at hexact ⊢
    simp only [List.map_cons, List.count_cons, List.count_erase, beq_iff_eq]
    by_cases hb : b = b'
    · have hpos := List.count_pos_iff.mpr (howed b hexported)
      subst hb
      simp only [if_true]
      omega
    · simp only [if_neg hb]
      omega

/-- A descriptor is passed on. -/
theorem Tied.passed (h : Tied s) {fd : ℕ} (hlive : s.world.k.bufs b ≠ none)
    (hfree : s.world.k.fds pid fd = none) : Tied (s.passed
      { s.world with k := { s.world.k with fds := s.world.k.withFd pid fd b } } pid fd b) := by
  obtain ⟨hiff, hnodup⟩ := h.withFd hfree b
  refine h.of_refs ⟨rfl, rfl, rfl⟩ rfl rfl (fun b' ↦ ?_) (fun b' hb' ↦ h.getFile_dead hlive hb')
    hiff hnodup
  have hexact := h.exact b'
  rw [Host.count_refs] at hexact ⊢
  simp only [Host.passed, Host.getFile_apply, List.map_cons, List.count_cons, beq_iff_eq]
  omega

/-- A descriptor is closed. -/
theorem Tied.closed (h : Tied s) (ionIocAlloc : BitVec 32) {fd : ℕ}
    (hfd : s.world.k.fds pid fd = some b) :
    Tied (s.closed (s.world.next ionIocAlloc (.close pid fd)) pid fd b) := by
  have hperm := List.perm_cons_erase ((h.fds pid fd b).mp hfd)
  refine h.of_refs ⟨rfl, rfl, rfl⟩ rfl rfl (fun b' ↦ ?_) (fun b' hb' ↦ ?_)
    (fun pid' fd' b' ↦ ?_) (h.nodup.erase _)
  · have hexact := h.exact b'
    have hcount := (hperm.map (·.2.2)).count_eq b'
    rw [Host.count_refs] at hexact ⊢
    rw [List.map_cons, List.count_cons] at hcount
    simp only [beq_iff_eq] at hcount
    simp only [Host.closed, Host.fput_apply]
    omega
  · simp only [Host.closed, Host.fput_apply, h.dead b' hb', Nat.zero_sub]
  · change Function.update s.world.k.fds pid
      (Function.update (s.world.k.fds pid) fd none) pid' fd' = some b' ↔
        (pid', fd', b') ∈ s.installed.erase (pid, fd, b)
    rw [h.nodup.mem_erase_iff, ← h.fds, Function.update_apply]
    by_cases hpid : pid' = pid
    · subst hpid
      rw [if_pos rfl, Function.update_apply]
      by_cases hfd' : fd' = fd
      · subst hfd'
        rw [if_pos rfl, hfd]
        simp only [reduceCtorEq, ne_eq, Prod.mk.injEq, true_and, Option.some_inj, false_iff,
          not_and]
        exact Ne.symm
      · simp [hfd']
    · simp [hpid]

/-- An importer takes a reference. -/
theorem Tied.entered (h : Tied s) (t : Tid) (hlive : s.world.k.bufs b ≠ none) :
    Tied { s with fCount := s.getFile b, importing := (t, b) :: s.importing } := by
  refine h.of_refs ⟨rfl, rfl, rfl⟩ rfl rfl (fun b' ↦ ?_) (fun b' hb' ↦ h.getFile_dead hlive hb')
    h.fds h.nodup
  have hexact := h.exact b'
  rw [Host.count_refs] at hexact ⊢
  simp only [Host.getFile_apply, List.map_cons, List.count_cons, beq_iff_eq]
  omega

/-- An importer drops its reference. -/
theorem Tied.left (h : Tied s) {c : Tid × BufId} (hc : c ∈ s.importing) :
    Tied { s with fCount := s.fput c.2, importing := s.importing.erase c } := by
  refine h.of_refs ⟨rfl, rfl, rfl⟩ rfl rfl (fun b' ↦ ?_) (fun b' hb' ↦ ?_) h.fds h.nodup
  · have hexact := h.exact b'
    have hcount := ((List.perm_cons_erase hc).map Prod.snd).count_eq b'
    rw [Host.count_refs] at hexact ⊢
    rw [List.map_cons, List.count_cons] at hcount
    simp only [beq_iff_eq] at hcount
    simp only [Host.fput_apply]
    omega
  · simp only [Host.fput_apply, h.dead b' hb', Nat.zero_sub]

/-! ## Areas -/

/-- What is left of an area that covers an address which is not unmapped. -/
theorem Area.exists_cut {a : Area} {start stop addr : ℕ} {pid' : Pid} (hcovers : a.Covers pid' addr)
    (hout : ¬ (pid' = pid ∧ start ≤ addr ∧ addr < stop)) :
    ∃ a' ∈ a.cut pid start stop, a'.Covers pid' addr ∧ a'.buf = a.buf := by
  obtain ⟨rfl, hstart, hstop⟩ := hcovers
  rw [Area.cut]
  split
  · rename_i hpid
    by_cases hlt : addr < start
    · refine ⟨{ a with stop := min a.stop start }, ?_, ⟨rfl, hstart, ?_⟩, rfl⟩
      · rw [if_pos (by omega)]
        exact List.mem_append_left _ (List.mem_singleton_self _)
      · simp only
        omega
    · have hge : stop ≤ addr := by
        by_contra hin
        exact hout ⟨hpid.1, by omega, by omega⟩
      refine ⟨{ a with start := max a.start stop }, ?_, ⟨rfl, ?_, hstop⟩, rfl⟩
      · rw [if_pos (show max a.start stop < a.stop by omega)]
        exact List.mem_append_right _ (List.mem_singleton_self _)
      · simp only
        omega
  · exact ⟨a, List.mem_singleton_self a, ⟨rfl, hstart, hstop⟩, rfl⟩

/-- The parts of an area hold the same buffer. -/
theorem Area.buf_of_mem_cut {a a' : Area} {start stop : ℕ} (h : a' ∈ a.cut pid start stop) :
    a'.buf = a.buf := by
  rw [Area.cut] at h
  split at h
  · rcases List.mem_append.mp h with h | h
    · split at h
      · rw [List.mem_singleton.mp h]
      · cases h
    · split at h
      · rw [List.mem_singleton.mp h]
      · cases h
  · rw [List.mem_singleton.mp h]

/-- **Unmapping.** -/
theorem Tied.cutAreas (h : Tied s) {start stop : ℕ} (hsame : SameUse s.world w')
    (hfds : w'.k.fds = s.world.k.fds) (hpte : ∀ pid' addr p, (w'.k.tables pid').pte addr = some p →
      (s.world.k.tables pid').pte addr = some p ∧ ¬ (pid' = pid ∧ start ≤ addr ∧ addr < stop)) :
    Tied (s.cutAreas w' pid start stop) := by
  have hle : ∀ b, (s.areas.map Area.buf).count b ≤ s.fCount b := by
    intro b
    rw [h.exact, Host.count_refs]
    omega
  refine ⟨fun b ↦ ?_, fun b hb ↦ ?_, fun pid fd b ↦ ?_, h.nodup, fun pid' addr p hp ↦ ?_,
    fun p hp ↦ ?_⟩
  · have hexact := h.exact b
    have hle := hle b
    rw [Host.count_refs] at hexact ⊢
    simp only [Host.cutAreas]
    omega
  · have hzero := h.dead b (hsame.bufs ▸ hb)
    have hnone : ((s.areas.flatMap (Area.cut pid start stop)).map Area.buf).count b = 0 := by
      refine List.count_eq_zero.mpr fun hmem ↦ ?_
      obtain ⟨a', ha', rfl⟩ := List.mem_map.mp hmem
      obtain ⟨a, ha, hcut⟩ := List.mem_flatMap.mp ha'
      have hpos := List.count_pos_iff.mpr (List.mem_map_of_mem (f := Area.buf) ha)
      rw [← Area.buf_of_mem_cut hcut] at hpos
      have := hle a'.buf
      omega
    simp only [Host.cutAreas, hnone, hzero]
    omega
  · exact (h.of_world hsame hfds fun _ _ _ hp ↦ (hpte _ _ _ hp).1).fds pid fd b
  · obtain ⟨hold, hout⟩ := hpte pid' addr p hp
    obtain ⟨a, ha, hcovers, i, hi⟩ := h.mapped pid' addr p hold
    obtain ⟨a', ha', hcovers', hbuf⟩ := Area.exists_cut hcovers hout
    refine ⟨a', List.mem_flatMap.mpr ⟨a, ha, ha'⟩, hcovers', i, ?_⟩
    rw [hbuf]
    exact hsame.frame ▸ hi
  · exact (h.of_world hsame hfds fun _ _ _ hp ↦ (hpte _ _ _ hp).1).filled p hp

/-- **Mapping** a live buffer. -/
theorem Tied.addArea (h : Tied s) {a : Area} (hlive : s.world.k.bufs a.buf ≠ none)
    (hsame : SameUse s.world w') (hfds : w'.k.fds = s.world.k.fds)
    (hpte : ∀ pid addr p, (w'.k.tables pid).pte addr = some p →
      (s.world.k.tables pid).pte addr = some p ∨
        a.Covers pid addr ∧ ∃ i, s.world.k.frame (a.buf, i) = some p) :
    Tied (s.addArea w' a) := by
  refine ⟨fun b ↦ ?_, fun b hb ↦ ?_, fun pid fd b ↦ ?_, h.nodup, fun pid' addr p hp ↦ ?_,
    fun p hp ↦ ?_⟩
  · have hexact := h.exact b
    rw [Host.count_refs] at hexact ⊢
    simp only [Host.addArea, Host.getFile_apply, List.map_cons, List.count_cons, beq_iff_eq]
    omega
  · exact h.getFile_dead hlive (hsame.bufs ▸ hb)
  · exact (iff_of_eq (congrArg (fun fds ↦ fds pid fd = some b) hfds)).trans (h.fds pid fd b)
  · rcases hpte pid' addr p hp with hold | ⟨hcovers, i, hi⟩
    · obtain ⟨a', ha', hcovers, i, hi⟩ := h.mapped pid' addr p hold
      exact ⟨a', List.mem_cons_of_mem _ ha', hcovers, i, hsame.frame ▸ hi⟩
    · exact ⟨a, List.mem_cons_self .., hcovers, i, hsame.frame ▸ hi⟩
  · obtain ⟨c, hc⟩ := h.filled p (hsame.pages ▸ hp)
    exact ⟨c, hsame.frame ▸ hc⟩

/-- In an area as long as the buffer, the buffer is mapped. -/
theorem inside_of_shown {k : KState} {vma : Vma} {mem : ℕ → Bool} {base i : ℕ}
    (hfits : ∀ i p, k.frame (b, i) = some p → i < vma.pages) (hbase : pageSize ∣ base)
    (h : k.shown b vma mem base = some i) : vma.vmStart ≤ base ∧ base < vma.vmEnd := by
  rw [KState.shown] at h
  split at h
  · rename_i hall
    obtain ⟨-, hlt, -, hframe⟩ := hall
    obtain ⟨p, hp⟩ := Option.isSome_iff_exists.mp hframe
    have hpages := hfits _ p hp
    have haddr : vma.addr (roundOf vma base) = base :=
      (Nat.mod_eq_of_lt (vma.addr_lt hpages)).symm.trans (roundAddr_roundOf hbase hlt)
    rw [← haddr]
    exact ⟨vma.le_addr _, vma.addr_lt_vmEnd.mpr hpages⟩
  · cases h

/-- `mmap` changes the table of the process and nothing else: its area shows nothing, or pages of
the buffer. -/
theorem mmap_ends {w : World} (hk : Apart w.k) {fd : ℕ} {vma : Vma} (writable : Bool)
    (mem : ℕ → Bool) (hfd : w.mappable pid fd vma writable = some b)
    (hfits : ∀ i p, w.k.frame (b, i) = some p → i < vma.pages) :
    let w₁ := (w.unmap pid vma.vmStart vma.vmEnd).setAccess pid vma writable
    (∃ pt, (w.mmap pid fd vma writable mem).k = w.k.setTable pid pt) ∧
      ∀ pid' a p, ((w.mmap pid fd vma writable mem).k.tables pid').pte a = some p →
        (w₁.k.tables pid').pte a = some p ∨
          (dmaBufMmap b pid vma mem).result w₁.k = some 0 ∧ pid' = pid ∧ vma.vmStart ≤ a ∧
            a < vma.vmEnd ∧ ∃ i, w.k.frame (b, i) = some p := by
  intro w₁
  have hw₁ : ∃ pt, w₁.k = w.k.setTable pid pt := ⟨_, rfl⟩
  have hk₁ : Apart w₁.k := hk.congr rfl rfl rfl
  obtain ⟨pt₁, hpt₁⟩ := hw₁
  obtain ⟨pt, hfinal, hres, hpt, hother⟩ := dmaBufMmap_final hk₁ b pid vma mem
  by_cases hzero : (dmaBufMmap b pid vma mem).result w₁.k = some 0
  · have hmmap : w.mmap pid fd vma writable mem = w₁.call (dmaBufMmap b pid vma mem) := by
      simp only [World.mmap, hfd]
      exact if_pos hzero
    have hk' : (w.mmap pid fd vma writable mem).k = w₁.k.setTable pid pt := by
      rw [hmmap, World.call, hfinal]
    refine ⟨⟨pt, by rw [hk', hpt₁, KState.setTable_setTable]⟩, fun pid' a p hp ↦ ?_⟩
    rw [hk'] at hp
    by_cases hpid : pid' = pid
    · subst hpid
      rw [KState.setTable_tables_self] at hp
      by_cases hbase : pageSize ∣ a
      · rw [hpt a hbase] at hp
        cases hshown : w₁.k.shown b vma mem a with
        | none =>
          rw [hshown, Option.bind_none, Option.none_or] at hp
          exact .inl hp
        | some i =>
          obtain ⟨q, hq⟩ := Option.isSome_iff_exists.mp (isSome_frame_of_shown hshown)
          rw [hshown, Option.bind_some, hq, Option.some_or] at hp
          obtain ⟨hstart, hstop⟩ := inside_of_shown hfits hbase hshown
          exact .inr ⟨hzero, rfl, hstart, hstop, i, hq.trans hp⟩
      · exact .inl ((hother a hbase).symm.trans hp)
    · have hsame : (w₁.k.setTable pid pt).tables pid' = w₁.k.tables pid' :=
        Function.update_of_ne hpid ..
      exact .inl (hsame ▸ hp)
  · have hmmap : w.mmap pid fd vma writable mem = w₁.unmap pid vma.vmStart vma.vmEnd := by
      have hsame : w₁.call (dmaBufMmap b pid vma mem) = w₁ := by
        rw [World.call, hfinal, hres.resolve_left hzero, KState.setTable_self]
      simp only [World.mmap, hfd]
      refine (if_neg hzero).trans ?_
      exact congrArg (fun w : World ↦ w.unmap pid vma.vmStart vma.vmEnd) hsame
    refine ⟨?_, fun pid' a p hp ↦ .inl ?_⟩
    · rw [hmmap, World.unmap, hpt₁, KState.setTable_setTable]
      exact ⟨_, rfl⟩
    · rw [hmmap, World.unmap_pte] at hp
      split at hp
      · cases hp
      · exact hp

/-! ## Releasing a buffer -/

/-- **A buffer that nobody holds** is mapped nowhere, and goes with its pages. -/
theorem Tied.release (h : Tied s) (hk : Apart s.world.k) (ionIocAlloc : BitVec 32)
    (hzero : s.fCount b = 0) : Unseen s.world (.release b) ∧ Tied (s.release ionIocAlloc b) ∧
      ∀ b', (s.release ionIocAlloc b).world.k.bufs b' =
        if b' = b then none else s.world.k.bufs b' := by
  obtain ⟨hloses, -, howned⟩ := dmaBufRelease_effect hk b
  change LosesBuf s.world.k b (s.release ionIocAlloc b).world.k at hloses
  change (s.release ionIocAlloc b).world.k.owned = s.world.k.owned at howned
  obtain ⟨hfds, htables⟩ := Prod.mk.inj howned
  have hbufs : ∀ b', (s.release ionIocAlloc b).world.k.bufs b' =
      if b' = b then none else s.world.k.bufs b' := by
    intro b'
    split
    · rename_i hb
      rw [hb, hloses.gone]
    · rename_i hb
      exact hloses.rest.bufs b' hb
  have hunseen : ∀ a ∈ s.areas, a.buf ≠ b := fun a ha hb ↦ h.held_of_area ha (hb ▸ hzero)
  refine ⟨fun pid addr p i hp hframe ↦ ?_, ⟨h.exact, fun b' hb' ↦ ?_, fun pid fd b' ↦ ?_, h.nodup,
    fun pid addr p hp ↦ ?_, fun p hp ↦ ?_⟩, hbufs⟩
  · obtain ⟨a, ha, -, j, hj⟩ := h.mapped pid addr p hp
    exact hunseen a ha (congrArg Prod.fst (hk.frame_inj _ _ p hj hframe))
  · rw [hbufs] at hb'
    split at hb'
    · rename_i hb
      exact hb ▸ hzero
    · exact h.dead b' hb'
  · rw [hfds]
    exact h.fds pid fd b'
  · rw [htables] at hp
    obtain ⟨a, ha, hcovers, i, hi⟩ := h.mapped pid addr p hp
    exact ⟨a, ha, hcovers, i, (hloses.rest.frame hk (hunseen a ha) i).trans hi⟩
  · obtain ⟨hin, hnot⟩ := hloses.pages p hp
    obtain ⟨⟨b', i⟩, hc⟩ := h.filled p hin
    have hb : b' ≠ b := by
      rintro rfl
      exact hnot i hc
    exact ⟨(b', i), (hloses.rest.frame hk hb i).trans hc⟩

/-- The core releases buffers that nobody holds. -/
theorem Tied.releases (h : Tied s) (ionIocAlloc : BitVec 32) {t : Store Cell View Byte}
    (ht : s.world.Shows t) {bs : List BufId} (hzero : ∀ b ∈ bs, s.fCount b = 0) :
    Tied (bs.foldl (Host.release ionIocAlloc) s) ∧
      (bs.foldl (Host.release ionIocAlloc) s).world.ShownBy t
        (bs.map fun b ↦ .destroy (bufCells b)) ∧
      (bs.foldl (Host.release ionIocAlloc) s).fCount = s.fCount ∧
      ∀ b, (bs.foldl (Host.release ionIocAlloc) s).world.k.bufs b =
        if b ∈ bs then none else s.world.k.bufs b := by
  induction bs generalizing s t with
  | nil => exact ⟨h, ht.shownBy, rfl, fun b ↦ (if_neg List.not_mem_nil).symm⟩
  | cons b bs ih =>
    obtain ⟨hunseen, htied, hbufs⟩ :=
      h.release ht.apart ionIocAlloc (hzero b (List.mem_cons_self ..))
    have hfirst : (s.release ionIocAlloc b).world.ShownBy t [.destroy (bufCells b)] :=
      ht.next ionIocAlloc hunseen
    obtain ⟨t₁, hrun₁, ht₁⟩ := hfirst
    obtain ⟨htied', ⟨t', hrun', ht'⟩, hcount, hbufs'⟩ := ih htied ht₁ fun b' hb' ↦
      hzero b' (List.mem_cons_of_mem _ hb')
    refine ⟨htied', ⟨t', hrun₁.append hrun', ht'⟩, hcount, fun b' ↦ (hbufs' b').trans ?_⟩
    rw [hbufs]
    by_cases hb : b' = b <;> by_cases hmem : b' ∈ bs <;> simp [hb, hmem]

/-! ## Actions -/

/-- `mmap` keeps counts, areas and mappings together. -/
theorem Tied.mmap (h : Tied s) (hk : Apart s.world.k) {fd : ℕ} {vma : Vma} (writable : Bool)
    (mem : ℕ → Bool) (hfits : ∀ b i p, s.world.k.fds pid fd = some b →
      s.world.k.frame (b, i) = some p → i < vma.pages) :
    Tied (s.mmap pid fd vma writable mem) ∧
      (s.mmap pid fd vma writable mem).world = s.world.mmap pid fd vma writable mem ∧
      SameUse s.world (s.mmap pid fd vma writable mem).world := by
  cases hfd : s.world.mappable pid fd vma writable with
  | none =>
    have hnone : s.world.mmap pid fd vma writable mem = s.world := by rw [World.mmap, hfd]
    rw [Host.mmap, hfd]
    exact ⟨h, hnone.symm, ⟨rfl, rfl, rfl⟩⟩
  | some b =>
    have hopen := World.fds_of_mappable hfd
    obtain ⟨⟨pt, hpt⟩, hpte⟩ := mmap_ends hk writable mem hfd (hfits b · · hopen)
    have hcut : ∀ pid' a p, (((s.world.unmap pid vma.vmStart vma.vmEnd).setAccess pid vma
        writable).k.tables pid').pte a = some p → (s.world.k.tables pid').pte a = some p ∧
          ¬ (pid' = pid ∧ vma.vmStart ≤ a ∧ a < vma.vmEnd) := by
      intro pid' a p hp
      change ((s.world.unmap pid vma.vmStart vma.vmEnd).k.tables pid').pte a = some p at hp
      rw [World.unmap_pte] at hp
      split at hp
      · cases hp
      · rename_i hout
        exact ⟨hp, hout⟩
    have hsame : SameUse s.world (s.world.mmap pid fd vma writable mem) := by
      refine .of_core hk ?_ ?_ ?_ <;> rw [hpt] <;> rfl
    have hfds : (s.world.mmap pid fd vma writable mem).k.fds = s.world.k.fds := by
      rw [hpt]
      rfl
    rw [Host.mmap, hfd]
    simp only
    split
    · rename_i hzero
      have htied : Tied (s.cutAreas ((s.world.unmap pid vma.vmStart vma.vmEnd).setAccess pid vma
          writable) pid vma.vmStart vma.vmEnd) := h.cutAreas ⟨rfl, rfl, rfl⟩ rfl hcut
      refine ⟨htied.addArea (a := ⟨pid, vma.vmStart, vma.vmEnd, b⟩) (h.live_of_fd hopen)
        ⟨hsame.bufs, hsame.frame, hsame.pages⟩ hfds fun pid' a p hp ↦ ?_, rfl, hsame⟩
      exact (hpte pid' a p hp).imp id fun hnew ↦
        ⟨⟨hnew.2.1.symm, hnew.2.2.1, hnew.2.2.2.1⟩, hnew.2.2.2.2⟩
    · rename_i hzero
      exact ⟨h.cutAreas hsame hfds fun pid' a p hp ↦
        hcut pid' a p ((hpte pid' a p hp).resolve_right fun hnew ↦ hzero hnew.1), rfl, hsame⟩

/-- Writing a byte may take a page from the table, and makes no other use of anything. -/
theorem write_use (w : World) (pid : Pid) (addr : ℕ) (val : UInt8) :
    SameUse w (w.write pid addr val) ∧ (w.write pid addr val).k.fds = w.k.fds ∧
      ∀ pid' a p, ((w.write pid addr val).k.tables pid').pte a = some p →
        (w.k.tables pid').pte a = some p := by
  have hcopy : ∀ bytes, SameUse w (w.setCopy pid (pageBase addr) bytes) ∧
      (w.setCopy pid (pageBase addr) bytes).k.fds = w.k.fds ∧
        ∀ pid' a p, ((w.setCopy pid (pageBase addr) bytes).k.tables pid').pte a = some p →
          (w.k.tables pid').pte a = some p := by
    refine fun bytes ↦ ⟨⟨rfl, rfl, rfl⟩, rfl, fun pid' a p hp ↦ ?_⟩
    rw [World.setCopy_pte] at hp
    split at hp
    · cases hp
    · exact hp
  rw [World.write]
  split
  · split
    · exact ⟨⟨rfl, rfl, rfl⟩, rfl, fun _ _ _ hp ↦ hp⟩
    · exact ⟨⟨rfl, rfl, rfl⟩, rfl, fun _ _ _ hp ↦ hp⟩
    · exact hcopy _
  · split
    · exact hcopy _
    · exact ⟨⟨rfl, rfl, rfl⟩, rfl, fun _ _ _ hp ↦ hp⟩

variable (ionIocAlloc : BitVec 32) {a : Action}

/-- **An action**, before anything is released: no buffer comes that nobody holds. -/
theorem Tied.act (h : Tied s) (hk : Apart s.world.k) (hok : Careful s a)
    (hact : s.act ionIocAlloc a = some s') : Tied s' ∧
      ∀ b, s'.fCount b = 0 → s.world.k.bufs b = none → s'.world.k.bufs b = none := by
  cases a with
  | user op =>
    cases op with
    | exporterInit o =>
      obtain rfl := Option.some_inj.mp hact
      have howned := (owned_exporterAllocPage o).final s.world.k
      obtain ⟨hfds, htables⟩ := Prod.mk.inj howned
      have hexports : Tied (s.exports (s.world.next ionIocAlloc (.exporterInit o)) 0 none
          o.dmabuf true) ∧ ∀ b, (s.exports (s.world.next ionIocAlloc (.exporterInit o)) 0 none
            o.dmabuf true).fCount b = 0 → s.world.k.bufs b = none →
              (s.world.next ionIocAlloc (.exporterInit o)).k.bufs b = none :=
        h.exports hk (exporterAllocPage_effect hk o) htables (.inl hfds) true
      refine ⟨hexports.1, fun b hzero hb ↦ ?_⟩
      rw [Host.exports_world]
      exact hexports.2 b hzero hb
    | exporterIoctl pid fd copiedOut =>
      obtain rfl := Option.some_inj.mp hact
      have hfinal : (s.world.next ionIocAlloc (.exporterIoctl pid fd copiedOut)).k =
          (dmaBufFd pid s.world.dmabufExported fd).final s.world.k := exporterIoctl_final ..
      have hnew : (s.world.next ionIocAlloc (.exporterIoctl pid fd copiedOut)).k = s.world.k ∨
          ∃ b n, s.world.dmabufExported = .obj b ∧ fd = some n ∧ s.world.k.fds pid n = none ∧
            (s.world.next ionIocAlloc (.exporterIoctl pid fd copiedOut)).k =
              { s.world.k with fds := s.world.k.withFd pid n b } := by
        rw [hfinal]
        refine (dmaBufFd_final s.world.k pid s.world.dmabufExported fd).imp id ?_
        rintro ⟨b, n, hobj, -, hfd, hfree, hk'⟩
        exact ⟨b, n, hobj, hfd, hfree, hk'⟩
      generalize s.world.next ionIocAlloc (.exporterIoctl pid fd copiedOut) = w' at hnew
      have hsame : SameUse s.world w' ∧ w'.k.tables = s.world.k.tables := by
        rcases hnew with hk' | ⟨b, n, -, -, -, hk'⟩
        · exact ⟨⟨by rw [hk'], by rw [hk'], by rw [hk']⟩, by rw [hk']⟩
        · exact ⟨⟨by rw [hk'], by rw [hk']; rfl, by rw [hk']⟩, by rw [hk']⟩
      refine ⟨h.handOut hsame.1 hsame.2 hok (hnew.imp (congrArg KState.fds) ?_), fun b _ hb ↦ ?_⟩
      · rintro ⟨b, n, hobj, hfd, hfree, hk'⟩
        exact ⟨b, n, hobj, hfd, hfree, congrArg KState.fds hk'⟩
      rw [Host.handOut_world, hsame.1.bufs, hb]
    | ionIoctl pid cmd len o =>
      obtain rfl := Option.some_inj.mp hact
      obtain ⟨heffect, -, htables⟩ := ionIoctl_effect hk ionIocAlloc pid cmd len o
      have hexports : Tied (s.exports (s.world.next ionIocAlloc (.ionIoctl pid cmd len o)) pid o.fd
          o.alloc.dmabuf false) ∧ ∀ b, (s.exports (s.world.next ionIocAlloc (.ionIoctl pid cmd len
            o)) pid o.fd o.alloc.dmabuf false).fCount b = 0 → s.world.k.bufs b = none →
              (s.world.next ionIocAlloc (.ionIoctl pid cmd len o)).k.bufs b = none :=
        h.exports hk heffect htables (ionIoctl_fds s.world.k ionIocAlloc pid cmd len o) false
      refine ⟨hexports.1, fun b hzero hb ↦ ?_⟩
      rw [Host.exports_world]
      exact hexports.2 b hzero hb
    | mmap pid fd vma writable mem =>
      obtain rfl := Option.some_inj.mp hact
      obtain ⟨htied, -, hsame⟩ := h.mmap hk writable mem hok
      exact ⟨htied, fun b _ hb ↦ hsame.bufs ▸ hb⟩
    | munmap pid start stop =>
      obtain rfl := Option.some_inj.mp hact
      refine ⟨h.cutAreas ⟨rfl, rfl, rfl⟩ rfl fun pid' addr p hp ↦ ?_, fun b _ hb ↦ hb⟩
      change ((s.world.unmap pid start stop).k.tables pid').pte addr = some p at hp
      rw [World.unmap_pte] at hp
      split at hp
      · cases hp
      · rename_i hout
        exact ⟨hp, hout⟩
    | read pid addr =>
      obtain rfl := Option.some_inj.mp hact
      exact ⟨h.of_world ⟨rfl, rfl, rfl⟩ rfl fun _ _ _ hp ↦ hp, fun b _ hb ↦ hb⟩
    | write pid addr val =>
      obtain rfl := Option.some_inj.mp hact
      obtain ⟨hsame, hfds, hpte⟩ := write_use s.world pid addr val
      exact ⟨h.of_world hsame hfds hpte, fun b _ hb ↦ hsame.bufs ▸ hb⟩
    | close pid fd =>
      rw [Host.act] at hact
      split at hact
      · obtain rfl := Option.some_inj.mp hact
        exact ⟨h, fun b _ hb ↦ hb⟩
      · rename_i b hfd
        obtain rfl := Option.some_inj.mp hact
        exact ⟨h.closed ionIocAlloc hfd, fun b _ hb ↦ hb⟩
    | release b => cases hact
  | pass pid fd pid' fd' =>
    rw [Host.act] at hact
    split at hact
    · rename_i b hfd hfree
      obtain rfl := Option.some_inj.mp hact
      exact ⟨h.passed (h.live_of_fd hfd) hfree, fun b _ hb ↦ hb⟩
    · cases hact
  | importerEnter t pid fd =>
    rw [Host.act] at hact
    split at hact
    · rename_i b hfd
      obtain rfl := Option.some_inj.mp hact
      exact ⟨h.entered t (h.live_of_fd hfd), fun b _ hb ↦ hb⟩
    · cases hact
  | importerLeave t =>
    rw [Host.act] at hact
    split at hact
    · rename_i c hc
      obtain rfl := Option.some_inj.mp hact
      exact ⟨h.left (List.mem_of_find?_eq_some hc), fun b _ hb ↦ hb⟩
    · cases hact

/-- What an action does to the memory. -/
theorem shows_act {t : Store Cell View Byte} (ht : s.world.Shows t) (hok : Careful s a)
    (h : Tied s) (hact : s.act ionIocAlloc a = some s') :
    s'.world.ShownBy t (s.actMeaning ionIocAlloc a) := by
  cases a with
  | user op =>
    have hworld : s'.world = s.world.next ionIocAlloc op ∧ Unseen s.world op := by
      cases op with
      | exporterInit o =>
        obtain rfl := Option.some_inj.mp hact
        exact ⟨Host.exports_world .., trivial⟩
      | exporterIoctl pid fd copiedOut =>
        obtain rfl := Option.some_inj.mp hact
        exact ⟨Host.handOut_world .., trivial⟩
      | ionIoctl pid cmd len o =>
        obtain rfl := Option.some_inj.mp hact
        exact ⟨Host.exports_world .., trivial⟩
      | mmap pid fd vma writable mem =>
        obtain rfl := Option.some_inj.mp hact
        exact ⟨(h.mmap ht.apart writable mem hok).2.1, trivial⟩
      | munmap pid start stop =>
        obtain rfl := Option.some_inj.mp hact
        exact ⟨rfl, trivial⟩
      | read pid addr =>
        obtain rfl := Option.some_inj.mp hact
        exact ⟨rfl, trivial⟩
      | write pid addr val =>
        obtain rfl := Option.some_inj.mp hact
        exact ⟨rfl, trivial⟩
      | close pid fd =>
        rw [Host.act] at hact
        split at hact
        · rename_i hfd
          obtain rfl := Option.some_inj.mp hact
          refine ⟨?_, trivial⟩
          have hsame : Function.update s.world.k.fds pid
              (Function.update (s.world.k.fds pid) fd none) = s.world.k.fds := by
            rw [← hfd, Function.update_eq_self, Function.update_eq_self]
          simp only [World.next, hsame]
        · obtain rfl := Option.some_inj.mp hact
          exact ⟨rfl, trivial⟩
      | release b => cases hact
    rw [hworld.1]
    exact ht.next ionIocAlloc hworld.2
  | pass pid fd pid' fd' =>
    rw [Host.act] at hact
    split at hact
    · obtain rfl := Option.some_inj.mp hact
      exact ⟨t, .nil t, ht.of_core rfl rfl rfl⟩
    · cases hact
  | importerEnter c pid fd =>
    rw [Host.act] at hact
    split at hact
    · obtain rfl := Option.some_inj.mp hact
      exact ht.shownBy
    · cases hact
  | importerLeave c =>
    rw [Host.act] at hact
    split at hact
    · obtain rfl := Option.some_inj.mp hact
      exact ht.shownBy
    · cases hact

/-- What an action reads is read from the store. -/
theorem outputs_act {t : Store Cell View Byte} (ht : s.world.Shows t)
    (hact : s.act ionIocAlloc a = some s') :
    Store.machine.outputs values t (s.actMeaning ionIocAlloc a) = s.observe a := by
  cases a with
  | user op =>
    have hop : Unseen s.world op := by
      cases op with
      | release b => cases hact
      | _ => trivial
    obtain ⟨-, -, -, hout⟩ := UserMemory.implements_store ionIocAlloc ht hop rfl
    exact hout
  | pass pid fd pid' fd' => rfl
  | importerEnter c pid fd => rfl
  | importerLeave c => rfl

/-! ## Runs -/

/-- Everything fits together, nothing is left that nobody holds, and the memory implements the
store. -/
structure Kept (s : Host) (t : Store Cell View Byte) : Prop where
  tied : Tied s
  reaped : Reaped s
  shows : s.world.Shows t

/-- **One step.** -/
theorem Kept.step {t : Store Cell View Byte} (h : Kept s t) (hok : Careful s a)
    (hstep : (machine ionIocAlloc).step s a = some s') :
    ∃ t', Store.machine.Run Store.Allowed t (s.meaning ionIocAlloc a) t' ∧
      Store.machine.outputs values t (s.meaning ionIocAlloc a) = s.observe a ∧ Kept s' t' := by
  obtain ⟨s₁, hact, rfl⟩ := Option.map_eq_some_iff.mp hstep
  obtain ⟨htied, hdead⟩ := h.tied.act ionIocAlloc h.shows.apart hok hact
  obtain ⟨t₁, hrun₁, ht₁⟩ := shows_act ionIocAlloc h.shows hok h.tied hact
  have hzero : ∀ b ∈ s.dying s₁, s₁.fCount b = 0 := fun b hb ↦
    of_decide_eq_true (List.mem_filter.mp hb).2
  obtain ⟨htied', ⟨t', hrun', ht'⟩, hcount, hbufs⟩ := htied.releases ionIocAlloc ht₁ hzero
  have hshown : ∀ op ∈ (s.dying s₁).map fun b ↦ Store.Op.destroy (bufCells b),
      ∀ t : Store Cell View Byte, values t op = [] := by
    intro op hop t
    obtain ⟨b, -, rfl⟩ := List.mem_map.mp hop
    rfl
  refine ⟨t', ?_, ?_, htied', fun b hb ↦ ?_, ht'⟩
  · rw [Host.meaning, hact, Option.elim_some]
    exact hrun₁.append hrun'
  · rw [Host.meaning, hact, Option.elim_some, hrun₁.outputs_append, Machine.outputs_eq_nil hshown,
      List.append_nil]
    exact outputs_act ionIocAlloc h.shows hact
  · rw [hcount] at hb
    rw [hbufs]
    split
    · rfl
    · rename_i hnot
      refine hdead b hb (h.reaped b ?_)
      by_contra hheld
      refine hnot (List.mem_filter.mpr ⟨List.mem_dedup.mpr ?_, decide_eq_true hb⟩)
      exact h.tied.fCount_ne_zero_iff.mp hheld

/-- **The host implements the store**, releases and all. -/
theorem implements_store : (machine ionIocAlloc).Implements Careful Host.observe Store.machine
    Store.Allowed values (Host.meaning ionIocAlloc) Kept := by
  intro s t a s' h hok hstep
  obtain ⟨t', hrun, hout, h'⟩ := h.step ionIocAlloc hok hstep
  exact ⟨t', hrun, h', hout⟩

theorem Kept.boot : Kept .boot .empty := ⟨.boot, fun _ _ ↦ rfl, World.shows_boot⟩

/-- dma-buf/08 hands its buffer out, and the process maps it, closes the descriptor, and reads. -/
def mappedOnly : List Action :=
  [.user (.exporterInit ⟨some ⟨5, fun _ ↦ 0⟩, some 0⟩), .user (.exporterIoctl 0 (some 3) true),
    .user (.mmap 0 3 onePageArea false fun _ ↦ true), .user (.close 0 3), .user (.read 0 65536)]

/-- Then it unmaps the page. -/
def unmapped : List Action := mappedOnly ++ [.user (.munmap 0 65536 69632)]

theorem mappedOnly_careful : ∃ s, (machine 0).Run Careful .boot mappedOnly s ∧
    s.world.k.fds 0 3 = none ∧ s.held = [0] ∧ s.leaked = [] ∧
    ∃ s', (machine 0).Run Careful s [.user (.munmap 0 65536 69632)] s' ∧ s'.held = [] ∧
      s'.leaked = [] := by
  refine ⟨_, .cons trivial rfl (.cons ?_ rfl (.cons ?_ rfl (.cons trivial rfl
    (.cons trivial rfl (.nil _))))), rfl, rfl, rfl, _, .single trivial rfl, rfl, rfl⟩
  · intro b hb
    have hobj : Ptr.obj 0 = Ptr.obj b := hb
    injection hobj with hbuf
    subst hbuf
    exact List.mem_cons_self ..
  · intro b i p hb hp
    have hsome : some 0 = some b := hb
    injection hsome with hbuf
    subst hbuf
    have hframe : (if i = 0 then some 5 else none) = some p := hp
    have hzero : i = 0 := by
      by_contra hne
      rw [if_neg hne] at hframe
      cases hframe
    rw [hzero]
    exact Nat.one_pos

/-- **The exported buffers are shared memory**, as long as areas are as long as their buffers and
references are handed out once.  When buffers are released does not matter. -/
theorem reads_eq_store_held {as : List Action}
    (hrun : (machine ionIocAlloc).Run Careful .boot as s) :
    ∃ t, Store.machine.Run Store.Allowed .empty
        ((machine ionIocAlloc).outputs (Host.meaning ionIocAlloc) .boot as) t ∧
      Store.machine.outputs values .empty
        ((machine ionIocAlloc).outputs (Host.meaning ionIocAlloc) .boot as) =
          (machine ionIocAlloc).outputs Host.observe .boot as ∧
      ∀ pid addr, s.world.byte pid addr = t.load (pid, addr) := by
  obtain ⟨t, hstore, h, hout⟩ := (implements_store ionIocAlloc).run hrun .boot
  refine ⟨t, hstore, hout, fun pid addr ↦ ?_⟩
  rw [World.byte_eq, h.shows.placed.load]

/-- What is read is the greeting. -/
theorem reads_eq_store_held_mappedOnly : ∃ t, Store.machine.Run Store.Allowed .empty
      ((machine 0).outputs (Host.meaning 0) .boot mappedOnly) t ∧
    Store.machine.outputs values .empty
      ((machine 0).outputs (Host.meaning 0) .boot mappedOnly) = [some 104] := by
  obtain ⟨s, hrun, -⟩ := mappedOnly_careful
  obtain ⟨t, hstore, hout, -⟩ := reads_eq_store_held 0 hrun
  exact ⟨t, hstore, hout.trans (by decide)⟩

/-- **A buffer lives exactly as long as somebody holds it**, or it was leaked: its count is the
number of its references, it is live exactly while there is one, and what a process has mapped at an
address is a page of the live buffer that the area there holds. -/
theorem live_iff_held {as : List Action}
    (hrun : (machine ionIocAlloc).Run Careful .boot as s) :
    (∀ b, s.fCount b = s.held.count b + s.leaked.count b) ∧
      (∀ b, (s.world.k.bufs b).isSome ↔ b ∈ s.held ∨ b ∈ s.leaked) ∧
      ∀ pid addr p, (s.world.k.tables pid).pte addr = some p →
        ∃ a ∈ s.areas, a.Covers pid addr ∧ ∃ i, s.world.k.frame (a.buf, i) = some p := by
  obtain ⟨t, -, h, -⟩ := (implements_store ionIocAlloc).run hrun .boot
  refine ⟨fun b ↦ (h.tied.exact b).trans List.count_append, fun b ↦ ?_, h.tied.mapped⟩
  rw [← List.mem_append, ← Host.refs, ← h.tied.fCount_ne_zero_iff, Option.isSome_iff_ne_none]
  exact ⟨fun hb hzero ↦ hb (h.reaped b hzero), fun hne hb ↦ hne (h.tied.dead b hb)⟩

/-- The descriptor is closed, and the buffer is still there. -/
theorem live_iff_held_mappedOnly : ∃ s, (machine 0).Run Careful .boot mappedOnly s ∧
    s.world.k.fds 0 3 = none ∧ s.fCount 0 = 1 ∧ (s.world.k.bufs 0).isSome := by
  obtain ⟨s, hrun, hclosed, hheld, hleaked, -⟩ := mappedOnly_careful
  obtain ⟨hcount, hlive, -⟩ := live_iff_held 0 hrun
  refine ⟨s, hrun, hclosed, ?_, (hlive 0).mpr (.inl ?_)⟩
  · rw [hcount, hheld, hleaked, List.count_singleton_self, List.count_nil]
  · rw [hheld]
    exact List.mem_singleton_self 0

/-- **The pages in use are the pages of the buffers that somebody holds or that were leaked**, each
in one place, and each was handed out once more than it was put back.  When nobody holds anything
and nothing was leaked, no page is in use. -/
theorem pages_reclaimed {as : List Action}
    (hrun : (machine ionIocAlloc).Run Careful .boot as s) :
    ExactlyOwned (· ∈ s.world.k.pages) s.world.k.frame ∧ s.world.k.Balanced ∧
      (∀ c p, s.world.k.frame c = some p → c.1 ∈ s.held ∨ c.1 ∈ s.leaked) ∧
      (s.held = [] → s.leaked = [] → s.world.k.pages = ∅) := by
  obtain ⟨t, -, h, -⟩ := (implements_store ionIocAlloc).run hrun .boot
  have hk := h.shows.apart
  have hheld : ∀ c p, s.world.k.frame c = some p → c.1 ∈ s.held ∨ c.1 ∈ s.leaked := by
    intro c p hc
    obtain ⟨buf, ps, hbuf, -⟩ := hk.exists_has hc
    rw [← List.mem_append, ← Host.refs, ← h.tied.fCount_ne_zero_iff]
    intro hzero
    rw [h.reaped c.1 hzero] at hbuf
    cases hbuf
  refine ⟨⟨fun p ↦ ⟨h.tied.filled p, ?_⟩, hk.frame_inj⟩, hk.balanced, hheld, fun hnone hleaked ↦ ?_⟩
  · rintro ⟨c, hc⟩
    exact hk.frame_inUse hc
  · refine Finset.eq_empty_of_forall_notMem fun p hp ↦ ?_
    obtain ⟨c, hc⟩ := h.tied.filled p hp
    have hmem := hheld c p hc
    rw [hnone, hleaked] at hmem
    rcases hmem with hmem | hmem <;> cases hmem

/-- The page goes with the area. -/
theorem pages_reclaimed_unmapped : ∃ s, (machine 0).Run Careful .boot unmapped s ∧
    s.world.k.pages = ∅ := by
  obtain ⟨s, hrun, -, -, -, s', hrun', hheld, hleaked⟩ := mappedOnly_careful
  obtain ⟨-, -, -, hnone⟩ := pages_reclaimed 0 (hrun.append hrun')
  exact ⟨s', hrun.append hrun', hnone hheld hleaked⟩

end

end LastReference

end DmaBuf
