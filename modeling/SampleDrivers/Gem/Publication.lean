import SampleDrivers.Gem.Accounting

/-!
# Objects that are published before they have memory

`drm_gem_cma_dumb_create` makes an object, creates a handle for it, and only then allocates its DMA
memory.  From the second step on every thread of the client can name the object, and
`drm_gem_cma_mmap` maps whatever its `paddr` is.

* `State`, `machine` — any number of threads, each of them before one of the three steps of
  `drm_gem_cma_dumb_create`, mapping an object by its handle, unmapping, or destroying a handle.
* `creation_run` — a creation that nobody interrupts is a call of `drmGemCmaDumbCreate`.
* `Kept` — who has memory: an object whose creation is not over has none, and every allocation
  belongs to the object that points to it.
* `backed_iff_allocated` — an object is backed from the moment its allocation has succeeded, and not
  before.
* `published_backed_iff` — a run stays safe exactly as long as it publishes nothing.
-/

set_option autoImplicit false

namespace Gem.Publication

open Kernel

/-- A thread of a client. -/
abbrev Tid := ℕ

/-- The next step of a thread inside `drm_gem_cma_dumb_create`. -/
inductive Pc
  /-- The thread is not inside. -/
  | idle
  /-- `drm_gem_handle_create`. -/
  | handleCreate (c : Client) (id : ObjId) (size : ℕ)
  /-- `dma_alloc_wc`. -/
  | dmaAlloc (id : ObjId) (size : ℕ)

/-- The object whose creation is not over. -/
def Pc.pending : Pc → Option (ObjId × ℕ)
  | .idle => none
  | .handleCreate _ id size => some (id, size)
  | .dmaAlloc id size => some (id, size)

/-- A piece of DMA memory and the object it was allocated for. -/
structure DmaAlloc where
  owner : ObjId
  addr : ℕ
  size : ℕ

/-- Physical pages that were mapped for an object. -/
structure Remap where
  id : ObjId
  pfn : ℕ
  pages : ℕ

/-- The driver with its threads. -/
structure State where
  gem : World
  /-- What `dma_alloc_wc` has handed out; nothing ever gives it back. -/
  dma : List DmaAlloc
  /-- What `remap_pfn_range` has mapped so far. -/
  remaps : List Remap
  pc : Tid → Pc

/-- A freshly loaded driver. -/
def start : State := ⟨mygemInit, [], [], fun _ ↦ .idle⟩

/-! ## The steps -/

namespace State

variable (s : State)

/-- `kzalloc` and `drm_gem_object_init`; without memory, or with a size that is not a whole number
of pages, the thread does not get any further. -/
def objectInit (t : Tid) (c : Client) (args : DumbArgs) (kzalloc : Option ObjId) (filp : Bool) :
    State :=
  match kzalloc with
  | none => s
  | some id =>
    if (s.gem.objects id).isSome then s
    else if args.size % pageSize ≠ 0 then s
    else
      { s with
        gem := drmGemObjectInit s.gem id args.size filp
        pc := Function.update s.pc t (.handleCreate c id args.size) }

/-- `drm_gem_handle_create`, whose result is not looked at. -/
def handleCreate (t : Tid) (c : Client) (id : ObjId) (size : ℕ) (handle : Option Handle) : State :=
  { s with
    gem := (drmGemHandleCreate s.gem c id handle).2
    pc := Function.update s.pc t (.dmaAlloc id size) }

@[simp] theorem handleCreate_pc (t : Tid) (c : Client) (id : ObjId) (size : ℕ)
    (handle : Option Handle) : (s.handleCreate t c id size handle).pc =
      Function.update s.pc t (.dmaAlloc id size) := rfl

/-- `dma_alloc_wc`, whose result is not looked at either. -/
def dmaAlloc (t : Tid) (id : ObjId) (size : ℕ) (mem : Option ℕ) : State :=
  { s with
    gem := dmaAllocWc s.gem id mem
    dma := mem.elim s.dma fun a ↦ ⟨id, a, size⟩ :: s.dma
    pc := Function.update s.pc t .idle }

end State

/-- The object a client may map that many pages of by a handle. -/
def target (w : World) (c : Client) (h : Handle) (pages : ℕ) : Option ObjId :=
  ((w.handles.find? (·.1 = (c, h))).map Prod.snd).filter fun id ↦
    (w.objects id).any fun obj ↦ pageSize * pages ≤ obj.size

/-- What `remap_pfn_range` is asked for: pages from `paddr >> PAGE_SHIFT` on. -/
def remapOf (w : World) (id : ObjId) (pages : ℕ) : Remap :=
  ⟨id, (w.objects id).elim 0 CmaObject.paddr / pageSize, pages⟩

/-- `drm_gem_cma_mmap` of an area of `pages` pages, for a handle. -/
def State.mmap (s : State) (m : MapId) (c : Client) (h : Handle) (pages : ℕ) (remapped : Bool) :
    State :=
  match target s.gem c h pages with
  | none => s
  | some id =>
    { s with
      gem := (drmGemCmaMmap s.gem m ⟨some id, remapped⟩).2
      remaps := if remapped then remapOf s.gem id pages :: s.remaps else s.remaps }

/-- A step of a thread. -/
inductive Action
  | objectInit (t : Tid) (c : Client) (args : DumbArgs) (kzalloc : Option ObjId) (filp : Bool)
  | handleCreate (t : Tid) (handle : Option Handle)
  | dmaAlloc (t : Tid) (mem : Option ℕ)
  | mmap (m : MapId) (c : Client) (h : Handle) (pages : ℕ) (remapped : Bool)
  | munmap (m : MapId)
  | destroyHandle (c : Client) (h : Handle)

/-- Every interleaving.  DMA memory starts at a page. -/
def machine : Machine State Action where
  step s
    | .objectInit t c args kzalloc filp =>
      match s.pc t with
      | .idle => some (s.objectInit t c args kzalloc filp)
      | _ => none
    | .handleCreate t handle =>
      match s.pc t with
      | .handleCreate c id size => some (s.handleCreate t c id size handle)
      | _ => none
    | .dmaAlloc t mem =>
      match s.pc t with
      | .dmaAlloc id size =>
        if ∀ a ∈ mem, pageSize ∣ a then some (s.dmaAlloc t id size mem) else none
      | _ => none
    | .mmap m c h pages remapped => some (s.mmap m c h pages remapped)
    | .munmap m => some { s with gem := munmap mygemDriver s.gem m }
    | .destroyHandle c h => some { s with gem := drmGemHandleDelete mygemDriver s.gem c h }

/-- A creation that nobody interrupts does to the objects what `drmGemCmaDumbCreate` does. -/
theorem creation_run {s : State} {t : Tid} {c : Client} {args : DumbArgs} {id : ObjId} {init : Bool}
    {handle : Option Handle} {dma : Option ℕ} (hidle : s.pc t = .idle)
    (hnew : s.gem.objects id = none) (hsize : args.size % pageSize = 0)
    (hdma : ∀ a ∈ dma, pageSize ∣ a) : ∃ s', machine.Run Machine.free s
      [.objectInit t c args (some id) init, .handleCreate t handle, .dmaAlloc t dma] s' ∧
        s'.gem = (drmGemCmaDumbCreate s.gem c args ⟨some id, init, handle, dma⟩).2 ∧
          s'.pc t = .idle := by
  have hinit : s.objectInit t c args (some id) init = { s with
      gem := drmGemObjectInit s.gem id args.size init
      pc := Function.update s.pc t (.handleCreate c id args.size) } := by
    simp [State.objectInit, hnew, hsize]
  have h₁ : machine.step s (.objectInit t c args (some id) init) =
      some (s.objectInit t c args (some id) init) := by
    simp only [machine, hidle]
  have h₂ : machine.step (s.objectInit t c args (some id) init) (.handleCreate t handle) =
      some ((s.objectInit t c args (some id) init).handleCreate t c id args.size handle) := by
    simp only [machine, hinit, Function.update_self]
  have h₃ : machine.step
      ((s.objectInit t c args (some id) init).handleCreate t c id args.size handle)
      (.dmaAlloc t dma) = some (((s.objectInit t c args (some id) init).handleCreate t c id
        args.size handle).dmaAlloc t id args.size dma) := by
    simp only [machine, State.handleCreate_pc, Function.update_self]
    exact if_pos hdma
  refine ⟨_, .cons trivial h₁ (.cons trivial h₂ (.single trivial h₃)), ?_, ?_⟩
  · rw [State.dmaAlloc, State.handleCreate, hinit]
    simp [drmGemCmaDumbCreate, hnew, hsize]
  · exact Function.update_self ..

/-- What a step can do. -/
inductive Effect (s : State) : Action → State → Prop
  | objectInit {t : Tid} {c : Client} {args : DumbArgs} {kzalloc : Option ObjId} {filp : Bool}
      (hpc : s.pc t = .idle) :
      Effect s (.objectInit t c args kzalloc filp) (s.objectInit t c args kzalloc filp)
  | handleCreate {t : Tid} {c : Client} {id : ObjId} {size : ℕ} {handle : Option Handle}
      (hpc : s.pc t = .handleCreate c id size) :
      Effect s (.handleCreate t handle) (s.handleCreate t c id size handle)
  | dmaAlloc {t : Tid} {id : ObjId} {size : ℕ} {mem : Option ℕ} (hpc : s.pc t = .dmaAlloc id size)
      (hmem : ∀ a ∈ mem, pageSize ∣ a) : Effect s (.dmaAlloc t mem) (s.dmaAlloc t id size mem)
  | mmap (m : MapId) (c : Client) (h : Handle) (pages : ℕ) (remapped : Bool) :
      Effect s (.mmap m c h pages remapped) (s.mmap m c h pages remapped)
  | munmap (m : MapId) : Effect s (.munmap m) { s with gem := munmap mygemDriver s.gem m }
  | destroyHandle (c : Client) (h : Handle) : Effect s (.destroyHandle c h)
      { s with gem := drmGemHandleDelete mygemDriver s.gem c h }

/-- **Inversion**: a step of the machine is one of the effects. -/
theorem step_effect {s s' : State} {a : Action} (h : machine.step s a = some s') :
    Effect s a s' := by
  cases a <;> simp only [machine] at h
  case objectInit t c args kzalloc filp =>
    split at h
    · rename_i hpc
      obtain rfl := Option.some_inj.mp h
      exact .objectInit hpc
    · exact absurd h (by simp)
  case handleCreate t handle =>
    split at h
    · rename_i hpc
      obtain rfl := Option.some_inj.mp h
      exact .handleCreate hpc
    · exact absurd h (by simp)
  case dmaAlloc t mem =>
    split at h
    · rename_i hpc
      obtain ⟨hmem, ⟨⟩⟩ := Option.ite_none_right_eq_some.mp h
      exact .dmaAlloc hpc hmem
    · exact absurd h (by simp)
  case mmap m c hd pages remapped =>
    obtain rfl := Option.some_inj.mp h
    exact .mmap m c hd pages remapped
  case munmap m =>
    obtain rfl := Option.some_inj.mp h
    exact .munmap m
  case destroyHandle c hd =>
    obtain rfl := Option.some_inj.mp h
    exact .destroyHandle c hd

/-! ## What should hold -/

/-- `vaddr` and `paddr` designate memory that was allocated for the object and holds all of it. -/
def Backed (s : State) (id : ObjId) : Prop :=
  ∃ obj, s.gem.objects id = some obj ∧ ∃ d ∈ s.dma, d.owner = id ∧ obj.vaddr = .obj d.addr ∧
    obj.paddr = d.addr ∧ obj.size ≤ d.size

/-- The pages are memory that was allocated for the object. -/
def Own (s : State) (r : Remap) : Prop :=
  ∀ k < r.pages, ∃ d ∈ s.dma, d.owner = r.id ∧ d.addr ≤ pageSize * (r.pfn + k) ∧
    pageSize * (r.pfn + k + 1) ≤ d.addr + d.size

/-- Every object with a handle is backed, and only memory of the object was ever mapped for it. -/
structure Safe (s : State) : Prop where
  backed : ∀ e ∈ s.gem.handles, Backed s e.2
  own : ∀ r ∈ s.remaps, Own s r

/-- The step publishes an object: `drm_gem_handle_create` finds a free handle. -/
def Publishes (s : State) : Action → Prop
  | .handleCreate t handle => ∃ c id size h, s.pc t = .handleCreate c id size ∧ handle = some h ∧
      (c, h) ∉ s.gem.handles.map Prod.fst
  | _ => False

/-! ## The memory of an object

Reference counts come and go; what an object says about its memory changes in two places only. -/

/-- What an object says about its memory. -/
structure Memory where
  size : ℕ
  paddr : ℕ
  vaddr : Ptr ℕ

/-- The fields of an object that are about its memory. -/
def memoryOfObject (obj : CmaObject) : Memory := ⟨obj.size, obj.paddr, obj.vaddr⟩

/-- What each object says about its memory. -/
def memory (w : World) (id : ObjId) : Option Memory := (w.objects id).map memoryOfObject

section

variable {w : World}

theorem memory_eq_some {id : ObjId} {m : Memory} (h : memory w id = some m) :
    ∃ obj, w.objects id = some obj ∧ obj.size = m.size ∧ obj.paddr = m.paddr ∧
      obj.vaddr = m.vaddr := by
  obtain ⟨obj, hobj, rfl⟩ := Option.map_eq_some_iff.mp h
  exact ⟨obj, hobj, rfl, rfl, rfl⟩

/-- Counting references leaves the memory alone. -/
theorem memory_modify (id : ObjId) {f : CmaObject → CmaObject}
    (hf : ∀ obj, memoryOfObject (f obj) = memoryOfObject obj) :
    memory (w.modify id f) = memory w := by
  funext id'
  rw [memory, memory, World.modify_objects, Function.update_apply]
  split
  · rename_i hid
    rw [hid, Option.map_map]
    exact congrArg (fun g ↦ Option.map g _) (funext hf)
  · rfl

theorem memory_drmGemHandleCreate (c : Client) (id : ObjId) (handle : Option Handle) :
    memory (drmGemHandleCreate w c id handle).2 = memory w := by
  unfold drmGemHandleCreate
  split
  · rfl
  · split
    · rfl
    · exact memory_modify id fun _ ↦ rfl

theorem memory_drmGemHandleDelete (c : Client) (h : Handle) :
    memory (drmGemHandleDelete mygemDriver w c h) = memory w := by
  unfold drmGemHandleDelete
  split
  · rfl
  · refine memory_modify _ fun obj ↦ ?_
    split <;> rfl

theorem memory_drmGemCmaMmap (m : MapId) (o : MmapOutcome) :
    memory (drmGemCmaMmap w m o).2 = memory w := by
  unfold drmGemCmaMmap
  split
  · rfl
  · split
    · rfl
    · simp only
      split
      · exact memory_modify _ fun _ ↦ rfl
      · exact memory_modify _ fun _ ↦ rfl

theorem memory_munmap (m : MapId) : memory (munmap mygemDriver w m) = memory w := by
  unfold munmap
  split <;> rfl

theorem memory_drmGemObjectInit (id : ObjId) (size : ℕ) (filp : Bool) :
    memory (drmGemObjectInit w id size filp) =
      Function.update (memory w) id (some ⟨size, 0, .null⟩) := by
  funext id'
  rw [memory, drmGemObjectInit_objects, Function.update_apply, Function.update_apply]
  split <;> rfl

theorem memory_dmaAllocWc {id : ObjId} {m : Memory} (h : memory w id = some m) (a : ℕ) :
    memory (dmaAllocWc w id (some a)) =
      Function.update (memory w) id (some ⟨m.size, a, .obj a⟩) := by
  obtain ⟨obj, hobj, hsize, -⟩ := memory_eq_some h
  funext id'
  rw [memory, dmaAllocWc, World.modify_objects, Function.update_apply, Function.update_apply]
  split
  · rw [hobj, ← hsize]
    rfl
  · rfl

end

/-! ## Who has memory -/

/-- The account of the DMA memory: objects whose creation is not over have none, and every
allocation is designated by the object it was made for. -/
structure Kept (s : State) : Prop where
  pending : ∀ t id size, (s.pc t).pending = some (id, size) →
    memory s.gem id = some ⟨size, 0, .null⟩ ∧ ∀ d ∈ s.dma, d.owner ≠ id
  apart : ∀ t t' id size size', (s.pc t).pending = some (id, size) →
    (s.pc t').pending = some (id, size') → t = t'
  allocated : ∀ d ∈ s.dma, memory s.gem d.owner = some ⟨d.size, d.addr, .obj d.addr⟩ ∧
    pageSize ∣ d.addr

theorem kept_start : Kept start := by
  refine ⟨fun t id size h ↦ absurd h (by simp [start, Pc.pending]),
    fun t t' id size size' h ↦ absurd h (by simp [start, Pc.pending]), fun d hd ↦ ?_⟩
  exact absurd hd List.not_mem_nil

section

variable {s s' : State}

/-- Steps that allocate nothing and leave the threads at the same objects keep the account. -/
theorem Kept.congr (h : Kept s) (hmem : memory s'.gem = memory s.gem) (hdma : s'.dma = s.dma)
    (hpc : ∀ t, (s'.pc t).pending = (s.pc t).pending) : Kept s' := by
  refine ⟨fun t id size ht ↦ ?_, fun t t' id size size' ht ht' ↦ ?_, fun d hd ↦ ?_⟩
  · rw [hmem, hdma]
    exact h.pending t id size (hpc t ▸ ht)
  · exact h.apart t t' id size size' (hpc t ▸ ht) (hpc t' ▸ ht')
  · rw [hmem]
    exact h.allocated d (hdma ▸ hd)

/-- A new object has no memory, and nothing else knows it. -/
theorem Kept.objectInit (h : Kept s) (t : Tid) (c : Client) (args : DumbArgs)
    (kzalloc : Option ObjId) (filp : Bool) : Kept (s.objectInit t c args kzalloc filp) := by
  unfold State.objectInit
  split
  · exact h
  rename_i id
  split
  · exact h
  rename_i hnew
  split
  · exact h
  have hnone : memory s.gem id = none := by
    rw [memory, Option.not_isSome_iff_eq_none.mp hnew]
    rfl
  have hdma : ∀ d ∈ s.dma, d.owner ≠ id := by
    intro d hd heq
    have hmem := (h.allocated d hd).1
    rw [heq, hnone] at hmem
    exact absurd hmem (by simp)
  have hother : ∀ t' id' size', (s.pc t').pending = some (id', size') → id' ≠ id := by
    intro t' id' size' ht' heq
    have hmem := (h.pending t' id' size' ht').1
    rw [heq, hnone] at hmem
    exact absurd hmem (by simp)
  refine ⟨fun t' id' size' ht' ↦ ?_, fun t₁ t₂ id' size₁ size₂ h₁ h₂ ↦ ?_, fun d hd ↦ ?_⟩ <;>
    simp only [memory_drmGemObjectInit, Function.update_apply] at *
  · split at ht'
    · cases ht'
      exact ⟨if_pos rfl, hdma⟩
    · rw [if_neg (hother t' id' size' ht')]
      exact h.pending t' id' size' ht'
  · split at h₁ <;> split at h₂
    · rename_i h₁' h₂'
      exact h₁'.trans h₂'.symm
    · cases h₁
      exact absurd rfl (hother t₂ _ size₂ h₂)
    · cases h₂
      exact absurd rfl (hother t₁ _ size₁ h₁)
    · exact h.apart t₁ t₂ id' size₁ size₂ h₁ h₂
  · rw [if_neg (hdma d hd)]
    exact h.allocated d hd

/-- With its allocation, or without it, the creation of an object is over. -/
theorem Kept.dmaAlloc (h : Kept s) {t : Tid} {id : ObjId} {size : ℕ} {mem : Option ℕ}
    (hpc : s.pc t = .dmaAlloc id size) (hmem : ∀ a ∈ mem, pageSize ∣ a) :
    Kept (s.dmaAlloc t id size mem) := by
  have hpending : (s.pc t).pending = some (id, size) := by rw [hpc]; rfl
  have hstill : ∀ t' e, ((Function.update s.pc t .idle) t').pending = some e →
      t' ≠ t ∧ (s.pc t').pending = some e := by
    intro t' e ht'
    rw [Function.update_apply] at ht'
    split at ht'
    · exact absurd ht' (by simp [Pc.pending])
    · rename_i hne
      exact ⟨hne, ht'⟩
  cases mem with
  | none =>
    refine ⟨fun t' id' size' ht' ↦ ?_, fun t₁ t₂ id' size₁ size₂ h₁ h₂ ↦ ?_, h.allocated⟩
    · exact h.pending t' id' size' (hstill t' _ ht').2
    · exact h.apart t₁ t₂ id' size₁ size₂ (hstill t₁ _ h₁).2 (hstill t₂ _ h₂).2
  | some a =>
    have hupdate := memory_dmaAllocWc (h.pending t id size hpending).1 a
    refine ⟨fun t' id' size' ht' ↦ ?_, fun t₁ t₂ id' size₁ size₂ h₁ h₂ ↦ ?_, fun d hd ↦ ?_⟩
    · obtain ⟨hne, ht'⟩ := hstill t' _ ht'
      have hid : id' ≠ id := fun heq ↦
        hne (h.apart t' t id' size' size ht' (heq ▸ hpending))
      obtain ⟨hmem', hdma⟩ := h.pending t' id' size' ht'
      refine ⟨?_, fun d hd ↦ ?_⟩
      · rw [State.dmaAlloc, hupdate, Function.update_of_ne hid]
        exact hmem'
      · rcases List.mem_cons.mp hd with rfl | hd
        · exact hid.symm
        · exact hdma d hd
    · exact h.apart t₁ t₂ id' size₁ size₂ (hstill t₁ _ h₁).2 (hstill t₂ _ h₂).2
    · rw [State.dmaAlloc, hupdate]
      rcases List.mem_cons.mp hd with rfl | hd
      · exact ⟨Function.update_self .., hmem a rfl⟩
      · rw [Function.update_of_ne ((h.pending t id size hpending).2 d hd)]
        exact h.allocated d hd

/-- **Every step keeps the account.** -/
theorem Kept.step {a : Action} (h : Kept s) (hstep : machine.step s a = some s') : Kept s' := by
  cases step_effect hstep with
  | @objectInit t c args kzalloc filp => exact h.objectInit t c args kzalloc filp
  | @handleCreate t c id size handle hpc =>
    refine h.congr (memory_drmGemHandleCreate c id handle) rfl fun t' ↦ ?_
    rw [State.handleCreate_pc, Function.update_apply]
    split
    · rename_i ht
      rw [ht, hpc]
      rfl
    · rfl
  | dmaAlloc hpc hmem => exact h.dmaAlloc hpc hmem
  | mmap m c hd pages remapped =>
    unfold State.mmap
    split
    · exact h
    · exact h.congr (memory_drmGemCmaMmap m _) rfl fun _ ↦ rfl
  | munmap m => exact h.congr (memory_munmap m) rfl fun _ ↦ rfl
  | destroyHandle c hd => exact h.congr (memory_drmGemHandleDelete c hd) rfl fun _ ↦ rfl

/-- The account holds in every state of every run. -/
theorem kept_of_run {as : List Action} (hrun : machine.Run Machine.free start as s) : Kept s :=
  hrun.invariant (fun _ _ _ hI _ hstep ↦ hI.step hstep) kept_start

/-! ## When an object is backed -/

/-- An object is backed once its allocation has succeeded, and not before. -/
theorem Kept.backed_iff_allocated (h : Kept s) (id : ObjId) :
    Backed s id ↔ ∃ d ∈ s.dma, d.owner = id := by
  constructor
  · rintro ⟨obj, -, d, hd, howner, -⟩
    exact ⟨d, hd, howner⟩
  · rintro ⟨d, hd, rfl⟩
    obtain ⟨obj, hobj, hsize, hpaddr, hvaddr⟩ := memory_eq_some (h.allocated d hd).1
    exact ⟨obj, hobj, d, hd, rfl, hvaddr, hpaddr, Nat.le_of_eq hsize⟩

/-! ## Publishing -/

/-- A published object is not backed when it is published. -/
theorem Kept.not_safe {a : Action} (h : Kept s) (hpub : Publishes s a)
    (hstep : machine.step s a = some s') : ¬ Safe s' := by
  intro hsafe
  have hkept := h.step hstep
  cases a with
  | handleCreate t handle =>
    obtain ⟨c, id, size, hd, hpc, rfl, hfree⟩ := hpub
    simp only [machine, hpc] at hstep
    obtain rfl := Option.some_inj.mp hstep
    have hmem : ((c, hd), id) ∈ (s.handleCreate t c id size (some hd)).gem.handles := by
      rw [State.handleCreate, drmGemHandleCreate, if_neg hfree]
      exact List.mem_cons_self
    obtain ⟨d, hdma, howner⟩ := (hkept.backed_iff_allocated id).mp (hsafe.backed _ hmem)
    refine (hkept.pending t id size ?_).2 d hdma howner
    rw [State.handleCreate_pc, Function.update_self]
    rfl
  | _ => exact hpub

/-- A run that publishes nothing has no handles, and maps nothing. -/
theorem unpublished {as : List Action}
    (hrun : machine.Run (fun v a ↦ ¬ Publishes v a) start as s) :
    s.gem.handles = [] ∧ s.remaps = [] := by
  refine hrun.invariant (I := fun v ↦ v.gem.handles = [] ∧ v.remaps = []) ?_ ⟨rfl, rfl⟩
  rintro v a v' ⟨hhandles, hremaps⟩ hok hstep
  cases step_effect hstep with
  | objectInit =>
    unfold State.objectInit
    split
    · exact ⟨hhandles, hremaps⟩
    · split
      · exact ⟨hhandles, hremaps⟩
      · split <;> exact ⟨hhandles, hremaps⟩
  | @handleCreate t c id size handle hpc =>
    refine ⟨?_, hremaps⟩
    rw [State.handleCreate]
    unfold drmGemHandleCreate
    split
    · exact hhandles
    · rename_i hd
      split
      · exact hhandles
      · rename_i hfree
        exact absurd ⟨c, id, size, hd, hpc, rfl, hfree⟩ hok
  | @dmaAlloc t id size mem => cases mem <;> exact ⟨hhandles, hremaps⟩
  | mmap m c hd pages remapped =>
    have hnone : target v.gem c hd pages = none := by rw [target, hhandles]; rfl
    rw [State.mmap, hnone]
    exact ⟨hhandles, hremaps⟩
  | munmap m =>
    unfold munmap
    split <;> exact ⟨hhandles, hremaps⟩
  | destroyHandle c hd =>
    unfold drmGemHandleDelete
    rw [hhandles]
    exact ⟨hhandles, hremaps⟩

end

/-- **Published objects of my-gem-cma.**  However the steps of creations, mappings and unmappings
of any number of threads are interleaved, every object with a handle is backed and only memory of
the object is mapped for it, in every state of the run, if and only if the run publishes no
object. -/
theorem published_backed_iff {as : List Action} {s : State}
    (hrun : machine.Run Machine.free start as s) :
    (∀ bs v, bs <+: as → machine.Run Machine.free start bs v → Safe v) ↔
      machine.Run (fun v a ↦ ¬ Publishes v a) start as s := by
  refine hrun.forall_take_iff (fun bs v hv ↦ ?_) fun bs v a v' hv hstep hpub ↦ ?_
  · obtain ⟨hhandles, hremaps⟩ := unpublished hv
    refine ⟨fun e he ↦ ?_, fun r hr ↦ ?_⟩
    · rw [hhandles] at he
      exact absurd he List.not_mem_nil
    · rw [hremaps] at hr
      exact absurd hr List.not_mem_nil
  · exact (kept_of_run hv).not_safe (not_not.mp hpub) hstep

/-- A test program that gets no handle publishes nothing, and stays safe. -/
theorem published_backed_iff_noHandle :
    let as := [Action.objectInit 0 0 testArgs (some 7) true, .handleCreate 0 none,
      .dmaAlloc 0 (some 4096), .mmap 0 0 1 75 true]
    ∃ s, machine.exec start as = some s ∧
      ∀ bs v, bs <+: as → machine.Run Machine.free start bs v → Safe v := by
  refine ⟨_, rfl, (published_backed_iff (Machine.exec_eq_some_iff.mp rfl)).mpr ?_⟩
  refine .cons id rfl (.cons ?_ rfl (.cons id rfl (.cons id rfl (.nil _))))
  rintro ⟨c, i, size, h, -, hnone, -⟩
  exact absurd hnone (by simp)

/-- A second thread guesses the handle before the first has allocated the memory, and gets the
first pages of the physical address space; and if the allocation fails, the object never gets any
memory. -/
theorem reaches_unbacked :
    (∃ s, machine.exec start [.objectInit 0 0 testArgs (some 7) true, .handleCreate 0 (some 1),
        .mmap 0 0 1 75 true] = some s ∧ s.remaps = [⟨7, 0, 75⟩] ∧ ¬ Safe s) ∧
    ∃ s, machine.exec start [.objectInit 0 0 testArgs (some 7) true, .handleCreate 0 (some 1),
        .dmaAlloc 0 none] = some s ∧ ¬ Safe s := by
  refine ⟨⟨_, rfl, rfl, fun h ↦ ?_⟩, ⟨_, rfl, fun h ↦ ?_⟩⟩
  · obtain ⟨d, hd, -⟩ := h.own ⟨7, 0, 75⟩ List.mem_cons_self 0 (by decide)
    exact absurd hd List.not_mem_nil
  · obtain ⟨-, -, d, hd, -⟩ := h.backed ((0, 1), 7) List.mem_cons_self
    exact absurd hd List.not_mem_nil

end Gem.Publication
