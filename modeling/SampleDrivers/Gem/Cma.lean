import Mathlib.Logic.Function.Basic
import SampleDrivers.Kernel.Basic

/-!
# The my-gem-cma driver

`drm/driver/cma/dumb.c` gives the DRM core two callbacks that deal in GEM objects:
`drm_gem_cma_dumb_create`, which makes an object, publishes a handle for it and allocates its DMA
memory, and `drm_gem_cma_mmap`, which maps one.  The other entries of its tables are empty: its
`drm_gem_cma_vm_ops` has neither `open` nor `close`, and `mygem_driver` has no callback to free an
object.

This file has the driver's functions, together with what the DRM core does around them: reference
counts, the handle tables of the clients, and mappings.  The environment's choices (which
allocation succeeds, which handle is free) come with each call.
-/

set_option autoImplicit false

namespace Gem

open Kernel

/-- A GEM object, by its address. -/
abbrev ObjId := ℕ
/-- A process with the device open. -/
abbrev Client := ℕ
abbrev Handle := ℕ
/-- A mapping (a vma). -/
abbrev MapId := ℕ

structure CmaObject where
  refCount : ℕ
  size : ℕ
  /-- `base.filp` was set up. -/
  filp : Bool
  /-- `paddr`, zero until the DMA memory is allocated. -/
  paddr : ℕ
  /-- `vaddr`, `NULL` until the DMA memory is allocated. -/
  vaddr : Ptr ℕ
  /-- References taken by `drm_gem_mmap`. -/
  mmapRefs : ℕ
  /-- How often the object was freed. -/
  frees : ℕ

/-- The objects of the device and what refers to them. -/
structure World where
  objects : ObjId → Option CmaObject
  /-- The handle tables of the clients. -/
  handles : List ((Client × Handle) × ObjId)
  maps : List (MapId × ObjId)

/-- A freshly loaded driver. -/
def mygemInit : World := ⟨fun _ ↦ none, [], []⟩

namespace World

def handlesOf (w : World) (id : ObjId) : ℕ := w.handles.countP (·.2 = id)

def mapsOf (w : World) (id : ObjId) : ℕ := w.maps.countP (·.2 = id)

def modify (w : World) (id : ObjId) (f : CmaObject → CmaObject) : World :=
  { w with objects := Function.update w.objects id ((w.objects id).map f) }

end World

/-! ## The tables -/

/-- The entries of `vm_operations_struct` that maintain references. -/
structure VmOps where
  open? : Option (World → ObjId → World)
  close? : Option (World → ObjId → World)

/-- The entries of `struct drm_driver` that decide what becomes of an object. -/
structure DrmDriver where
  gemVmOps : VmOps
  /-- `gem_free_object` or `gem_free_object_unlocked`. -/
  gemFreeObject : Option (CmaObject → CmaObject)

def drmGemCmaVmOps : VmOps := ⟨none, none⟩

def mygemDriver : DrmDriver := ⟨drmGemCmaVmOps, none⟩

/-! ## The DRM core -/

def drmGemObjectGet (w : World) (id : ObjId) : World :=
  w.modify id fun obj ↦ { obj with refCount := obj.refCount + 1 }

/-- `drm_gem_object_put`: at zero the driver's callback frees the object, if there is one. -/
def drmGemObjectPut (driver : DrmDriver) (w : World) (id : ObjId) : World :=
  w.modify id fun obj ↦
    if obj.refCount = 1 then (driver.gemFreeObject.getD fun o ↦ o) { obj with refCount := 0 }
    else { obj with refCount := obj.refCount - 1 }

/-- `drm_gem_handle_create`: publish a handle (`none`: the table is full) with a reference of its
own. -/
def drmGemHandleCreate (w : World) (c : Client) (id : ObjId) (handle : Option Handle) :
    Option Handle × World :=
  match handle with
  | none => (none, w)
  | some h =>
    if ((c, h) ∈ w.handles.map Prod.fst) then (none, w)
    else (some h, drmGemObjectGet { w with handles := ((c, h), id) :: w.handles } id)

/-- Destroying a handle drops its reference. -/
def drmGemHandleDelete (driver : DrmDriver) (w : World) (c : Client) (h : Handle) : World :=
  match w.handles.find? (·.1 = (c, h)) with
  | none => w
  | some entry => drmGemObjectPut driver { w with handles := w.handles.erase entry } entry.2

/-- `drm_gem_object_init`: the object appears with one reference.  It stops the machine on a size
that is not a whole number of pages; when it fails to set up the backing file it has still
initialised the object. -/
def drmGemObjectInit (w : World) (id : ObjId) (size : ℕ) (filp : Bool) : World :=
  { w with objects := Function.update w.objects id (some
      { refCount := 1, size, filp, paddr := 0, vaddr := .null, mmapRefs := 0, frees := 0 }) }

/-- `dma_alloc_wc` into the object, `none` when there is no memory. -/
def dmaAllocWc (w : World) (id : ObjId) (mem : Option ℕ) : World :=
  match mem with
  | none => w
  | some a => w.modify id fun obj ↦ { obj with paddr := a, vaddr := .obj a }

/-! ## The driver -/

/-- The arguments of `DRM_IOCTL_MODE_CREATE_DUMB`. -/
structure DumbArgs where
  width : BitVec 32
  height : BitVec 32
  bpp : BitVec 32

/-- `args->pitch`, in 32-bit arithmetic. -/
def DumbArgs.pitch (args : DumbArgs) : BitVec 32 := args.width * args.bpp / 8

/-- `args->size`: the 32-bit product, stored in 64 bits. -/
def DumbArgs.size (args : DumbArgs) : ℕ := (args.pitch * args.height).toNat

/-- What the environment decides in one call of `drm_gem_cma_dumb_create`. -/
structure CreateOutcome where
  /-- The address `kzalloc` returns, `none` for `NULL`. -/
  kzalloc : Option ObjId
  /-- `drm_gem_object_init` succeeds. -/
  init : Bool
  /-- The free handle `drm_gem_handle_create` finds. -/
  handle : Option Handle
  /-- The memory `dma_alloc_wc` returns. -/
  dma : Option ℕ

/-- How a call of a driver function ends. -/
inductive Ends
  /-- With a return value. -/
  | ret (r : ℤ)
  /-- In a `NULL` dereference. -/
  | oops
  /-- In a `BUG_ON` of the core. -/
  | bug
  deriving DecidableEq, Repr

/-- `drm_gem_cma_dumb_create`.  No result of the four steps is looked at.  The core checks the size
before it touches the object. -/
def drmGemCmaDumbCreate (w : World) (c : Client) (args : DumbArgs) (o : CreateOutcome) :
    Ends × World :=
  if args.size % pageSize ≠ 0 then (.bug, w)
  else
    match o.kzalloc with
    | none => (.oops, w)
    | some id =>
      if (w.objects id).isSome then (.oops, w)
      else
        let w₁ := drmGemObjectInit w id args.size o.init
        let w₂ := (drmGemHandleCreate w₁ c id o.handle).2
        (.ret 0, dmaAllocWc w₂ id o.dma)

/-- What `drm_gem_mmap` and `remap_pfn_range` do in one call of `drm_gem_cma_mmap`. -/
structure MmapOutcome where
  /-- The object the offset of the vma names, if the client may map that much of it. -/
  target : Option ObjId
  /-- `remap_pfn_range` succeeds. -/
  remapped : Bool

/-- `drm_gem_cma_mmap`: `drm_gem_mmap` takes a reference for the mapping or fails and leaves
`vm_private_data` `NULL`, which is then dereferenced.  If the remap fails there is no mapping. -/
def drmGemCmaMmap (w : World) (m : MapId) (o : MmapOutcome) : Ends × World :=
  match o.target with
  | none => (.oops, w)
  | some id =>
    match w.objects id with
    | none => (.oops, w)
    | some _ =>
      let w₁ := w.modify id fun obj ↦
        { obj with refCount := obj.refCount + 1, mmapRefs := obj.mmapRefs + 1 }
      if o.remapped then (.ret 0, { w₁ with maps := (m, id) :: w₁.maps })
      else (.ret (-EINVAL), w₁)

/-- `fork` copies a mapping and calls the `open` of its `vm_ops`. -/
def forkMapping (driver : DrmDriver) (w : World) (m m' : MapId) : World :=
  match w.maps.find? (·.1 = m) with
  | none => w
  | some entry =>
    (driver.gemVmOps.open?.getD fun v _ ↦ v) { w with maps := (m', entry.2) :: w.maps } entry.2

/-- `munmap` removes a mapping and calls the `close` of its `vm_ops`. -/
def munmap (driver : DrmDriver) (w : World) (m : MapId) : World :=
  match w.maps.find? (·.1 = m) with
  | none => w
  | some entry =>
    (driver.gemVmOps.close?.getD fun v _ ↦ v) { w with maps := w.maps.erase entry } entry.2

end Gem
