import SampleDrivers.Drm.PropertyLookup
import SampleDrivers.Lib.Transaction

/-!
# The atomic modeset programs

`modeset-atomic-crtc` and `modeset-atomic-plane` put a picture on the screen by setting properties
of a CRTC, a connector and a plane.  The numbers of the properties are the kernel's affair: the
programs look them up by name, go on with the number 0 where there is no such name, and do not
look at what becomes of their requests.

* `Device`, `Client` — a device with its objects and properties, and a program that has opened it.
* `setCrtc`, `modesetAtomicPlane`, `modesetAtomicCrtc` — the programs, up to their last `getchar`.
* `Device.screens` — what they are for, in terms of names only.
* `shows_screens` — the first program shows this wherever it stops for the user, and leaves no
  transaction half done if it crashes.
* `programs_agree` — the other one, which sets the plane without a look at its properties, shows
  the same.
-/

set_option autoImplicit false

namespace Drm.AtomicModeset

open Prog Transaction

/-! ## The device -/

/-- The number of a CRTC, a connector or a plane. -/
abbrev ObjId := BitVec 32

/-- The number of a property. -/
abbrev PropId := BitVec 32

abbrev Value := BitVec 64

/-- The values of the properties that the objects have. -/
abbrev Values := ObjId × PropId → Option Value

/-- The values of the properties by their names. -/
abbrev Display := ObjId × String → Option Value

/-- `drmModeModeInfo`, as far as the programs read it. -/
structure Mode where
  hdisplay : BitVec 16
  vdisplay : BitVec 16
  deriving DecidableEq, Repr

/-- `struct drm_property`. -/
structure PropertyInfo where
  name : String
  /-- `DRM_MODE_PROP_ATOMIC`: only clients that want atomic commits are told of it. -/
  atomic : Bool
  deriving DecidableEq, Repr

/-- `struct drm_device`. -/
structure Device where
  /-- `DRIVER_ATOMIC` is one of the features. -/
  atomic : Bool
  crtcs : List ObjId
  connectors : List ObjId
  /-- The planes, and whether they are overlay planes. -/
  planes : List (ObjId × Bool)
  /-- The modes of a connector. -/
  modes : ObjId → List Mode
  /-- The properties of an object, in the order in which they are attached. -/
  props : ObjId → List PropId
  info : PropId → PropertyInfo
  /-- `.atomic_check`: whether the driver can go from what it has to something else, if it may set
  modes for it or if it may not. -/
  check : Bool → Display → Display → Bool
  /-- No property has the number 0. -/
  zero_notMem : ∀ obj, 0 ∉ props obj

/-- The first property of a list with a name. -/
def Device.lookup (dev : Device) (props : List PropId) (name : String) : Option PropId :=
  props.find? fun p ↦ (dev.info p).name = name

/-- The property of an object that a name stands for. -/
def Device.key (dev : Device) (i : ObjId × String) : Option (ObjId × PropId) :=
  (dev.lookup (dev.props i.1) i.2).map (Prod.mk i.1)

/-- The values by name. -/
def Device.display (dev : Device) (values : Values) : Display := view dev.key values

/-! ## A program that has opened it -/

/-- The device under a client. -/
structure Client (dev : Device) where
  values : Values
  /-- `DRM_CLIENT_CAP_UNIVERSAL_PLANES` is set. -/
  universalPlanes : Bool
  /-- `DRM_CLIENT_CAP_ATOMIC` is set. -/
  atomic : Bool
  /-- How often the client has asked `libdrm` for something. -/
  calls : ℕ
  /-- The values whenever the client has waited for its user. -/
  shown : List Values
  attached : ∀ obj prop, (values (obj, prop)).isSome ↔ prop ∈ dev.props obj

/-- The program crashes. -/
inductive Fault
  | nullDeref
  | segv
  deriving DecidableEq, Repr

/-- What the kernel decides. -/
structure Env where
  /-- The queries that fail. -/
  fails : ℕ → Bool
  /-- The frame buffer that `modeset_create_fb` makes, unless it crashes. -/
  fb : Mode → Option (BitVec 32)
  /-- What is in `blob_id` after `drmModeCreatePropertyBlob`. -/
  blob : Mode → BitVec 32

/-- A program that uses the device. -/
abbrev ClientProg (dev : Device) := Prog (Client dev) Fault

/-- A property, a value it is to have, and the object. -/
abbrev Item := (ObjId × PropId) × Value

namespace Client

variable {dev : Device}

/-- A client that has just opened the device. -/
def opened (values : Values)
    (attached : ∀ obj prop, (values (obj, prop)).isSome ↔ prop ∈ dev.props obj) : Client dev :=
  ⟨values, false, false, 0, [], attached⟩

/-- The client has made some calls. -/
def after (s : Client dev) (calls : ℕ) : Client dev := { s with calls := calls }

theorem after_after (s : Client dev) (m n : ℕ) : (s.after m).after n = s.after n := rfl

/-- A commit of the core. -/
def commit (s : Client dev) (allowModeset : Bool) (items : List Item) : Client dev :=
  { s with
    values := Transaction.commit
      (fun v v' ↦ dev.check allowModeset (dev.display v) (dev.display v')) s.values items
    attached := fun obj prop ↦ by
      rw [isSome_commit]
      exact s.attached obj prop }

end Client

section

variable {dev : Device} (env : Env)

/-! ## libdrm -/

/-- Ask for something, and get `NULL` if that fails. -/
def query {α : Type} (x : α) : ClientProg dev (Option α) := do
  let s ← get
  set (s.after (s.calls + 1))
  return if env.fails s.calls then none else some x

/-- Follow a pointer. -/
def deref {α : Type} : Option α → ClientProg dev α
  | none => throw .nullDeref
  | some x => return x

/-- The first element of an array, which is `NULL` if there is none. -/
def first {α : Type} : List α → ClientProg dev α
  | [] => throw .nullDeref
  | x :: _ => return x

/-- `drmModeGetResources`: the CRTCs and the connectors. -/
def drmModeGetResources : ClientProg dev (Option (List ObjId × List ObjId)) :=
  query env (dev.crtcs, dev.connectors)

/-- `drmModeGetPlaneResources`. -/
def drmModeGetPlaneResources : ClientProg dev (Option (List ObjId)) := do
  let s ← get
  query env ((dev.planes.filter fun p ↦ s.universalPlanes || p.2).map Prod.fst)

/-- `drmModeGetConnector`: the modes of the connector. -/
def drmModeGetConnector (connId : ObjId) : ClientProg dev (Option (List Mode)) :=
  query env (dev.modes connId)

/-- `drmModeObjectGetProperties`. -/
def drmModeObjectGetProperties (obj : ObjId) : ClientProg dev (Option (List PropId)) := do
  let s ← get
  query env ((dev.props obj).filter fun p ↦ s.atomic || !(dev.info p).atomic)

/-- `drmSetClientCap` with `DRM_CLIENT_CAP_UNIVERSAL_PLANES`. -/
def setUniversalPlanes : ClientProg dev Unit := modify fun s ↦ { s with universalPlanes := true }

/-- `drmSetClientCap` with `DRM_CLIENT_CAP_ATOMIC`, which takes a driver that has it. -/
def setAtomic : ClientProg dev Unit := modify fun s ↦ { s with atomic := dev.atomic }

/-- `drmModeAtomicAddProperty`. -/
def drmModeAtomicAddProperty (req : List Item) (obj : ObjId) (prop : PropId) (value : Value) :
    List Item :=
  req ++ [((obj, prop), value)]

/-- `drmModeAtomicCommit`, with or without `DRM_MODE_ATOMIC_ALLOW_MODESET`; it is for clients that
want atomic commits. -/
def drmModeAtomicCommit (req : List Item) (allowModeset : Bool) : ClientProg dev Unit :=
  modify fun s ↦ if s.atomic then s.commit allowModeset req else s

/-- What a plane is to show, and where: the properties of the plane by their names. -/
def planeItems (plane crtc : ObjId) (fb crtcX crtcY crtcW crtcH srcX srcY srcW srcH : BitVec 32) :
    List ((ObjId × String) × Value) :=
  [((plane, "CRTC_ID"), crtc.zeroExtend 64), ((plane, "FB_ID"), fb.zeroExtend 64),
    ((plane, "CRTC_X"), crtcX.signExtend 64), ((plane, "CRTC_Y"), crtcY.signExtend 64),
    ((plane, "CRTC_W"), crtcW.zeroExtend 64), ((plane, "CRTC_H"), crtcH.zeroExtend 64),
    ((plane, "SRC_X"), srcX.zeroExtend 64), ((plane, "SRC_Y"), srcY.zeroExtend 64),
    ((plane, "SRC_W"), srcW.zeroExtend 64), ((plane, "SRC_H"), srcH.zeroExtend 64)]

/-- What a client takes for a property, which has the number 0 if it does not find it. -/
def Device.target (dev : Device) (i : ObjId × String) : ObjId × PropId :=
  (i.1, (dev.lookup (dev.props i.1) i.2).getD 0)

/-- `drmModeSetPlane`; the `.update_plane` of a driver with `DRIVER_ATOMIC` is
`drm_atomic_helper_update_plane`, which knows the properties of the plane, and may set modes. -/
def drmModeSetPlane (plane crtc : ObjId)
    (fb crtcX crtcY crtcW crtcH srcX srcY srcW srcH : BitVec 32) : ClientProg dev Unit :=
  modify fun s ↦
    if dev.atomic then
      s.commit true ((planeItems plane crtc fb crtcX crtcY crtcW crtcH srcX srcY srcW srcH).map
        (Prod.map dev.target id))
    else s

/-- `getchar`: the user has a look at the screen. -/
def getchar : ClientProg dev Unit := modify fun s ↦ { s with shown := s.shown ++ [s.values] }

/-! ## The programs -/

/-- The answer to query `i` of a lookup in a list, if the first one is call `n` of the client. -/
def reply (dev : Device) (props : List PropId) (n i : ℕ) : Option PropertyLookup.Property :=
  props[i]?.bind fun p ↦
    if h : p ≠ 0 ∧ env.fails (n + i) = false then some ⟨p, (dev.info p).name, h.1⟩ else none

/-- `get_property_id`, which is the loop of `PropertyLookup`. -/
def getPropertyId (props : List PropId) (name : String) : ClientProg dev PropId := fun s ↦
  match PropertyLookup.getPropertyId (reply env dev props s.calls) name props ⟨[], []⟩ with
  | .ok id t => .ok id (s.after (s.calls + t.queried.length))
  | .error .nullDeref t => .error .nullDeref (s.after (s.calls + t.queried.length))

/-- `modeset_create_fb`, for a buffer of the size of the mode. -/
def modesetCreateFb (mode : Mode) : ClientProg dev (BitVec 32) :=
  match env.fb mode with
  | none => throw .segv
  | some fb => return fb

/-- What the programs know after their first half. -/
structure Ids where
  crtcId : ObjId
  planeId : ObjId
  fbId : BitVec 32
  deriving DecidableEq, Repr

/-- The first half of both programs. -/
def setCrtc : ClientProg dev Ids := do
  let res ← deref (← drmModeGetResources env)
  let crtcId ← first res.1
  let connId ← first res.2
  setUniversalPlanes
  let planes ← deref (← drmModeGetPlaneResources env)
  let planeId ← first planes
  let modes ← deref (← drmModeGetConnector env connId)
  let mode ← first modes
  let fbId ← modesetCreateFb env mode
  setAtomic
  let props ← deref (← drmModeObjectGetProperties env connId)
  let propertyCrtcId ← getPropertyId env props "CRTC_ID"
  let props ← deref (← drmModeObjectGetProperties env crtcId)
  let propertyActive ← getPropertyId env props "ACTIVE"
  let propertyModeId ← getPropertyId env props "MODE_ID"
  let blobId := env.blob mode
  let req := drmModeAtomicAddProperty [] crtcId propertyActive 1
  let req := drmModeAtomicAddProperty req crtcId propertyModeId (blobId.zeroExtend 64)
  let req := drmModeAtomicAddProperty req connId propertyCrtcId (crtcId.zeroExtend 64)
  drmModeAtomicCommit req true
  getchar
  return ⟨crtcId, planeId, fbId⟩

/-- The second half of modeset-atomic-plane. -/
def setPlane (ids : Ids) : ClientProg dev Unit := do
  let props ← deref (← drmModeObjectGetProperties env ids.planeId)
  let propertyCrtcId ← getPropertyId env props "CRTC_ID"
  let propertyFbId ← getPropertyId env props "FB_ID"
  let propertyCrtcX ← getPropertyId env props "CRTC_X"
  let propertyCrtcY ← getPropertyId env props "CRTC_Y"
  let propertyCrtcW ← getPropertyId env props "CRTC_W"
  let propertyCrtcH ← getPropertyId env props "CRTC_H"
  let propertySrcX ← getPropertyId env props "SRC_X"
  let propertySrcY ← getPropertyId env props "SRC_Y"
  let propertySrcW ← getPropertyId env props "SRC_W"
  let propertySrcH ← getPropertyId env props "SRC_H"
  let req := drmModeAtomicAddProperty [] ids.planeId propertyCrtcId (ids.crtcId.zeroExtend 64)
  let req := drmModeAtomicAddProperty req ids.planeId propertyFbId (ids.fbId.zeroExtend 64)
  let req := drmModeAtomicAddProperty req ids.planeId propertyCrtcX 50
  let req := drmModeAtomicAddProperty req ids.planeId propertyCrtcY 50
  let req := drmModeAtomicAddProperty req ids.planeId propertyCrtcW 320
  let req := drmModeAtomicAddProperty req ids.planeId propertyCrtcH 320
  let req := drmModeAtomicAddProperty req ids.planeId propertySrcX 0
  let req := drmModeAtomicAddProperty req ids.planeId propertySrcY 0
  let req := drmModeAtomicAddProperty req ids.planeId propertySrcW (320#64 <<< 16)
  let req := drmModeAtomicAddProperty req ids.planeId propertySrcH (320#64 <<< 16)
  drmModeAtomicCommit req false
  getchar

/-- `main` of modeset-atomic-plane. -/
def modesetAtomicPlane : ClientProg dev Unit := do
  let ids ← setCrtc env
  setPlane env ids

/-- `main` of modeset-atomic-crtc. -/
def modesetAtomicCrtc : ClientProg dev Unit := do
  let ids ← setCrtc env
  drmModeSetPlane ids.planeId ids.crtcId ids.fbId 50 50 320 320 0 0 (320#32 <<< 16)
    (320#32 <<< 16)
  getchar

end

/-! ## What they are for -/

namespace Device

variable (dev : Device)

/-- Set properties by their names, all of them or none. -/
def commitNamed (allowModeset : Bool) (d : Display) (items : List ((ObjId × String) × Value)) :
    Display :=
  if dev.atomic then Transaction.commit (dev.check allowModeset) d items else d

/-- What the user sees: first the CRTC with the mode, then the plane on it. -/
def screens (crtc conn plane : ObjId) (fb blob : BitVec 32) (d : Display) : List Display :=
  let d₁ := dev.commitNamed true d [((crtc, "ACTIVE"), 1), ((crtc, "MODE_ID"), blob.zeroExtend 64),
    ((conn, "CRTC_ID"), crtc.zeroExtend 64)]
  [d₁, dev.commitNamed false d₁
    (planeItems plane crtc fb 50 50 320 320 0 0 (320#32 <<< 16) (320#32 <<< 16))]

/-- The client has shown `k` screens, and the device shows the last of them, or what it showed. -/
def Showing (d : Display) (screens : List Display) (k : ℕ) (t : Client dev) : Prop :=
  t.shown.map dev.display = screens.take k ∧ (d :: screens)[k]? = some (dev.display t.values)

end Device

/-! ## Looking up -/

namespace Device

variable (dev : Device)

/-- What a client that wants atomic commits is told of the properties of an object. -/
def visible (obj : ObjId) : List PropId :=
  (dev.props obj).filter fun p ↦ dev.atomic || !(dev.info p).atomic

/-- What it takes for a property. -/
def found (i : ObjId × String) : ObjId × PropId :=
  (i.1, (dev.lookup (dev.visible i.1) i.2).getD 0)

theorem zero_notMem_visible (obj : ObjId) : 0 ∉ dev.visible obj :=
  fun h ↦ dev.zero_notMem obj (List.mem_filter.mp h).1

end Device

section

variable {dev : Device} {env : Env} {props : List PropId} {name : String} {n : ℕ}

theorem reply_eq_some {i : ℕ} {p : PropertyLookup.Property}
    (h : reply env dev props n i = some p) :
    props[i]? = some p.propId ∧ p.name = (dev.info p.propId).name := by
  obtain ⟨prop, hprop, h⟩ := Option.bind_eq_some_iff.mp h
  split at h
  · obtain rfl := Option.some_inj.mp h
    exact ⟨hprop, rfl⟩
  · cases h

/-- Only the kernel can make a query of a property fail. -/
theorem fails_of_reply_eq_none {i : ℕ} (hzero : 0 ∉ props) (hi : i < props.length)
    (h : reply env dev props n i = none) : env.fails (n + i) = true := by
  rw [reply, List.getElem?_eq_getElem hi, Option.bind_some] at h
  by_contra hfails
  have hne : props[i] ≠ 0 := fun h0 ↦ hzero (h0 ▸ List.getElem_mem hi)
  rw [dif_pos ⟨hne, Bool.eq_false_iff.mpr hfails⟩] at h
  cases h

/-- A property that was asked for and is no match has another name. -/
theorem name_ne {i : ℕ} (hi : i < props.length) (hsome : (reply env dev props n i).isSome)
    (hno : ¬ PropertyLookup.Matches (reply env dev props n) name i) :
    (dev.info props[i]).name ≠ name := by
  obtain ⟨p, hp⟩ := Option.isSome_iff_exists.mp hsome
  obtain ⟨hprop, hname⟩ := reply_eq_some hp
  rw [List.getElem?_eq_getElem hi] at hprop
  rw [Option.some_inj.mp hprop, ← hname]
  exact fun h ↦ hno ⟨p, hp, h⟩

/-- The answer of the loop is the first property of that name. -/
theorem answer_eq {id : PropId} {count : ℕ}
    (hs : PropertyLookup.Succeeds (reply env dev props n) name 0 props.length)
    (h : PropertyLookup.Answer (reply env dev props n) name 0 props.length id count) :
    id = (dev.lookup props name).getD 0 := by
  have hbefore : ∀ j, (hj : j < props.length) →
      (∀ k < j, ¬ PropertyLookup.Matches (reply env dev props n) name k) →
      ¬ PropertyLookup.Matches (reply env dev props n) name j →
      (dev.info props[j]).name ≠ name := by
    intro j hj hfirst hno
    have hsome := hs j hj fun k hk ↦ by
      rw [Nat.zero_add]
      exact hfirst k hk
    rw [Nat.zero_add] at hsome
    exact name_ne hj hsome hno
  rcases h with ⟨hi, hp, hname, hfirst⟩ | ⟨hnone⟩
  · rename_i i p
    simp only [Nat.zero_add] at hp hfirst
    obtain ⟨hprop, hpname⟩ := reply_eq_some hp
    have hfind : dev.lookup props name = some p.propId := by
      rw [Device.lookup, List.find?_eq_some_iff_getElem]
      refine ⟨decide_eq_true (hpname.symm.trans hname), i, hi, ?_, fun j hj ↦ ?_⟩
      · rw [List.getElem?_eq_getElem hi] at hprop
        exact Option.some_inj.mp hprop
      · have hne := hbefore j (Nat.lt_trans hj hi) (fun k hk ↦ hfirst k (Nat.lt_trans hk hj))
          (hfirst j hj)
        simpa only [Bool.not_eq_true', decide_eq_false_iff_not] using hne
    rw [hfind, Option.getD_some]
  · simp only [Nat.zero_add] at hnone
    have hfind : dev.lookup props name = none := by
      rw [Device.lookup, List.find?_eq_none]
      intro prop hmem
      obtain ⟨j, hj, rfl⟩ := List.mem_iff_getElem.mp hmem
      have hne := hbefore j hj (fun k hk ↦ hnone k (Nat.lt_trans hk hj)) (hnone j hj)
      simpa only [decide_eq_true_eq] using hne
    rw [hfind, Option.getD_none]

/-! ## Calls of libdrm -/

variable {α β : Type} {s : Client dev} {Q : β → Client dev → Prop} {E : Fault → Client dev → Prop}

@[simp] theorem first_cons {x : α} {xs : List α} :
    (first (x :: xs) : ClientProg dev α) = pure x := rfl

theorem wp_modify_bind {g : Client dev → Client dev} {f : Unit → ClientProg dev β} :
    wp ((modify g : ClientProg dev Unit) >>= f) Q E s ↔ wp (f ()) Q E (g s) := Iff.rfl

theorem modesetCreateFb_eq {mode : Mode} {fb : BitVec 32} (h : env.fb mode = some fb) :
    (modesetCreateFb env mode : ClientProg dev (BitVec 32)) = pure fb := by
  rw [modesetCreateFb, h]

/-- Asking for something changes nothing, and crashes only if the kernel lets it fail. -/
theorem wp_query {x : α} {f : α → ClientProg dev β} (hQ : ∀ n, wp (f x) Q E (s.after n))
    (hE : (∃ i, env.fails i = true) → ∀ n, E .nullDeref (s.after n)) :
    wp (query env x >>= fun p ↦ deref p >>= f) Q E s := by
  simp only [query, wp_bind, wp_get, wp_set, wp_pure]
  split
  · rename_i hfails
    exact hE ⟨_, hfails⟩ _
  · exact hQ _

/-- A client that has asked for all planes is told of them. -/
theorem wp_getPlaneResources {f : List ObjId → ClientProg dev β} (hs : s.universalPlanes = true)
    (hQ : ∀ n, wp (f (dev.planes.map Prod.fst)) Q E (s.after n))
    (hE : (∃ i, env.fails i = true) → ∀ n, E .nullDeref (s.after n)) :
    wp (drmModeGetPlaneResources env >>= fun p ↦ deref p >>= f) Q E s := by
  have hall : dev.planes.filter (fun p ↦ s.universalPlanes || p.2) = dev.planes := by
    rw [List.filter_eq_self]
    intro p _
    rw [hs, Bool.true_or]
  refine wp_query (fun n ↦ ?_) hE
  rw [hall]
  exact hQ n

/-- A client that wants atomic commits is told of the properties that are for them. -/
theorem wp_getProperties {obj : ObjId} {f : List PropId → ClientProg dev β}
    (hs : s.atomic = dev.atomic) (hQ : ∀ n, wp (f (dev.visible obj)) Q E (s.after n))
    (hE : (∃ i, env.fails i = true) → ∀ n, E .nullDeref (s.after n)) :
    wp (drmModeObjectGetProperties env obj >>= fun p ↦ deref p >>= f) Q E s := by
  refine wp_query (fun n ↦ ?_) hE
  rw [hs]
  exact hQ n

/-- Looking for a property changes nothing either. -/
theorem wp_getPropertyId {f : PropId → ClientProg dev β} (hzero : 0 ∉ props)
    (hQ : ∀ n, wp (f ((dev.lookup props name).getD 0)) Q E (s.after n))
    (hE : (∃ i, env.fails i = true) → ∀ n, E .nullDeref (s.after n)) :
    wp (getPropertyId env props name >>= f) Q E s := by
  have hloop : wp (getPropertyId env props name >>= f) Q E s ↔
      wp (PropertyLookup.getPropertyId (reply env dev props s.calls) name props)
        (fun id t ↦ wp (f id) Q E (s.after (s.calls + t.queried.length)))
        (fun _ t ↦ E .nullDeref (s.after (s.calls + t.queried.length))) ⟨[], []⟩ := by
    rw [wp_bind]
    simp only [wp, getPropertyId]
    rcases PropertyLookup.getPropertyId (reply env dev props s.calls) name props ⟨[], []⟩ with
      ⟨id, t⟩ | ⟨⟨⟩, t⟩
    · rfl
    · rfl
  rw [hloop]
  by_cases hs : PropertyLookup.Succeeds (reply env dev props s.calls) name 0 props.length
  · refine wp_imp (PropertyLookup.wp_from (s := ⟨[], []⟩) hs) fun id t ht ↦ ?_
    obtain ⟨count, hanswer, -, -⟩ := ht
    rw [answer_eq hs hanswer]
    exact hQ _
  · have hfails : ∃ i, env.fails i = true := by
      simp only [PropertyLookup.Succeeds, not_forall] at hs
      obtain ⟨i, hi, -, hnone⟩ := hs
      rw [Nat.zero_add] at hnone
      exact ⟨_, fails_of_reply_eq_none hzero hi (Option.not_isSome_iff_eq_none.mp hnone)⟩
    have hcrash : ¬ wp (PropertyLookup.getPropertyId (reply env dev props s.calls) name props)
        (fun _ _ ↦ True) (fun _ _ ↦ False) ⟨[], []⟩ :=
      fun h ↦ hs (PropertyLookup.succeeds_of_wp h)
    exact wp_mono (not_wp.mp hcrash) (fun _ _ h ↦ absurd trivial h) fun _ _ _ ↦ hE hfails _

end

/-! ## Commits -/

namespace Device

variable (dev : Device)

theorem found_eq_target (h : dev.atomic = true) : dev.found = dev.target := by
  funext i
  have hvisible : dev.visible i.1 = dev.props i.1 := by
    rw [visible, List.filter_eq_self]
    intro p _
    rw [h, Bool.true_or]
  rw [found, target, hvisible]

/-- No property has two names. -/
theorem unambiguous : Unambiguous dev.key := by
  rintro ⟨obj, name⟩ ⟨obj', name'⟩ k h h'
  obtain ⟨p, hp, rfl⟩ := Option.map_eq_some_iff.mp h
  obtain ⟨p', hp', hk⟩ := Option.map_eq_some_iff.mp h'
  obtain ⟨hobj, rfl⟩ := Prod.mk.inj hk
  have hname := List.find?_some hp
  have hname' := List.find?_some hp'
  rw [decide_eq_true_eq] at hname hname'
  exact Prod.ext hobj.symm (hname.symm.trans hname')

variable {dev}

theorem translates (s : Client dev) : Translates dev.key s.values dev.target where
  known i k h := by
    obtain ⟨p, hp, rfl⟩ := Option.map_eq_some_iff.mp h
    rw [target, hp, Option.getD_some]
  unknown i h := by
    rw [target, Option.map_eq_none_iff.mp h, Option.getD_none, ← Option.not_isSome_iff_eq_none,
      s.attached]
    exact dev.zero_notMem i.1

end Device

section

variable {dev : Device} {s : Client dev} {allowModeset : Bool}
  {items : List ((ObjId × String) × Value)}

/-- A commit of properties that were found by name sets what they are the names of. -/
theorem display_commit (h : dev.atomic = true) :
    dev.display (s.commit allowModeset (items.map (Prod.map dev.target id))).values =
      dev.commitNamed allowModeset (dev.display s.values) items := by
  rw [Device.commitNamed, if_pos h]
  exact view_commit dev.unambiguous (dev.translates s) (dev.check allowModeset)

/-- **A request by numbers** is one by names, whether or not there are such names and whether or
not the driver takes requests. -/
theorem wp_drmModeAtomicCommit {Q : Unit → Client dev → Prop} {E : Fault → Client dev → Prop}
    (items : List ((ObjId × String) × Value)) {req : List Item}
    (hreq : req = items.map (Prod.map dev.found id)) (hs : s.atomic = dev.atomic)
    (hQ : ∀ t : Client dev, dev.display t.values =
      dev.commitNamed allowModeset (dev.display s.values) items → t.shown = s.shown →
      t.atomic = s.atomic → Q () t) :
    wp (drmModeAtomicCommit req allowModeset) Q E s := by
  rw [hreq, drmModeAtomicCommit, wp_modify]
  split
  · rename_i hatomic
    rw [hs] at hatomic
    rw [dev.found_eq_target hatomic]
    exact hQ _ (display_commit hatomic) rfl rfl
  · rename_i hnot
    rw [hs] at hnot
    refine hQ _ ?_ rfl rfl
    rw [Device.commitNamed, if_neg hnot]

end

/-! ## The programs -/

section

variable {dev : Device} {env : Env} {s : Client dev} {crtc conn plane : ObjId}
  {crtcs conns : List ObjId} {planes : List (ObjId × Bool)} {overlay : Bool} {mode : Mode}
  {modes : List Mode} {fb : BitVec 32}

/-- The first half sets the CRTC, or crashes before it does. -/
theorem wp_setCrtc {Q : Ids → Client dev → Prop} {E : Fault → Client dev → Prop}
    (hcrtc : dev.crtcs = crtc :: crtcs) (hconn : dev.connectors = conn :: conns)
    (hplane : dev.planes = (plane, overlay) :: planes) (hmode : dev.modes conn = mode :: modes)
    (hfb : env.fb mode = some fb)
    (hQ : ∀ t : Client dev, dev.display t.values = dev.commitNamed true (dev.display s.values)
        [((crtc, "ACTIVE"), 1), ((crtc, "MODE_ID"), (env.blob mode).zeroExtend 64),
          ((conn, "CRTC_ID"), crtc.zeroExtend 64)] →
      t.shown = s.shown ++ [t.values] → t.atomic = dev.atomic → Q ⟨crtc, plane, fb⟩ t)
    (hE : (∃ i, env.fails i = true) → ∀ e (t : Client dev), t.values = s.values →
      t.shown = s.shown → E e t) :
    wp (setCrtc env) Q E s := by
  rw [setCrtc]
  refine wp_query (fun n ↦ ?_) fun h n ↦ hE h _ _ rfl rfl
  simp only [hcrtc, hconn, first_cons, pure_bind, setUniversalPlanes, wp_modify_bind]
  refine wp_getPlaneResources rfl (fun n ↦ ?_) fun h n ↦ hE h _ _ rfl rfl
  rw [hplane, List.map_cons, first_cons, pure_bind]
  refine wp_query (fun n ↦ ?_) fun h n ↦ hE h _ _ rfl rfl
  rw [hmode, first_cons, pure_bind, modesetCreateFb_eq hfb, pure_bind, setAtomic, wp_modify_bind]
  refine wp_getProperties rfl (fun n ↦ ?_) fun h n ↦ hE h _ _ rfl rfl
  refine wp_getPropertyId (dev.zero_notMem_visible conn) (fun n ↦ ?_) fun h n ↦ hE h _ _ rfl rfl
  refine wp_getProperties rfl (fun n ↦ ?_) fun h n ↦ hE h _ _ rfl rfl
  refine wp_getPropertyId (dev.zero_notMem_visible crtc) (fun n ↦ ?_) fun h n ↦ hE h _ _ rfl rfl
  refine wp_getPropertyId (dev.zero_notMem_visible crtc) (fun n ↦ ?_) fun h n ↦ hE h _ _ rfl rfl
  rw [wp_bind]
  refine wp_drmModeAtomicCommit [((crtc, "ACTIVE"), 1),
    ((crtc, "MODE_ID"), (env.blob mode).zeroExtend 64),
    ((conn, "CRTC_ID"), crtc.zeroExtend 64)] rfl rfl fun t ht hshown hatomic ↦ ?_
  rw [getchar, wp_modify_bind, wp_pure]
  exact hQ _ ht (congrArg (· ++ [t.values]) hshown) hatomic

/-- The second half of modeset-atomic-plane sets the plane, or crashes before it does. -/
theorem wp_setPlane {Q : Unit → Client dev → Prop} {E : Fault → Client dev → Prop}
    (hs : s.atomic = dev.atomic)
    (hQ : ∀ t : Client dev, dev.display t.values = dev.commitNamed false (dev.display s.values)
        (planeItems plane crtc fb 50 50 320 320 0 0 (320#32 <<< 16) (320#32 <<< 16)) →
      t.shown = s.shown ++ [t.values] → Q () t)
    (hE : (∃ i, env.fails i = true) → ∀ e (t : Client dev), t.values = s.values →
      t.shown = s.shown → E e t) :
    wp (setPlane env ⟨crtc, plane, fb⟩) Q E s := by
  rw [setPlane]
  refine wp_getProperties hs (fun n ↦ ?_) fun h n ↦ hE h _ _ rfl rfl
  iterate 10
    refine wp_getPropertyId (dev.zero_notMem_visible plane) (fun n ↦ ?_) fun h n ↦ hE h _ _ rfl rfl
    rw [Client.after_after]
  rw [wp_bind]
  refine wp_drmModeAtomicCommit (planeItems plane crtc fb 50 50 320 320 0 0 (320#32 <<< 16)
    (320#32 <<< 16)) ?_ hs fun t ht hshown _ ↦ ?_
  · have h50 : (50 : BitVec 32).signExtend 64 = 50 := by decide
    have h320 : (320 : BitVec 32).zeroExtend 64 = 320 := by decide
    have h0 : (0 : BitVec 32).zeroExtend 64 = 0 := by decide
    have hsrc : (320#32 <<< 16).zeroExtend 64 = 320#64 <<< 16 := by decide
    simp only [drmModeAtomicAddProperty, planeItems, List.nil_append, List.cons_append,
      List.map_cons, List.map_nil, Prod.map_apply, id, Device.found, h50, h320, h0, hsrc]
  rw [getchar, wp_modify]
  exact hQ _ ht (congrArg (· ++ [t.values]) hshown)

namespace Device

variable {d : Display} {screens : List Display} {k : ℕ} {t t' : Client dev}

theorem Showing.congr (h : dev.Showing d screens k t) (hvalues : t'.values = t.values)
    (hshown : t'.shown = t.shown) : dev.Showing d screens k t' := by
  rw [Showing, hvalues, hshown]
  exact h

/-- The user has seen one more. -/
theorem Showing.next (h : dev.Showing d screens k t) (hshown : t'.shown = t.shown ++ [t'.values])
    (hk : screens[k]? = some (dev.display t'.values)) : dev.Showing d screens (k + 1) t' := by
  refine ⟨?_, ?_⟩
  · rw [hshown, List.map_append, h.1, List.take_add_one, hk]
    rfl
  · rw [List.getElem?_cons_succ, hk]

end Device

/-- A device with one CRTC, one connector and a primary plane. -/
def oneDisplay : Device where
  atomic := true
  crtcs := [36]
  connectors := [37]
  planes := [(31, false)]
  modes _ := [⟨1024, 768⟩]
  props obj := match obj.toNat with
    | 31 => [7, 17, 20, 13, 14, 15, 16, 9, 10, 11, 12]
    | 36 => [22, 23]
    | 37 => [1, 20]
    | _ => []
  info prop := match prop.toNat with
    | 1 => ⟨"DPMS", false⟩
    | 7 => ⟨"type", false⟩
    | 9 => ⟨"SRC_X", true⟩
    | 10 => ⟨"SRC_Y", true⟩
    | 11 => ⟨"SRC_W", true⟩
    | 12 => ⟨"SRC_H", true⟩
    | 13 => ⟨"CRTC_X", true⟩
    | 14 => ⟨"CRTC_Y", true⟩
    | 15 => ⟨"CRTC_W", true⟩
    | 16 => ⟨"CRTC_H", true⟩
    | 17 => ⟨"FB_ID", true⟩
    | 20 => ⟨"CRTC_ID", true⟩
    | 22 => ⟨"ACTIVE", true⟩
    | _ => ⟨"MODE_ID", true⟩
  check _ _ _ := true
  zero_notMem obj := by
    split
    · decide
    · decide
    · decide
    · decide

/-- It shows nothing yet. -/
def dark : Values := fun i ↦ if i.2 ∈ oneDisplay.props i.1 then some 0 else none

theorem dark_attached (obj : ObjId) (prop : PropId) :
    (dark (obj, prop)).isSome ↔ prop ∈ oneDisplay.props obj := by
  rw [dark]
  split
  · rename_i h
    exact iff_of_true rfl h
  · rename_i h
    exact iff_of_false Bool.false_ne_true h

/-- A kernel that answers everything. -/
def answering : Env := ⟨fun _ ↦ false, fun _ ↦ some 41, fun _ ↦ 42⟩

/-- **modeset-atomic-plane sets by name what it is to show**, whatever the numbers of the
properties are, in requests that are done as a whole or not at all; if a query fails it crashes,
with what it has shown so far on the screen. -/
theorem shows_screens {values : Values}
    {attached : ∀ obj prop, (values (obj, prop)).isSome ↔ prop ∈ dev.props obj}
    (hcrtc : dev.crtcs = crtc :: crtcs) (hconn : dev.connectors = conn :: conns)
    (hplane : dev.planes = (plane, overlay) :: planes) (hmode : dev.modes conn = mode :: modes)
    (hfb : env.fb mode = some fb) :
    wp (modesetAtomicPlane env)
      (fun _ ↦ dev.Showing (dev.display values)
        (dev.screens crtc conn plane fb (env.blob mode) (dev.display values)) 2)
      (fun _ t ↦ (∃ i, env.fails i = true) ∧ ∃ k < 2, dev.Showing (dev.display values)
        (dev.screens crtc conn plane fb (env.blob mode) (dev.display values)) k t)
      (.opened values attached) := by
  have hopened : dev.Showing (dev.display values)
      (dev.screens crtc conn plane fb (env.blob mode) (dev.display values)) 0
      (.opened values attached) := ⟨rfl, rfl⟩
  rw [modesetAtomicPlane, wp_bind]
  refine wp_setCrtc hcrtc hconn hplane hmode hfb (fun t ht hshown hatomic ↦ ?_)
    fun h _ t ht hshown ↦ ⟨h, 0, Nat.zero_lt_two, hopened.congr ht hshown⟩
  have hfirst : dev.Showing (dev.display values)
      (dev.screens crtc conn plane fb (env.blob mode) (dev.display values)) 1 t :=
    hopened.next hshown (congrArg some ht.symm)
  refine wp_setPlane hatomic (fun t' ht' hshown' ↦ ?_)
    fun h _ t' ht' hshown' ↦ ⟨h, 1, Nat.one_lt_two, hfirst.congr ht' hshown'⟩
  rw [ht] at ht'
  exact hfirst.next hshown' (congrArg some ht'.symm)

/-- The CRTC is on from the first screen on, and the plane has the buffer on the second. -/
theorem shows_screens_oneDisplay : ∃ ds : List Display,
    wp (modesetAtomicPlane answering) (fun _ t ↦ t.shown.map oneDisplay.display = ds)
      (fun _ _ ↦ False) (.opened dark dark_attached) ∧
      ds.map (· (36, "ACTIVE")) = [some 1, some 1] ∧
      ds.map (· (31, "FB_ID")) = [some 0, some 41] := by
  refine ⟨oneDisplay.screens 36 37 31 41 42 (oneDisplay.display dark), ?_, ?_, ?_⟩
  · apply wp_mono
    · apply @shows_screens oneDisplay answering 36 37 31 [] [] [] false ⟨1024, 768⟩ [] 41 dark
        dark_attached rfl rfl rfl rfl rfl
    · exact fun _ _ h ↦ h.1
    · rintro _ _ ⟨⟨_, h⟩, -⟩
      exact absurd h Bool.false_ne_true
  · decide
  · decide

/-- A plane alone is set without a look at the modes. -/
theorem commitNamed_planeItems {d : Display} {x y w h srcX srcY srcW srcH : BitVec 32}
    (hcheck : ∀ d d' : Display, (∀ obj name, obj ≠ plane → d' (obj, name) = d (obj, name)) →
      dev.check true d d' = dev.check false d d') :
    dev.commitNamed true d (planeItems plane crtc fb x y w h srcX srcY srcW srcH) =
      dev.commitNamed false d (planeItems plane crtc fb x y w h srcX srcY srcW srcH) := by
  have hothers : ∀ obj name, obj ≠ plane →
      writeAll d (planeItems plane crtc fb x y w h srcX srcY srcW srcH) (obj, name) =
        d (obj, name) := by
    intro obj name hne
    have hobj : ∀ item ∈ planeItems plane crtc fb x y w h srcX srcY srcW srcH,
        item.1.1 = plane := by
      simp [planeItems]
    refine writeAll_of_ne fun item hitem heq ↦ hne ?_
    rw [← hobj item hitem, ← heq]
  rw [Device.commitNamed, Device.commitNamed, commit_congr (hcheck _ _ hothers)]

/-- **modeset-atomic-crtc shows the same**, though it leaves it to the kernel to set the plane, on
every driver with atomic commits for which a plane alone is no matter of modes. -/
theorem setPlane_shows_screens {values : Values}
    {attached : ∀ obj prop, (values (obj, prop)).isSome ↔ prop ∈ dev.props obj}
    (hcrtc : dev.crtcs = crtc :: crtcs) (hconn : dev.connectors = conn :: conns)
    (hplane : dev.planes = (plane, overlay) :: planes) (hmode : dev.modes conn = mode :: modes)
    (hfb : env.fb mode = some fb) (hatomic : dev.atomic = true)
    (hcheck : ∀ d d' : Display, (∀ obj name, obj ≠ plane → d' (obj, name) = d (obj, name)) →
      dev.check true d d' = dev.check false d d') :
    wp (modesetAtomicCrtc env)
      (fun _ ↦ dev.Showing (dev.display values)
        (dev.screens crtc conn plane fb (env.blob mode) (dev.display values)) 2)
      (fun _ t ↦ (∃ i, env.fails i = true) ∧ dev.Showing (dev.display values)
        (dev.screens crtc conn plane fb (env.blob mode) (dev.display values)) 0 t)
      (.opened values attached) := by
  have hopened : dev.Showing (dev.display values)
      (dev.screens crtc conn plane fb (env.blob mode) (dev.display values)) 0
      (.opened values attached) := ⟨rfl, rfl⟩
  rw [modesetAtomicCrtc, wp_bind]
  refine wp_setCrtc hcrtc hconn hplane hmode hfb (fun t ht hshown _ ↦ ?_)
    fun h _ t ht hshown ↦ ⟨h, hopened.congr ht hshown⟩
  have hfirst : dev.Showing (dev.display values)
      (dev.screens crtc conn plane fb (env.blob mode) (dev.display values)) 1 t :=
    hopened.next hshown (congrArg some ht.symm)
  rw [drmModeSetPlane, wp_modify_bind, if_pos hatomic, getchar, wp_modify]
  refine hfirst.next rfl (congrArg some ?_)
  show _ = dev.display (t.commit true _).values
  rw [display_commit hatomic, commitNamed_planeItems hcheck, ht]
  rfl

theorem setPlane_shows_screens_oneDisplay : ∃ ds : List Display,
    wp (modesetAtomicCrtc answering) (fun _ t ↦ t.shown.map oneDisplay.display = ds)
      (fun _ _ ↦ False) (.opened dark dark_attached) ∧
      ds.map (· (36, "ACTIVE")) = [some 1, some 1] ∧
      ds.map (· (31, "FB_ID")) = [some 0, some 41] := by
  refine ⟨oneDisplay.screens 36 37 31 41 42 (oneDisplay.display dark), ?_, ?_, ?_⟩
  · apply wp_mono
    · apply @setPlane_shows_screens oneDisplay answering 36 37 31 [] [] [] false ⟨1024, 768⟩ [] 41
        dark dark_attached rfl rfl rfl rfl rfl rfl fun _ _ _ ↦ rfl
    · exact fun _ _ h ↦ h.1
    · rintro _ _ ⟨⟨_, h⟩, -⟩
      exact absurd h Bool.false_ne_true
  · decide
  · decide

end

end Drm.AtomicModeset
