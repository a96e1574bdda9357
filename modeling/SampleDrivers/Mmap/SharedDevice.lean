import SampleDrivers.Lib.SharedStore
import SampleDrivers.Mmap.AllocOnce

/-!
# The mmap demo drivers as one shared device

Inside its buffer, each of the four drivers is the same thing: three pages of memory that every
process sees through whatever areas it maps.  mmap1 maps the pages when the area is made, mmap2 and
mmap4 when they are touched, and mmap3 does not even allocate them before.

* `Driver`, `World`, `World.next` — processes that map areas of a driver's buffer, unmap them, and
  read and write them.  A thread that touches a page which is not there enters the handler, whose
  steps (`Handler.next`) any others may come between; only then it can access the page.
* `handler_alone` — the steps of a handler in a row are `my_fault`.
* `meaning` — what an operation means for a store with the bytes of three pages.  A fault and the
  steps of its handler mean nothing.
* `Fine` — areas lie in the buffer and are shared, the kernel finds memory, and the handlers keep
  out of each other's way as far as the driver needs it: mmap2 and mmap3 need it when two of them
  serve one page of an area, and mmap3 when two of them find one entry of its table empty.
* `implements_device` — under that guard, each driver implements the store.
* `reads_eq_device` — so it shows the processes what the store shows, and no signal.
* `drivers_agree` — no process can tell the drivers apart.
* `reads_written` — what a process writes through one area it reads through another one that is
  mapped after the first is gone, as the test program does.

The bytes mmap3 finds in its pages are taken as given in advance: `content i` is what page `i` will
contain when it is allocated.
-/

set_option autoImplicit false

namespace Mmap.SharedDevice

open Kernel

/-! ## Drivers -/

/-- The drivers, with the buffers of those that have one. -/
inductive Driver
  | mmap1 (b : Buffer)
  | mmap2 (b : Buffer)
  | mmap3
  | mmap4 (b : Buffer)

/-- What the kernel finds for a handler. -/
structure FaultOutcome where
  /-- The page `alloc_page` returns, with what it contains. -/
  alloc : Option (Page × (ℕ → UInt8))
  /-- There is memory for the page table. -/
  mem : Bool

namespace Driver

/-- `my_mmap`. -/
def myMmap (d : Driver) (vma : Vma) (mem : Bool) (pt : PageTable) : ℤ × PageTable :=
  match d with
  | .mmap1 b => mmap1MyMmap b vma mem pt
  | _ => (0, pt)

/-- `my_fault`; where there is no handler, the core answers `SIGBUS`. -/
def myFault (d : Driver) (pages : Pages) (vmf : VmFault) (o : FaultOutcome) (pt : PageTable) :
    Handled × Pages :=
  match d with
  | .mmap1 _ => (⟨.sigbus, none, none, true, pt⟩, pages)
  | .mmap2 b => (mmap2MyFault b vmf o.mem pt, pages)
  | .mmap3 => mmap3MyFault pages vmf (o.alloc.map Prod.fst) o.mem pt
  | .mmap4 b => (mmap4MyFault b vmf pt, pages)

/-- What is left of `my_fault` when nothing has to be allocated any more.  For mmap4 it is the core
that maps the page, unless another one has been mapped there meanwhile. -/
def finish (d : Driver) (pages : Pages) (vmf : VmFault) (mem : Bool) (pt : PageTable) : Handled :=
  match d with
  | .mmap1 _ => ⟨.sigbus, none, none, true, pt⟩
  | .mmap2 b => mmap2MyFault b vmf mem pt
  | .mmap3 =>
    if h : vmf.pgoff < 3 then insertResolved vmf (pages ⟨vmf.pgoff, h⟩) mem pt
    else ⟨.oops, none, none, false, pt⟩
  | .mmap4 b =>
    if (pt.pte vmf.address).isSome then { mmap4MyFault b vmf pt with installed := none, pt := pt }
    else mmap4MyFault b vmf pt

/-- Page `i` of the device, if it is there; `pages` is the table of mmap3. -/
def own (d : Driver) (pages : Pages) (i : ℕ) : Option Page :=
  match d with
  | .mmap1 b => b.page? i
  | .mmap2 b => b.page? i
  | .mmap3 => if h : i < 3 then pages ⟨i, h⟩ else none
  | .mmap4 b => b.page? i

/-- Where `my_fault` begins. -/
def first : Driver → AllocOnce.Point
  | .mmap3 => .test
  | _ => .insert

/-- The handler maps the page itself, and does not expect to find another one there. -/
def MapsItself : Driver → Prop
  | .mmap4 _ => False
  | _ => True

end Driver

/-! ## Processes -/

/-- A thread of any process. -/
abbrev Tid := ℕ

/-- A handler that is running: the area of the fault, and how far it has come. -/
structure Handler where
  area : ℕ
  vma : Vma
  addr : ℕ
  inside : Inside vma addr
  next : AllocOnce.Point

namespace Handler

variable (h : Handler)

/-- What the handler is given. -/
def vmf : VmFault := vmFault h.vma h.addr

/-- The handler goes on at another point. -/
def goto (p : AllocOnce.Point) : Handler := { h with next := p }

end Handler

/-- The driver and the processes. -/
structure World where
  ram : Page → ℕ → UInt8
  /-- The table of mmap3. -/
  pages : Pages
  /-- The areas, of whatever processes. -/
  areas : ℕ → Option Vma
  /-- The part of the page table that belongs to an area. -/
  pt : ℕ → PageTable
  /-- The handler each thread is in. -/
  running : Tid → Option Handler

/-- What can happen. -/
inductive Op
  | mmap (a : ℕ) (vma : Vma) (mem : Bool)
  | munmap (a : ℕ)
  /-- A thread touches a page that is not there, and enters the handler. -/
  | fault (t : Tid) (a addr : ℕ)
  /-- The handler a thread is in takes a step. -/
  | step (t : Tid) (o : FaultOutcome)
  | read (a addr : ℕ)
  | write (a addr : ℕ) (val : UInt8)

namespace World

/-- The page at an address of an area. -/
def page (w : World) (a addr : ℕ) : Option Page :=
  (w.areas a).bind fun vma ↦
    if Inside vma addr then (w.pt a).pte (vmFault vma addr).address else none

/-- The address can be accessed without a fault: its page is there, or it is in no area and the
process is sent a signal. -/
def ready (w : World) (a addr : ℕ) : Bool :=
  (w.areas a).all fun vma ↦ Inside vma addr → ((w.pt a).pte (vmFault vma addr).address).isSome

/-- The byte at an address of an area. -/
def byte (w : World) (a addr : ℕ) : Option UInt8 :=
  (w.page a addr).map fun p ↦ w.ram p (addr % pageSize)

/-- Write the byte at an address of an area. -/
def store (w : World) (a addr : ℕ) (val : UInt8) : World :=
  match w.page a addr with
  | some p =>
    { w with ram := Function.update w.ram p (Function.update (w.ram p) (addr % pageSize) val) }
  | none => w

/-- An area comes or goes. -/
def setArea (w : World) (a : ℕ) (vma : Option Vma) (pt : PageTable) : World :=
  { w with areas := Function.update w.areas a vma, pt := Function.update w.pt a pt }

/-- `mmap`; there is no area where the driver refuses. -/
def mmap (w : World) (d : Driver) (a : ℕ) (vma : Vma) (mem : Bool) : World :=
  let r := d.myMmap vma mem ⟨fun _ ↦ none, []⟩
  if r.1 = 0 then w.setArea a (some vma) r.2 else w

/-- A thread goes on in the handler `h`, or leaves it. -/
def move (w : World) (t : Tid) (h : Option Handler) : World :=
  { w with running := Function.update w.running t h }

/-- The kernel calls the handler for an entry that it has found empty. -/
def fault (w : World) (d : Driver) (t : Tid) (a addr : ℕ) : Option World :=
  match w.areas a with
  | none => none
  | some vma =>
    if h : Inside vma addr then
      if w.running t = none ∧ (w.pt a).pte (vmFault vma addr).address = none then
        some (w.move t (some ⟨a, vma, addr, h, d.first⟩))
      else none
    else none

/-- Where the test of mmap3 leads; outside the table it finds something. -/
def afterTest (w : World) (h : Handler) : AllocOnce.Point :=
  if h.vmf.pgoff < 3 ∧ Driver.own .mmap3 w.pages h.vmf.pgoff = none then .alloc else .insert

/-- `alloc_page` and the store of its result, which may be `NULL`. -/
def alloc (w : World) (h : Handler) (o : FaultOutcome) : World :=
  { w with
    pages :=
      if hi : h.vmf.pgoff < 3 then Function.update w.pages ⟨_, hi⟩ (o.alloc.map Prod.fst)
      else w.pages
    ram := o.alloc.elim w.ram fun r ↦ Function.update w.ram r.1 r.2 }

/-- The handler maps the page, or fails to. -/
def insert (w : World) (d : Driver) (h : Handler) (mem : Bool) : World :=
  { w with
    pt := Function.update w.pt h.area (d.finish w.pages h.vmf mem (w.pt h.area)).pt }

/-- A step of a handler. -/
def advance (w : World) (d : Driver) (t : Tid) (o : FaultOutcome) (h : Handler) : World :=
  match h.next with
  | .test => w.move t (some (h.goto (w.afterTest h)))
  | .alloc => (w.alloc h o).move t (some (h.goto .insert))
  | .insert => (w.insert d h o.mem).move t none

/-- What an operation does, if it is possible. -/
def next (w : World) (d : Driver) : Op → Option World
  | .mmap a vma mem => some (w.mmap d a vma mem)
  | .munmap a => some (w.setArea a none ⟨fun _ ↦ none, []⟩)
  | .fault t a addr => w.fault d t a addr
  | .step t o => (w.running t).map (w.advance d t o)
  | .read a addr => if w.ready a addr then some w else none
  | .write a addr val => if w.ready a addr then some (w.store a addr val) else none

/-- The thread is sent a signal: its handler has answered `SIGBUS`, or not at all. -/
def signalled (w : World) (d : Driver) (o : FaultOutcome) (h : Handler) : Prop :=
  h.next = .insert ∧ (d.finish w.pages h.vmf o.mem (w.pt h.area)).ret ∈ [.sigbus, .oops]

instance (w : World) (d : Driver) (o : FaultOutcome) (h : Handler) :
    Decidable (w.signalled d o h) :=
  inferInstanceAs (Decidable (_ ∧ _))

/-- What a process sees: the byte it reads, and `none` for a signal. -/
def observe (w : World) (d : Driver) : Op → List (Option UInt8)
  | .read a addr => [w.byte a addr]
  | .step t o => (w.running t).elim [] fun h ↦ if w.signalled d o h then [none] else []
  | _ => []

end World

/-- Operations in any order. -/
def machine (d : Driver) : Machine World Op := ⟨fun w op ↦ w.next d op⟩

/-- What the processes see. -/
def reads (d : Driver) (w : World) (ops : List Op) : List (Option UInt8) :=
  (machine d).outputs (World.observe · d) w ops

/-! ## The device -/

/-- A byte of the device: page `c.1`, offset `c.2`. -/
abbrev Cell := Fin 3 × ℕ

/-- An address in an area. -/
abbrev View := ℕ × ℕ

/-- The byte of the device an address of an area is for. -/
def cellOf (vma : Vma) (addr : ℕ) : Option Cell :=
  if h : Inside vma addr ∧ accessOffset vma addr < 3 then
    some (⟨accessOffset vma addr, h.2⟩, addr % pageSize)
  else none

/-- The views of an area. -/
def areaViews (a : ℕ) (vma : Vma) (v : View) : Option Cell :=
  if v.1 = a then cellOf vma v.2 else none

/-- What an operation means for the device. -/
def meaning : Op → List (Store.Op Cell View UInt8)
  | .mmap a vma _ => [.map (areaViews a vma)]
  | .munmap a => [.unmap fun v ↦ v.1 = a]
  | .fault _ _ _ => []
  | .step _ _ => []
  | .read a addr => [.read (a, addr)]
  | .write a addr val => [.write (a, addr) val]

/-- A device that contains `content`, and that nobody has mapped. -/
def device (content : Fin 3 → ℕ → UInt8) : Store Cell View UInt8 :=
  ⟨fun c ↦ some (content c.1 c.2), fun _ ↦ none⟩

/-! ## What is asked of the environment -/

/-- No other handler is about to map a page where this one is. -/
def Alone (w : World) (t : Tid) (h : Handler) : Prop :=
  ∀ t' h', t' ≠ t → w.running t' = some h' → h'.area = h.area → h'.vmf.address ≠ h.vmf.address

/-- No other handler has found this entry of the table empty, and is about to fill it. -/
def Unique (w : World) (t : Tid) (h : Handler) : Prop :=
  ∀ t' h', t' ≠ t → w.running t' = some h' → h'.next = .alloc → h'.vmf.pgoff ≠ h.vmf.pgoff

/-- The kernel finds a page that the driver does not have, with the contents it was said to have. -/
def Finds (d : Driver) (content : Fin 3 → ℕ → UInt8) (w : World) (h : Handler) (o : FaultOutcome) :
    Prop :=
  ∀ i : Fin 3, h.vmf.pgoff = i → ∃ p, o.alloc = some (p, content i) ∧ ∀ j, d.own w.pages j ≠ some p

/-- Areas are new, shared, and lie in the buffer, and do not go while a handler is running on them;
handlers run apart, and find the memory they ask for. -/
def Fine (d : Driver) (content : Fin 3 → ℕ → UInt8) (w : World) : Op → Prop
  | .mmap a vma mem => w.areas a = none ∧ vma.cow = false ∧ vma.vmPgoff + vma.pages ≤ 3 ∧ mem = true
  | .munmap a => ∀ t h, w.running t = some h → h.area ≠ a
  | .fault t a addr => d.MapsItself → ∀ vma (hin : Inside vma addr), w.areas a = some vma →
      Alone w t ⟨a, vma, addr, hin, d.first⟩
  | .step t o => ∀ h, w.running t = some h →
      match h.next with
      | .test => w.afterTest h = .alloc → Unique w t h
      | .alloc => Finds d content w h o
      | .insert => o.mem = true
  | _ => True

/-- The driver was just loaded: nothing is mapped, the table of mmap3 is empty, and the buffers of
the others, which `kzalloc` has cleared, have the contents they are said to have. -/
structure World.Loaded (w : World) (d : Driver) (content : Fin 3 → ℕ → UInt8) : Prop where
  areas : ∀ a, w.areas a = none
  pages : ∀ i, w.pages i = none
  running : ∀ t, w.running t = none
  zeroed : ∀ i p, d.own w.pages i = some p → w.ram p = fun _ ↦ 0
  content_eq : ∀ (i : Fin 3) p, d.own w.pages i = some p → content i = w.ram p

/-! ## What a handler does in the buffer -/

section

variable {d : Driver} {pages : Pages} {vmf : VmFault} {pt : PageTable} {i j : ℕ} {p q : Page}

theorem page?_of_lt (b : Buffer) (hi : i < 3) : b.page? i = some (b.frame i) := if_pos hi

theorem own_lt (h : d.own pages i = some p) : i < 3 := by
  have hbuffer : ∀ b : Buffer, b.page? i = some p → i < 3 := by
    intro b hb
    by_contra hi
    rw [Buffer.page?, if_neg hi] at hb
    cases hb
  cases d with
  | mmap1 b => exact hbuffer b h
  | mmap2 b => exact hbuffer b h
  | mmap4 b => exact hbuffer b h
  | mmap3 =>
    by_contra hi
    rw [Driver.own, dif_neg hi] at h
    cases h

/-- The table of mmap3 after a page was put into it. -/
theorem own_update (pages : Pages) (i : Fin 3) (x : Option Page) (j : ℕ) :
    Driver.own .mmap3 (Function.update pages i x) j =
      if j = i then x else Driver.own .mmap3 pages j := by
  rw [Driver.own, Driver.own]
  by_cases hj : j < 3
  · rw [dif_pos hj, dif_pos hj, Function.update_apply]
    simp only [Fin.ext_iff]
  · have hne : j ≠ i := fun heq ↦ hj (heq ▸ i.isLt)
    rw [dif_neg hj, dif_neg hj, if_neg hne]

/-- The pages of a buffer are different, and there from the start. -/
theorem own_of_buffer (pages : Pages) (hd : d ≠ .mmap3) :
    ∃ b : Buffer, ∀ j < 3, d.own pages j = some (b.frame j) := by
  cases d with
  | mmap1 b => exact ⟨b, fun j hj ↦ page?_of_lt b hj⟩
  | mmap2 b => exact ⟨b, fun j hj ↦ page?_of_lt b hj⟩
  | mmap4 b => exact ⟨b, fun j hj ↦ page?_of_lt b hj⟩
  | mmap3 => exact absurd rfl hd

/-- In the buffer, mmap2 and mmap4 find the page at the offset. -/
theorem bufferPage_eq (b : Buffer) (hi : i < 3) :
    mmap2Page b i = b.frame i ∧ mmap4Page b i = b.frame i := by
  obtain ⟨k, q, -, -, hle, hfits, hframe⟩ := b.exists_pages
  have hreach : IntReaches b i := by
    rw [IntReaches, hframe]
    omega
  obtain ⟨h2, h4⟩ := (pages_agree_iff b i).mpr hreach
  have hmod : (b.frame 0 + i) % 2 ^ 64 = b.frame i := by
    rw [hframe, hframe]
    omega
  exact ⟨h2.trans hmod, h4.trans hmod⟩

/-- In the buffer, every page is there except for mmap3. -/
theorem exists_own (pages : Pages) (hd : d ≠ .mmap3) (hi : i < 3) :
    ∃ p, d.own pages i = some p := by
  obtain ⟨b, hb⟩ := own_of_buffer pages hd
  exact ⟨_, hb i hi⟩

/-- **A handler that finds the page at the offset** maps it, or leaves an entry alone that is in
use, and sends no signal. -/
theorem finish_of_own (hd : ∀ b, d ≠ .mmap1 b) (hown : d.own pages vmf.pgoff = some p)
    (hempty : d.MapsItself → pt.pte vmf.address = none) :
    (d.finish pages vmf true pt).ret ∉ [FaultRet.sigbus, FaultRet.oops] ∧
      ((d.finish pages vmf true pt).pt = pt ∨
        (d.finish pages vmf true pt).pt = pt.install vmf.address p) := by
  have hlt := own_lt hown
  cases d with
  | mmap1 b => exact absurd rfl (hd b)
  | mmap2 b =>
    obtain rfl : b.frame vmf.pgoff = p := Option.some_inj.mp ((page?_of_lt b hlt).symm.trans hown)
    have hpage : b.virtToPage ((b.kaddr + mmap2Offset vmf.pgoff) % 2 ^ 64).toNat =
        b.frame vmf.pgoff := (bufferPage_eq b hlt).1
    rw [Driver.finish, mmap2MyFault, FaultRace.insertResolved_of_empty (hempty trivial), hpage]
    exact ⟨by simp, .inr rfl⟩
  | mmap3 =>
    rw [Driver.own, dif_pos hlt] at hown
    rw [Driver.finish, dif_pos hlt, hown, FaultRace.insertResolved_of_empty (hempty trivial)]
    exact ⟨by simp, .inr rfl⟩
  | mmap4 b =>
    obtain rfl : b.frame vmf.pgoff = p := Option.some_inj.mp ((page?_of_lt b hlt).symm.trans hown)
    have hpage := (bufferPage_eq b hlt).2
    rw [mmap4Page] at hpage
    rw [Driver.finish]
    split
    · exact ⟨by simp [mmap4MyFault], .inl rfl⟩
    · exact ⟨by simp [mmap4MyFault], .inr (by rw [mmap4MyFault, hpage])⟩

end

/-! ## Steps of a handler -/

section

variable {d : Driver} {w : World} {t t' : Tid} {h g : Handler} {o : FaultOutcome}

/-- Only the thread that moves is elsewhere afterwards. -/
theorem running_move {x : Option Handler} (hg : (w.move t x).running t' = some g) :
    t' = t ∧ x = some g ∨ t' ≠ t ∧ w.running t' = some g := by
  change Function.update w.running t x t' = some g at hg
  rw [Function.update_apply] at hg
  split at hg
  · rename_i heq
    exact .inl ⟨heq, hg⟩
  · rename_i hne
    exact .inr ⟨hne, hg⟩

theorem next_step (ht : w.running t = some h) (o : FaultOutcome) :
    (machine d).step w (.step t o) = some (w.advance d t o h) := by
  show (w.running t).map _ = _
  rw [ht, Option.map_some]

theorem step_test (ht : w.running t = some h) (hnext : h.next = .test) :
    (machine d).step w (.step t o) = some (w.move t (some (h.goto (w.afterTest h)))) := by
  rw [next_step ht, World.advance, hnext]

theorem step_alloc (ht : w.running t = some h) (hnext : h.next = .alloc) :
    (machine d).step w (.step t o) = some ((w.alloc h o).move t (some (h.goto .insert))) := by
  rw [next_step ht, World.advance, hnext]

theorem step_insert (ht : w.running t = some h) (hnext : h.next = .insert) :
    (machine d).step w (.step t o) = some ((w.insert d h o.mem).move t none) := by
  rw [next_step ht, World.advance, hnext]

/-- The table of mmap3 once `my_fault` has looked after its entry. -/
def filled (pages : Pages) (vmf : VmFault) (o : FaultOutcome) : Pages :=
  if hi : vmf.pgoff < 3 then mmap3Fill pages ⟨vmf.pgoff, hi⟩ (o.alloc.map Prod.fst) else pages

theorem myFault_mmap3 (pages : Pages) (vmf : VmFault) (o : FaultOutcome) (pt : PageTable) :
    Driver.myFault .mmap3 pages vmf o pt =
      (Driver.finish .mmap3 (filled pages vmf o) vmf o.mem pt, filled pages vmf o) := by
  simp only [Driver.myFault, mmap3MyFault, Driver.finish, filled]
  split <;> rfl

theorem filled_of_alloc (hafter : w.afterTest h = .alloc) (o : FaultOutcome) :
    filled w.pages h.vmf o = (w.alloc h o).pages := by
  rw [World.afterTest] at hafter
  split at hafter
  · rename_i hboth
    obtain ⟨hoff, hown⟩ := hboth
    rw [Driver.own, dif_pos hoff] at hown
    rw [filled, dif_pos hoff, mmap3Fill, if_pos (Option.isNone_iff_eq_none.mpr hown)]
    simp only [World.alloc, dif_pos hoff]
  · cases hafter

theorem filled_of_insert (hafter : w.afterTest h = .insert) (o : FaultOutcome) :
    filled w.pages h.vmf o = w.pages := by
  rw [World.afterTest] at hafter
  split at hafter
  · cases hafter
  · rename_i hnot
    rw [filled]
    split
    · rename_i hoff
      refine if_neg fun hnone ↦ hnot ⟨hoff, ?_⟩
      rw [Driver.own, dif_pos hoff]
      exact Option.isNone_iff_eq_none.mp hnone
    · rfl

/-- **The steps of a handler**, taken in a row, are `my_fault`. -/
theorem handler_alone (ht : w.running t = some h) (hfirst : h.next = d.first)
    (hempty : (w.pt h.area).pte h.vmf.address = none) (o : FaultOutcome) :
    ∃ n w', (machine d).Run Machine.free w (List.replicate n (.step t o)) w' ∧
      w'.running t = none ∧ w'.pages = (d.myFault w.pages h.vmf o (w.pt h.area)).2 ∧
      w'.pt = Function.update w.pt h.area (d.myFault w.pages h.vmf o (w.pt h.area)).1.pt := by
  have hleaves : ∀ w : World, (w.move t none).running t = none := fun w ↦ Function.update_self ..
  have hstays : ∀ (w : World) (g : Handler), (w.move t (some g)).running t = some g :=
    fun w g ↦ Function.update_self ..
  cases d with
  | mmap1 b => exact ⟨1, _, .single trivial (step_insert ht hfirst), hleaves _, rfl, rfl⟩
  | mmap2 b => exact ⟨1, _, .single trivial (step_insert ht hfirst), hleaves _, rfl, rfl⟩
  | mmap4 b =>
    refine ⟨1, _, .single trivial (step_insert ht hfirst), hleaves _, rfl, ?_⟩
    show Function.update w.pt h.area (Driver.finish ..).pt = _
    rw [Driver.finish, hempty]
    rfl
  | mmap3 =>
    have htest := step_test (d := .mmap3) (o := o) ht hfirst
    rw [myFault_mmap3]
    cases hafter : w.afterTest h with
    | test =>
      rw [World.afterTest] at hafter
      split at hafter <;> cases hafter
    | alloc =>
      rw [hafter] at htest
      have halloc := step_alloc (d := .mmap3) (o := o) (hstays w (h.goto .alloc)) rfl
      have hinsert := step_insert (d := .mmap3) (o := o)
        (hstays ((w.move t (some (h.goto .alloc))).alloc (h.goto .alloc) o) (h.goto .insert)) rfl
      have hpages := filled_of_alloc hafter o
      refine ⟨3, _, .cons trivial htest (.cons trivial halloc (.single trivial hinsert)),
        hleaves _, ?_, ?_⟩
      · rw [hpages]
        rfl
      · rw [hpages]
        rfl
    | insert =>
      rw [hafter] at htest
      have hinsert := step_insert (d := .mmap3) (o := o) (hstays w (h.goto .insert)) rfl
      rw [filled_of_insert hafter]
      exact ⟨2, _, .cons trivial htest (.single trivial hinsert), hleaves _, rfl, rfl⟩

end

/-! ## What the world keeps -/

/-- Areas lie in the buffer, what they show is the page at the offset, mmap1 has mapped all of
them, and no page is at two offsets. -/
structure Kept (d : Driver) (w : World) : Prop where
  fits : ∀ a vma, w.areas a = some vma → vma.vmPgoff + vma.pages ≤ 3
  shown : ∀ a vma addr p, w.areas a = some vma → Inside vma addr →
    (w.pt a).pte (vmFault vma addr).address = some p →
      d.own w.pages (accessOffset vma addr) = some p
  eager : ∀ b, d = .mmap1 b → ∀ a vma addr, w.areas a = some vma → Inside vma addr →
    (w.pt a).pte (vmFault vma addr).address ≠ none
  inj : ∀ i j p, d.own w.pages i = some p → d.own w.pages j = some p → i = j

/-- What holds of a handler that is running: its area is there, it has an entry to itself if it
needs one, and what it has found of its page is still so. -/
structure Joins (d : Driver) (w : World) (t : Tid) (h : Handler) : Prop where
  there : w.areas h.area = some h.vma
  empty : d.MapsItself → (w.pt h.area).pte h.vmf.address = none
  alone : d.MapsItself → Alone w t h
  direct : d ≠ .mmap3 → h.next = .insert
  filling : h.next = .alloc → d.own w.pages h.vmf.pgoff = none ∧ Unique w t h
  found : h.next = .insert → ∃ p, d.own w.pages h.vmf.pgoff = some p

section

variable {d : Driver} {w w' : World} {t t' : Tid} {h g : Handler}

/-- A handler finds things as they were. -/
theorem Joins.congr (hj : Joins d w t h) (hareas : w'.areas h.area = w.areas h.area)
    (hpt : d.MapsItself →
      (w'.pt h.area).pte h.vmf.address = (w.pt h.area).pte h.vmf.address)
    (hpages : h.next ≠ .test → d.own w'.pages h.vmf.pgoff = d.own w.pages h.vmf.pgoff)
    (hrunning : w'.running = w.running) : Joins d w' t h where
  there := hareas.trans hj.there
  empty hd := (hpt hd).trans (hj.empty hd)
  alone hd t' h' hne ht' := hj.alone hd t' h' hne (hrunning ▸ ht')
  direct := hj.direct
  filling hnext := by
    obtain ⟨hown, hunique⟩ := hj.filling hnext
    exact ⟨(hpages (by simp [hnext])).trans hown,
      fun t' h' hne ht' ↦ hunique t' h' hne (hrunning ▸ ht')⟩
  found hnext := by
    obtain ⟨p, hp⟩ := hj.found hnext
    exact ⟨p, (hpages (by simp [hnext])).trans hp⟩

/-- **A thread moves**, and the handlers go on being apart. -/
theorem joins_move {x : Option Handler}
    (hrest : ∀ t' g, t' ≠ t → w.running t' = some g → Joins d w t' g)
    (hx : ∀ g, x = some g → Joins d w t g) :
    ∀ t' g, (w.move t x).running t' = some g → Joins d (w.move t x) t' g := by
  intro t' g hg
  rcases running_move hg with ⟨rfl, hxg⟩ | ⟨hne, hold⟩
  · have hj := hx g hxg
    have hothers : ∀ t'' g', t'' ≠ t' → (w.move t' x).running t'' = some g' →
        w.running t'' = some g' := fun t'' g' hne hg' ↦
      (running_move hg').elim (fun heq ↦ absurd heq.1 hne) fun hold ↦ hold.2
    exact ⟨hj.there, hj.empty,
      fun hd t'' g' hne hg' ↦ hj.alone hd t'' g' hne (hothers t'' g' hne hg'), hj.direct,
      fun hnext ↦ ⟨(hj.filling hnext).1, fun t'' g' hne hg' ↦
        (hj.filling hnext).2 t'' g' hne (hothers t'' g' hne hg')⟩, hj.found⟩
  · have hj := hrest t' g hne hold
    refine ⟨hj.there, hj.empty, fun hd t'' g' hne' hg' harea ↦ ?_, hj.direct,
      fun hnext ↦ ⟨(hj.filling hnext).1, fun t'' g' hne' hg' hnext' ↦ ?_⟩, hj.found⟩
    · rcases running_move hg' with ⟨-, hxg'⟩ | ⟨-, hold'⟩
      · exact ((hx g' hxg').alone hd t' g hne hold harea.symm).symm
      · exact hj.alone hd t'' g' hne' hold' harea
    · rcases running_move hg' with ⟨-, hxg'⟩ | ⟨-, hold'⟩
      · exact (((hx g' hxg').filling hnext').2 t' g hne hold hnext).symm
      · exact (hj.filling hnext).2 t'' g' hne' hold' hnext'

end

/-- Where a byte of the device lies. -/
inductive Place
  | ram (p : Page) (off : ℕ)
  /-- Nowhere yet. -/
  | pending (i : Fin 3) (off : ℕ)
  deriving DecidableEq

namespace World

/-- Where a byte of the device lies. -/
def place (d : Driver) (w : World) (c : Cell) : Place :=
  match d.own w.pages c.1 with
  | some p => .ram p c.2
  | none => .pending c.1 c.2

/-- What lies there, or will. -/
def mem (content : Fin 3 → ℕ → UInt8) (w : World) : Place → UInt8
  | .ram p off => w.ram p off
  | .pending i off => content i off

/-- The byte of the device an address of an area is for. -/
def cell (w : World) (v : View) : Option Cell := (w.areas v.1).bind fun vma ↦ cellOf vma v.2

/-- Where an address of an area leads. -/
def loc (d : Driver) (w : World) (v : View) : Option Place := (w.cell v).map (w.place d)

end World

/-- The world implements the device. -/
structure World.Shows (d : Driver) (content : Fin 3 → ℕ → UInt8) (w : World)
    (s : Store Cell View UInt8) : Prop where
  kept : Kept d w
  joins : ∀ t h, w.running t = some h → Joins d w t h
  placed : s.Placed (fun c ↦ some (w.place d c)) (w.mem content) (w.loc d)

section

variable {d : Driver} {content : Fin 3 → ℕ → UInt8} {w w' : World} {s : Store Cell View UInt8}
  {a addr : ℕ} {vma : Vma} {t : Tid} {h : Handler} {o : FaultOutcome}

theorem World.place_inj (hk : Kept d w) {c c' : Cell} (heq : w.place d c = w.place d c') :
    c = c' := by
  rw [World.place, World.place] at heq
  split at heq
  · rename_i p hp
    split at heq
    · rename_i q hq
      obtain ⟨rfl, hoff⟩ := Place.ram.inj heq
      exact Prod.ext (Fin.ext (hk.inj _ _ _ hp hq)) hoff
    · cases heq
  · split at heq
    · cases heq
    · obtain ⟨hi, hoff⟩ := Place.pending.inj heq
      exact Prod.ext hi hoff

theorem World.place_of_own {c : Cell} {p : Page} (h : d.own w.pages c.1 = some p) :
    w.place d c = .ram p c.2 := by
  rw [World.place, h]

theorem World.place_of_not_own {c : Cell} (h : d.own w.pages c.1 = none) :
    w.place d c = .pending c.1 c.2 := by
  rw [World.place, h]

/-- An access in an area of the buffer. -/
theorem cellOf_eq (hfits : vma.vmPgoff + vma.pages ≤ 3) (hin : Inside vma addr) :
    ∃ h : accessOffset vma addr < 3,
      cellOf vma addr = some (⟨accessOffset vma addr, h⟩, addr % pageSize) := by
  have hlt : accessOffset vma addr < 3 :=
    Nat.lt_of_lt_of_le (Nat.add_lt_add_left hin.page.1 vma.vmPgoff) hfits
  exact ⟨hlt, dif_pos ⟨hin, hlt⟩⟩

theorem cellOf_of_not (hout : ¬ Inside vma addr) : cellOf vma addr = none :=
  dif_neg fun h ↦ hout h.1

/-- A view of the device shows the byte its address is for. -/
theorem World.Shows.view_eq (hw : w.Shows d content s) (v : View) : s.view v = w.cell v := by
  have hloc : (w.cell v).map (w.place d) = (s.view v).map (w.place d) :=
    (hw.placed.loc_eq v).trans Option.map_eq_bind.symm
  exact (Option.map_injective (fun _ _ heq ↦ World.place_inj hw.kept heq) hloc).symm

/-- A handler runs for a page of the device. -/
theorem World.Shows.pgoff_lt (hw : w.Shows d content s) (ht : w.running t = some h) :
    h.vmf.pgoff < 3 :=
  FaultRace.pgoff_lt (hw.kept.fits _ _ (hw.joins t h ht).there) h.inside

/-- mmap1 has no handlers. -/
theorem World.Shows.not_mmap1 (hw : w.Shows d content s) (ht : w.running t = some h) (b : Buffer) :
    d ≠ .mmap1 b := by
  intro hd
  have hj := hw.joins t h ht
  exact hw.kept.eager b hd _ _ _ hj.there h.inside (hj.empty (by rw [hd]; trivial))

/-! ## Faults -/

/-- **A fault** does nothing to the device. -/
theorem World.Shows.fault (hw : w.Shows d content s) (hfine : Fine d content w (.fault t a addr))
    (hstep : w.fault d t a addr = some w') : w'.Shows d content s := by
  rw [World.fault] at hstep
  split at hstep
  · cases hstep
  · rename_i vma harea
    split at hstep
    · rename_i hin
      obtain ⟨⟨-, hempty⟩, ⟨⟩⟩ := Option.ite_none_right_eq_some.mp hstep
      have hnew : Joins d w t ⟨a, vma, addr, hin, d.first⟩ := by
        refine ⟨harea, fun _ ↦ hempty, fun hd ↦ hfine hd vma hin harea, fun hd ↦ ?_,
          fun hnext ↦ ?_, fun hnext ↦ ?_⟩
        · cases d <;> first | rfl | exact absurd rfl hd
        · cases d <;> cases hnext
        · refine exists_own w.pages ?_ (FaultRace.pgoff_lt (hw.kept.fits a vma harea) hin)
          rintro rfl
          cases hnext
      refine ⟨⟨hw.kept.fits, hw.kept.shown, hw.kept.eager, hw.kept.inj⟩,
        joins_move (fun t' g _ hg ↦ hw.joins t' g hg) ?_, hw.placed⟩
      rintro _ ⟨⟩
      exact hnew
    · cases hstep

/-- **The test** of mmap3. -/
theorem World.Shows.test (hw : w.Shows d content s) (ht : w.running t = some h)
    (hnext : h.next = .test) (hunique : w.afterTest h = .alloc → Unique w t h) :
    (w.move t (some (h.goto (w.afterTest h)))).Shows d content s := by
  have hj := hw.joins t h ht
  obtain rfl : d = .mmap3 := by
    by_contra hd
    rw [hj.direct hd] at hnext
    cases hnext
  refine ⟨⟨hw.kept.fits, hw.kept.shown, hw.kept.eager, hw.kept.inj⟩,
    joins_move (fun t' g _ hg ↦ hw.joins t' g hg) ?_, hw.placed⟩
  rintro _ ⟨⟩
  refine ⟨hj.there, hj.empty, hj.alone, fun hd ↦ absurd rfl hd, fun hafter ↦ ?_, fun hafter ↦ ?_⟩
  · refine ⟨?_, hunique hafter⟩
    change w.afterTest h = .alloc at hafter
    rw [World.afterTest] at hafter
    split at hafter
    · rename_i hboth
      exact hboth.2
    · cases hafter
  · change w.afterTest h = .insert at hafter
    rw [World.afterTest] at hafter
    split at hafter
    · cases hafter
    · rename_i hnot
      exact Option.ne_none_iff_exists'.mp fun hnone ↦ hnot ⟨hw.pgoff_lt ht, hnone⟩

/-- The table of mmap3 with a new page in it. -/
theorem own_alloc (w : World) (hlt : h.vmf.pgoff < 3) {p : Page} {bytes : ℕ → UInt8}
    (halloc : o.alloc = some (p, bytes)) (j : ℕ) :
    Driver.own .mmap3 (w.alloc h o).pages j =
      if j = h.vmf.pgoff then some p else Driver.own .mmap3 w.pages j := by
  have hpages : (w.alloc h o).pages = Function.update w.pages ⟨h.vmf.pgoff, hlt⟩ (some p) := by
    simp only [World.alloc, dif_pos hlt, halloc, Option.map_some]
  rw [hpages, own_update]

/-- **An allocation** puts a page with what it was said to contain where there was none. -/
theorem World.Shows.alloc (hw : w.Shows d content s) (ht : w.running t = some h)
    (hnext : h.next = .alloc) (hfinds : Finds d content w h o) :
    ((w.alloc h o).move t (some (h.goto .insert))).Shows d content s := by
  have hj := hw.joins t h ht
  obtain rfl : d = .mmap3 := by
    by_contra hd
    rw [hj.direct hd] at hnext
    cases hnext
  have hlt := hw.pgoff_lt ht
  obtain ⟨hnone, hunique⟩ := hj.filling hnext
  obtain ⟨p, halloc, hfresh⟩ := hfinds ⟨_, hlt⟩ rfl
  have hown := own_alloc w hlt halloc
  have hram : (w.alloc h o).ram = Function.update w.ram p (content ⟨h.vmf.pgoff, hlt⟩) := by
    simp only [World.alloc, halloc, Option.elim_some]
  have hareas : (w.alloc h o).areas = w.areas ∧ (w.alloc h o).pt = w.pt ∧
      (w.alloc h o).running = w.running := ⟨rfl, rfl, rfl⟩
  generalize w.alloc h o = w₁ at hown hram hareas
  obtain ⟨hareas, hpt, hrunning⟩ := hareas
  have hstay : ∀ j q, Driver.own .mmap3 w.pages j = some q →
      Driver.own .mmap3 w₁.pages j = some q := by
    intro j q hq
    rw [hown, if_neg]
    · exact hq
    · rintro rfl
      rw [hnone] at hq
      cases hq
  have hkept : Kept .mmap3 w₁ := by
    refine ⟨fun a vma harea ↦ hw.kept.fits a vma (hareas ▸ harea),
      fun a vma addr q harea hin hq ↦ ?_, nofun, fun j k q hq hk ↦ ?_⟩
    · rw [hareas] at harea
      rw [hpt] at hq
      exact hstay _ _ (hw.kept.shown a vma addr q harea hin hq)
    · rw [hown] at hq hk
      split at hq
      · rename_i heq
        split at hk
        · rename_i heq'
          rw [heq, heq']
        · exact absurd (hk.trans hq.symm) (hfresh k)
      · split at hk
        · exact absurd (hq.trans hk.symm) (hfresh j)
        · exact hw.kept.inj j k q hq hk
  -- A handler that is past the test has found another entry, or is about to fill another one.
  have hrest : ∀ t' g, t' ≠ t → w₁.running t' = some g → Joins .mmap3 w₁ t' g := by
    intro t' g hne hg
    rw [hrunning] at hg
    have hg' := hw.joins t' g hg
    refine hg'.congr (by rw [hareas]) (fun _ ↦ by rw [hpt]) (fun hnot ↦ ?_) hrunning
    rw [hown, if_neg]
    intro heq
    cases hn : g.next with
    | test => exact hnot hn
    | alloc => exact hunique t' g hne hg hn heq
    | insert =>
      obtain ⟨q, hq⟩ := hg'.found hn
      rw [heq, hnone] at hq
      cases hq
  have hself : Joins .mmap3 w₁ t (h.goto .insert) := by
    refine ⟨by rw [hareas]; exact hj.there, fun hd ↦ by rw [hpt]; exact hj.empty hd,
      fun hd t' h' hne ht' ↦ hj.alone hd t' h' hne (hrunning ▸ ht'), fun hd ↦ absurd rfl hd,
      nofun, fun _ ↦ ⟨p, (hown _).trans (if_pos rfl)⟩⟩
  have hmem : ∀ c, w₁.mem content (w₁.place .mmap3 c) = w.mem content (w.place .mmap3 c) := by
    intro c
    have hc' := hown c.1
    by_cases hc : c.1.val = h.vmf.pgoff
    · rw [if_pos hc] at hc'
      rw [World.place_of_own hc', World.place_of_not_own (hc ▸ hnone), World.mem, World.mem, hram,
        Function.update_self, Fin.ext (b := ⟨h.vmf.pgoff, hlt⟩) hc]
    · rw [if_neg hc] at hc'
      cases hq : Driver.own .mmap3 w.pages c.1 with
      | none =>
        rw [World.place_of_not_own (hc'.trans hq), World.place_of_not_own hq]
        rfl
      | some q =>
        have hne : q ≠ p := by
          rintro rfl
          exact hfresh _ hq
        rw [World.place_of_own (hc'.trans hq), World.place_of_own hq, World.mem, World.mem, hram,
          Function.update_of_ne hne]
  refine ⟨⟨hkept.fits, hkept.shown, hkept.eager, hkept.inj⟩, joins_move hrest ?_, ?_⟩
  · rintro _ ⟨⟩
    exact hself
  · refine hw.placed.relocate (fun c c' q hc hc' ↦ ?_) (fun c ↦ ?_) fun v ↦ ?_
    · exact World.place_inj hkept (Option.some_inj.mp (hc.trans hc'.symm))
    · exact congrArg some (hmem c)
    · have hcell : w₁.cell = w.cell := by
        funext v
        rw [World.cell, World.cell, hareas]
      show (w₁.cell v).map (w₁.place .mmap3) = _
      rw [hcell, hw.view_eq]
      exact Option.map_eq_bind

/-- **The end of a handler**: the page is mapped, and nobody is sent a signal. -/
theorem World.Shows.insert (hw : w.Shows d content s) (ht : w.running t = some h)
    (hnext : h.next = .insert) (hmem : o.mem = true) :
    ((w.insert d h o.mem).move t none).Shows d content s ∧ ¬ w.signalled d o h := by
  have hj := hw.joins t h ht
  obtain ⟨p, hown⟩ := hj.found hnext
  obtain ⟨hret, hpt⟩ := finish_of_own (hw.not_mmap1 ht) hown hj.empty
  rw [← hmem] at hret hpt
  refine ⟨?_, fun hsignal ↦ hret hsignal.2⟩
  have hrest : ∀ a base, ¬ (a = h.area ∧ base = h.vmf.address) →
      ((w.insert d h o.mem).pt a).pte base = (w.pt a).pte base := by
    intro a base hnot
    change (Function.update w.pt h.area _ a).pte base = _
    by_cases ha : a = h.area
    · rw [ha, Function.update_self]
      rcases hpt with hpt | hpt
      · rw [hpt]
      · rw [hpt, PageTable.install_pte_of_ne _ _ fun hbase ↦ hnot ⟨ha, hbase⟩]
    · rw [Function.update_of_ne ha]
  have hentry : ((w.insert d h o.mem).pt h.area).pte h.vmf.address =
      (w.pt h.area).pte h.vmf.address ∨
        ((w.insert d h o.mem).pt h.area).pte h.vmf.address = some p := by
    change (Function.update w.pt h.area _ h.area).pte _ = _ ∨
      (Function.update w.pt h.area _ h.area).pte _ = _
    rw [Function.update_self]
    exact hpt.imp (fun hpt ↦ by rw [hpt]) fun hpt ↦ by rw [hpt, PageTable.install_pte_self]
  refine ⟨⟨hw.kept.fits, fun a vma addr q harea hin hq ↦ ?_, fun b hd ↦ absurd hd ?_,
    hw.kept.inj⟩, joins_move (fun t' g hne hg ↦ ?_) (fun g hg ↦ nomatch hg), hw.placed⟩
  · change ((w.insert d h o.mem).pt a).pte _ = some q at hq
    by_cases hat : a = h.area ∧ (vmFault vma addr).address = h.vmf.address
    · obtain ⟨rfl, haddr⟩ := hat
      obtain rfl : vma = h.vma := Option.some_inj.mp (harea.symm.trans hj.there)
      rcases hentry with hsame | hnew
      · rw [haddr, hsame, ← haddr] at hq
        exact hw.kept.shown _ _ addr q harea hin hq
      · rw [haddr, hnew, Option.some_inj] at hq
        rw [← hq, accessOffset_congr h.inside hin haddr]
        exact hown
    · rw [hrest a _ hat] at hq
      exact hw.kept.shown a vma addr q harea hin hq
  · exact hw.not_mmap1 ht b
  · have hg' := hw.joins t' g hg
    refine hg'.congr rfl (fun hd ↦ hrest _ _ fun hat ↦ ?_) (fun _ ↦ rfl) rfl
    exact hj.alone hd t' g hne hg hat.1 hat.2

/-! ## Accesses -/

/-- An access without a fault goes to the byte of the device that its address is for. -/
theorem World.Shows.page_eq (hw : w.Shows d content s) (hready : w.ready a addr = true) :
    (w.page a addr).map (fun p ↦ Place.ram p (addr % pageSize)) = w.loc d (a, addr) := by
  rw [World.ready] at hready
  rw [World.page, World.loc, World.cell]
  cases harea : w.areas a with
  | none => rfl
  | some vma =>
    rw [harea, Option.all_some, decide_eq_true_eq] at hready
    rw [Option.bind_some, Option.bind_some]
    by_cases hin : Inside vma addr
    · obtain ⟨p, hp⟩ := Option.isSome_iff_exists.mp (hready hin)
      have hown := hw.kept.shown a vma addr p harea hin hp
      obtain ⟨hlt, hcell⟩ := cellOf_eq (hw.kept.fits a vma harea) hin
      rw [if_pos hin, hp, hcell, Option.map_some, Option.map_some, World.place_of_own hown]
    · rw [if_neg hin, cellOf_of_not hin]
      rfl

/-- **Reading.** -/
theorem World.Shows.byte_eq (hw : w.Shows d content s) (hready : w.ready a addr = true) :
    w.byte a addr = s.load (a, addr) := by
  rw [hw.placed.load, ← hw.page_eq hready, World.byte, Option.map_map]
  rfl

/-- **Writing.** -/
theorem World.Shows.store (hw : w.Shows d content s) (val : UInt8)
    (hready : w.ready a addr = true) :
    (w.store a addr val).Shows d content (s.next (.write (a, addr) val)) := by
  have hpage := hw.page_eq hready
  cases hp : w.page a addr with
  | none =>
    rw [hp, Option.map_none] at hpage
    have hstore : w.store a addr val = w := by rw [World.store, hp]
    rw [hstore, Store.next, Store.store_of_no_view (hw.placed.view_of_loc_none hpage.symm)]
    exact hw
  | some p =>
    rw [hp, Option.map_some] at hpage
    have hstore : w.store a addr val = { w with
        ram := Function.update w.ram p (Function.update (w.ram p) (addr % pageSize) val) } := by
      rw [World.store, hp]
    have hmem : (w.store a addr val).mem content =
        Function.update (w.mem content) (.ram p (addr % pageSize)) val := by
      rw [hstore]
      funext pl
      cases pl with
      | pending i off => rw [Function.update_of_ne (by simp)]; rfl
      | ram q off =>
        rw [Function.update_apply]
        change Function.update w.ram p _ q off = _
        rw [Function.update_apply]
        by_cases hq : q = p
        · simp [hq, Function.update_apply, World.mem]
        · simp [hq, World.mem]
    have hplaced := hw.placed.write hpage.symm val
    rw [← hmem] at hplaced
    rw [hstore] at hplaced ⊢
    refine ⟨⟨hw.kept.fits, hw.kept.shown, hw.kept.eager, hw.kept.inj⟩, fun t h ht ↦ ?_, hplaced⟩
    exact (hw.joins t h ht).congr rfl (fun _ ↦ rfl) (fun _ ↦ rfl) rfl

/-! ## Areas -/

/-- What `my_mmap` leaves of an empty page table, in the buffer and with memory. -/
theorem myMmap_spec {vma : Vma} (pages : Pages) (hfits : vma.vmPgoff + vma.pages ≤ 3) :
    (d.myMmap vma true ⟨fun _ ↦ none, []⟩).1 = 0 ∧
      (∀ addr p, Inside vma addr →
        (d.myMmap vma true ⟨fun _ ↦ none, []⟩).2.pte (vmFault vma addr).address = some p →
          d.own pages (accessOffset vma addr) = some p) ∧
      ∀ b, d = .mmap1 b → ∀ addr, Inside vma addr →
        (d.myMmap vma true ⟨fun _ ↦ none, []⟩).2.pte (vmFault vma addr).address ≠ none := by
  have hlazy : ∀ addr p, Inside vma addr →
      (⟨fun _ ↦ none, []⟩ : PageTable).pte (vmFault vma addr).address = some p →
        d.own pages (accessOffset vma addr) = some p := fun addr p _ hp ↦ by cases hp
  cases d with
  | mmap1 b =>
    have hpte : ∀ addr, Inside vma addr →
        (mmap1MyMmap b vma true ⟨fun _ ↦ none, []⟩).2.pte (vmFault vma addr).address =
          some (b.frame (accessOffset vma addr)) := by
      intro addr hin
      have hpage := mmap1Page_eq b ⟨fun _ ↦ none, []⟩ hin
      obtain ⟨k, q, -, -, hle, hbound, hframe⟩ := b.exists_pages
      have hlt : accessOffset vma addr < 3 :=
        Nat.lt_of_lt_of_le (Nat.add_lt_add_left hin.page.1 vma.vmPgoff) hfits
      have hmod : (b.frame 0 + accessOffset vma addr) % 2 ^ 64 =
          b.frame (accessOffset vma addr) := by
        rw [hframe, hframe]
        omega
      rw [hmod] at hpage
      exact hpage
    refine ⟨?_, fun addr p hin hp ↦ ?_, fun _ _ addr hin hnone ↦ ?_⟩
    · rw [Driver.myMmap, mmap1MyMmap_eq, if_pos rfl]
    · obtain rfl := Option.some_inj.mp ((hpte addr hin).symm.trans hp)
      exact page?_of_lt b (Nat.lt_of_lt_of_le (Nat.add_lt_add_left hin.page.1 vma.vmPgoff) hfits)
    · exact absurd ((hpte addr hin).symm.trans hnone) (by simp)
  | mmap2 b => exact ⟨rfl, hlazy, fun _ hb ↦ by cases hb⟩
  | mmap3 => exact ⟨rfl, hlazy, fun _ hb ↦ by cases hb⟩
  | mmap4 b => exact ⟨rfl, hlazy, fun _ hb ↦ by cases hb⟩

/-- Handlers on other areas go on when an area comes or goes. -/
theorem World.Shows.joins_setArea (hw : w.Shows d content s) (x : Option Vma) (pt : PageTable)
    (hne : ∀ t h, w.running t = some h → h.area ≠ a) (t : Tid) (h : Handler)
    (ht : (w.setArea a x pt).running t = some h) : Joins d (w.setArea a x pt) t h := by
  have ha := hne t h ht
  refine (hw.joins t h ht).congr (Function.update_of_ne ha ..) (fun _ ↦ ?_) (fun _ ↦ rfl) rfl
  exact congrArg (PageTable.pte · _) (Function.update_of_ne ha ..)

/-- **Mapping** a new area. -/
theorem World.Shows.mmap (hw : w.Shows d content s) {mem : Bool}
    (hfine : Fine d content w (.mmap a vma mem)) : s.Allowed (.map (areaViews a vma)) ∧
      (w.mmap d a vma mem).Shows d content (s.next (.map (areaViews a vma))) := by
  obtain ⟨hfree, -, hfits, rfl⟩ := hfine
  obtain ⟨hzero, hshown, heager⟩ := myMmap_spec (d := d) w.pages hfits
  have hmmap : w.mmap d a vma true =
      w.setArea a (some vma) (d.myMmap vma true ⟨fun _ ↦ none, []⟩).2 := by
    rw [World.mmap]
    exact if_pos hzero
  rw [hmmap]
  generalize (d.myMmap vma true ⟨fun _ ↦ none, []⟩).2 = pt at hshown heager
  have hnew : ∀ t h, w.running t = some h → h.area ≠ a := by
    rintro t h ht rfl
    rw [(hw.joins t h ht).there] at hfree
    cases hfree
  have hjoins := hw.joins_setArea (some vma) pt hnew
  generalize hw' : w.setArea a (some vma) pt = w' at hjoins
  have hpages : w'.pages = w.pages := by
    rw [← hw']
    rfl
  have hself : w'.areas a = some vma ∧ w'.pt a = pt := by
    rw [← hw']
    exact ⟨Function.update_self .., Function.update_self ..⟩
  have hother : ∀ a', a' ≠ a → w'.areas a' = w.areas a' ∧ w'.pt a' = w.pt a' := by
    intro a' ha
    rw [← hw']
    exact ⟨Function.update_of_ne ha .., Function.update_of_ne ha ..⟩
  have hkept : Kept d w' := by
    refine ⟨fun a' vma' harea ↦ ?_, fun a' vma' addr p harea hin hp ↦ ?_,
      fun b hb a' vma' addr harea hin hnone ↦ ?_, hpages ▸ hw.kept.inj⟩
    all_goals by_cases ha : a' = a
    · rw [ha, hself.1, Option.some_inj] at harea
      exact harea ▸ hfits
    · exact hw.kept.fits a' vma' ((hother a' ha).1 ▸ harea)
    · rw [ha, hself.1, Option.some_inj] at harea
      rw [ha, hself.2] at hp
      subst harea
      exact hpages ▸ hshown addr p hin hp
    · rw [(hother a' ha).1] at harea
      rw [(hother a' ha).2] at hp
      exact hpages ▸ hw.kept.shown a' vma' addr p harea hin hp
    · rw [ha, hself.1, Option.some_inj] at harea
      rw [ha, hself.2] at hnone
      subst harea
      exact heager b hb addr hin hnone
    · rw [(hother a' ha).1] at harea
      rw [(hother a' ha).2] at hnone
      exact hw.kept.eager b hb a' vma' addr harea hin hnone
  have hplace : w'.place d = w.place d := by
    funext c
    rw [World.place, World.place, hpages]
  have hmem : w'.mem content = w.mem content := by
    rw [← hw']
    rfl
  have hloc : ∀ v, w'.loc d v =
      ((areaViews a vma v).map fun c ↦ some (w.place d c)).getD (w.loc d v) := by
    intro v
    rw [areaViews, World.loc, World.loc, World.cell, World.cell]
    by_cases ha : v.1 = a
    · rw [if_pos ha, ha, hself.1, hfree, hplace, Option.bind_some]
      cases cellOf vma v.2 <;> rfl
    · rw [if_neg ha, (hother v.1 ha).1, hplace]
      rfl
  obtain ⟨hok, hmap⟩ := hw.placed.map (fun _ _ _ ↦ rfl) hloc
  refine ⟨hok, hkept, hjoins, ?_⟩
  rw [hplace, hmem]
  exact hmap

/-- **Unmapping** an area. -/
theorem World.Shows.munmap (hw : w.Shows d content s)
    (hfine : Fine d content w (.munmap a)) :
    (w.setArea a none ⟨fun _ ↦ none, []⟩).Shows d content (s.next (.unmap fun v ↦ v.1 = a)) := by
  have hold : ∀ a' vma, (w.setArea a none ⟨fun _ ↦ none, []⟩).areas a' = some vma →
      w.areas a' = some vma ∧ (w.setArea a none ⟨fun _ ↦ none, []⟩).pt a' = w.pt a' := by
    intro a' vma harea
    change Function.update w.areas a none a' = some vma at harea
    by_cases ha : a' = a
    · rw [ha, Function.update_self] at harea
      cases harea
    · rw [Function.update_of_ne ha] at harea
      exact ⟨harea, Function.update_of_ne ha ..⟩
  have hkept : Kept d (w.setArea a none ⟨fun _ ↦ none, []⟩) := by
    refine ⟨fun a' vma harea ↦ hw.kept.fits a' vma (hold a' vma harea).1,
      fun a' vma addr p harea hin hp ↦ ?_, fun b hb a' vma addr harea hin hnone ↦ ?_, hw.kept.inj⟩
    · obtain ⟨harea, hpt⟩ := hold a' vma harea
      rw [hpt] at hp
      exact hw.kept.shown a' vma addr p harea hin hp
    · obtain ⟨harea, hpt⟩ := hold a' vma harea
      rw [hpt] at hnone
      exact hw.kept.eager b hb a' vma addr harea hin hnone
  refine ⟨hkept, hw.joins_setArea none _ hfine, hw.placed.unmap fun v ↦ ?_⟩
  change ((Function.update w.areas a none v.1).bind fun vma ↦ cellOf vma v.2).map (w.place d) = _
  by_cases ha : v.1 = a
  · simp [ha]
  · simp [ha, World.loc, World.cell]

/-- **The driver, just loaded**, implements a device that nobody has mapped. -/
theorem World.Loaded.shows (hl : w.Loaded d content) : w.Shows d content (device content) := by
  have hinj : ∀ i j p, d.own w.pages i = some p → d.own w.pages j = some p → i = j := by
    intro i j p hi hj
    by_cases hd : d = .mmap3
    · have hlt := own_lt hi
      rw [hd, Driver.own, dif_pos hlt, hl.pages] at hi
      cases hi
    · obtain ⟨b, hb⟩ := own_of_buffer w.pages hd
      have heq : b.frame i = b.frame j := by
        rw [← Option.some_inj, ← hb i (own_lt hi), ← hb j (own_lt hj), hi, hj]
      exact Nat.add_left_cancel heq
  have hkept : Kept d w := by
    refine ⟨fun a vma harea ↦ ?_, fun a vma addr p harea ↦ ?_, fun b _ a vma addr harea ↦ ?_, hinj⟩
    all_goals
      rw [hl.areas a] at harea
      cases harea
  refine ⟨hkept, fun t h ht ↦ ?_, fun c c' p hc hc' ↦ ?_, fun c ↦ ?_, fun v ↦ ?_,
    fun v c hv ↦ by cases hv⟩
  · rw [hl.running t] at ht
    cases ht
  · exact World.place_inj hkept (Option.some_inj.mp (hc.trans hc'.symm))
  · rw [Option.map_some]
    refine congrArg some ?_
    cases hown : d.own w.pages c.1 with
    | some p => rw [World.place_of_own hown, World.mem, hl.content_eq c.1 p hown]
    | none => rw [World.place_of_not_own hown, World.mem]
  · rw [World.loc, World.cell, hl.areas v.1]
    rfl

/-! ## Runs -/

/-- **A step of a handler** does nothing to the device, and nobody is sent a signal. -/
theorem World.Shows.advance (hw : w.Shows d content s) (ht : w.running t = some h)
    (hfine : Fine d content w (.step t o)) :
    (w.advance d t o h).Shows d content s ∧ ¬ w.signalled d o h := by
  have hok := hfine h ht
  have hquiet : h.next ≠ .insert → ¬ w.signalled d o h := fun hne hsignal ↦ hne hsignal.1
  rw [World.advance]
  cases hnext : h.next with
  | test =>
    rw [hnext] at hok
    exact ⟨hw.test ht hnext hok, hquiet (by simp [hnext])⟩
  | alloc =>
    rw [hnext] at hok
    exact ⟨hw.alloc ht hnext hok, hquiet (by simp [hnext])⟩
  | insert =>
    rw [hnext] at hok
    exact hw.insert ht hnext hok

/-- **The drivers implement the device.** -/
theorem implements_device (d : Driver) (content : Fin 3 → ℕ → UInt8) :
    (machine d).Implements (Fine d content) (World.observe · d) Store.machine Store.Allowed
      Store.observe (fun _ ↦ meaning) (World.Shows d content) := by
  intro w s op w' hw hfine hstep
  change w.next d op = some w' at hstep
  cases op with
  | mmap a vma mem =>
    obtain rfl := Option.some_inj.mp hstep
    obtain ⟨hok, hshows⟩ := hw.mmap hfine
    exact ⟨_, .single hok rfl, hshows, rfl⟩
  | munmap a =>
    obtain rfl := Option.some_inj.mp hstep
    exact ⟨_, .single trivial rfl, hw.munmap hfine, rfl⟩
  | fault t a addr => exact ⟨s, .nil s, hw.fault hfine hstep, rfl⟩
  | step t o =>
    obtain ⟨h, ht, rfl⟩ := Option.map_eq_some_iff.mp hstep
    obtain ⟨hshows, hquiet⟩ := hw.advance ht hfine
    refine ⟨s, .nil s, hshows, ?_⟩
    show [] = (w.running t).elim [] _
    rw [ht, Option.elim_some, if_neg hquiet]
  | read a addr =>
    obtain ⟨hready, ⟨⟩⟩ := Option.ite_none_right_eq_some.mp hstep
    refine ⟨_, .single trivial rfl, hw, ?_⟩
    exact congrArg (· :: []) (hw.byte_eq hready).symm
  | write a addr val =>
    obtain ⟨hready, ⟨⟩⟩ := Option.ite_none_right_eq_some.mp hstep
    exact ⟨_, .single trivial rfl, hw.store val hready, rfl⟩

/-- **Each driver is the device.**  As long as areas lie in the buffer, the kernel finds memory, and
handlers run apart, what the processes see is what they would read in three pages that are shared by
all areas: which of the drivers it is, when pages are mapped and allocated, and what comes between
the steps of the handlers, does not matter. -/
theorem reads_eq_device {ops : List Op} (hl : w.Loaded d content)
    (hrun : (machine d).Run (Fine d content) w ops w') :
    (∃ s, Store.machine.Run Store.Allowed (device content) (ops.flatMap meaning) s) ∧
      reads d w ops =
        Store.machine.outputs Store.observe (device content) (ops.flatMap meaning) := by
  obtain ⟨s, hstore, -, hout⟩ := (implements_device d content).run hrun hl.shows
  rw [hrun.outputs_const] at hstore hout
  exact ⟨⟨s, hstore⟩, hout.symm⟩

/-- The driver, just loaded, on memory that is cleared. -/
def fresh : World where
  ram _ _ := 0
  pages _ := none
  areas _ := none
  pt _ := ⟨fun _ ↦ none, []⟩
  running _ := none

theorem fresh_loaded (d : Driver) : fresh.Loaded d fun _ _ ↦ 0 :=
  ⟨fun _ ↦ rfl, fun _ ↦ rfl, fun _ ↦ rfl, fun _ _ _ ↦ rfl, fun _ _ _ ↦ rfl⟩

theorem fine_mmap_testArea {d : Driver} {content : Fin 3 → ℕ → UInt8} {w : World} {a : ℕ}
    (hfree : w.areas a = none) : Fine d content w (.mmap a testArea true) :=
  ⟨hfree, rfl, by decide, rfl⟩

/-- A process writes a byte and reads it: page 7 is allocated for it. -/
def oneByte : List Op :=
  [.mmap 0 testArea true, .fault 0 0 4096, .step 0 ⟨none, true⟩,
    .step 0 ⟨some (7, fun _ ↦ 0), true⟩, .step 0 ⟨none, true⟩, .write 0 4096 65, .read 0 4096]

theorem oneByte_fine : ∃ w, (machine .mmap3).Run (Fine .mmap3 fun _ _ ↦ 0) fresh oneByte w := by
  refine ⟨_, .cons (fine_mmap_testArea rfl) rfl (.cons ?_ rfl (.cons ?_ rfl (.cons ?_ rfl
    (.cons ?_ rfl (.cons trivial rfl (.cons trivial rfl (.nil _)))))))⟩
  · exact fun _ vma hin _ t' h' _ ht' ↦ nomatch ht'
  · rintro _ ⟨⟩ - t' h' hne ht'
    rw [show World.running _ t' = none from Function.update_of_ne hne ..] at ht'
    cases ht'
  · rintro _ ⟨⟩ i hi
    refine ⟨7, rfl, fun j hj ↦ ?_⟩
    rw [Driver.own] at hj
    split at hj <;> cases hj
  · rintro _ ⟨⟩
    rfl

theorem reads_eq_device_oneByte : reads .mmap3 fresh oneByte = [some 65] := by
  obtain ⟨w, hrun⟩ := oneByte_fine
  exact (reads_eq_device (fresh_loaded _) hrun).2.trans (by decide)

/-- **The drivers agree.**  Processes that do the same with two drivers whose pages contain the same
in the beginning see the same. -/
theorem drivers_agree {d' : Driver} {ops ops' : List Op} {w₁ w' w₁' : World}
    (hl : w.Loaded d content) (hrun : (machine d).Run (Fine d content) w ops w₁)
    (hl' : w'.Loaded d' content) (hrun' : (machine d').Run (Fine d' content) w' ops' w₁')
    (hsame : ops.flatMap meaning = ops'.flatMap meaning) : reads d w ops = reads d' w' ops' := by
  rw [(reads_eq_device hl hrun).2, (reads_eq_device hl' hrun').2, hsame]

/-- Two threads touch two pages of an area, and one of them goes on first. -/
def twoThreads : List Op :=
  [.mmap 0 testArea true, .fault 0 0 4096, .fault 1 0 8192, .step 1 ⟨none, true⟩,
    .step 0 ⟨none, true⟩, .write 0 4096 65, .read 0 4096]

theorem twoThreads_fine : ∃ w, (machine (.mmap2 testBuffer)).Run
    (Fine (.mmap2 testBuffer) fun _ _ ↦ 0) fresh twoThreads w := by
  refine ⟨_, .cons (fine_mmap_testArea rfl) rfl (.cons ?_ rfl (.cons ?_ rfl (.cons ?_ rfl
    (.cons ?_ rfl (.cons trivial rfl (.cons trivial rfl (.nil _)))))))⟩
  · exact fun _ vma hin _ t' h' _ ht' ↦ nomatch ht'
  · rintro - _ hin ⟨⟩ t' h' - ht' -
    rcases running_move ht' with ⟨-, ⟨⟩⟩ | ⟨-, hnone⟩
    · exact (by decide : (vmFault testArea 4096).address ≠ (vmFault testArea 8192).address)
    · cases hnone
  · rintro _ ⟨⟩
    rfl
  · rintro _ ⟨⟩
    rfl

/-- With mmap3 it is one thread, and its page is allocated. -/
theorem drivers_agree_oneByte :
    reads (.mmap2 testBuffer) fresh twoThreads = reads .mmap3 fresh oneByte := by
  obtain ⟨w, hrun⟩ := twoThreads_fine
  obtain ⟨w', hrun'⟩ := oneByte_fine
  exact drivers_agree (fresh_loaded _) hrun (fresh_loaded _) hrun' rfl

/-- Without the guard they can be told apart: two threads touch one page. -/
def onePage : List Op :=
  [.mmap 0 testArea true, .fault 0 0 4096, .fault 1 0 4097, .step 0 ⟨none, true⟩,
    .step 1 ⟨none, true⟩]

example : reads (.mmap2 testBuffer) fresh onePage = [none] ∧
    reads (.mmap4 testBuffer) fresh onePage = [] := by decide

/-! ## The test program -/

/-- The byte of the device that is `k` bytes after the start of page `off`. -/
def cellAt (off k : ℕ) : Cell := (Fin.ofNat 3 (off + k / pageSize), k % pageSize)

theorem cellAt_inj {off j k : ℕ} (hj : off + j / pageSize < 3) (hk : off + k / pageSize < 3)
    (h : cellAt off j = cellAt off k) : j = k := by
  obtain ⟨hpage, hmod⟩ := Prod.mk.inj h
  have hdiv : off + j / pageSize = off + k / pageSize := by
    rw [← Nat.mod_eq_of_lt hj, ← Nat.mod_eq_of_lt hk]
    exact congrArg Fin.val hpage
  rw [← Nat.div_add_mod j pageSize, ← Nat.div_add_mod k pageSize, Nat.add_left_cancel hdiv, hmod]

/-- The pages of an area that lies in the buffer. -/
theorem offset_lt {vma : Vma} {k : ℕ} (hfits : vma.vmPgoff + vma.pages ≤ 3)
    (hk : k < pageSize * vma.pages) : vma.vmPgoff + k / pageSize < 3 :=
  Nat.lt_of_lt_of_le (Nat.add_lt_add_left (Nat.div_lt_of_lt_mul hk) _) hfits

theorem cellOf_add {vma : Vma} {k : ℕ} (hfits : vma.vmPgoff + vma.pages ≤ 3)
    (hk : k < pageSize * vma.pages) :
    cellOf vma (vma.vmStart + k) = some (cellAt vma.vmPgoff k) := by
  have hin : Inside vma (vma.vmStart + k) :=
    ⟨Nat.le_add_right .., by rw [vma.vmEnd_eq, Vma.addr]; exact Nat.add_lt_add_left hk _⟩
  have hoff : accessOffset vma (vma.vmStart + k) = vma.vmPgoff + k / pageSize := by
    rw [accessOffset, Nat.add_sub_cancel_left]
  have hmod : (vma.vmStart + k) % pageSize = k % pageSize := by
    obtain ⟨m, hm⟩ := vma.start_aligned
    rw [hm, Nat.mul_add_mod]
  have hlt := offset_lt hfits hk
  have hlt' : accessOffset vma (vma.vmStart + k) < 3 := hoff ▸ hlt
  refine (dif_pos ⟨hin, hlt'⟩).trans ?_
  rw [hmod]
  refine congrArg (fun i ↦ some (i, k % pageSize)) (Fin.ext ?_)
  exact hoff.trans (Nat.mod_eq_of_lt hlt).symm

/-- What a process does itself; faults and the steps of the handlers come by themselves. -/
def Op.visible : Op → Bool
  | .fault _ _ _ => false
  | .step _ _ => false
  | _ => true

theorem flatMap_meaning_filter (ops : List Op) :
    (ops.filter Op.visible).flatMap meaning = ops.flatMap meaning := by
  induction ops with
  | nil => rfl
  | cons op ops ih =>
    rw [List.flatMap_cons, ← ih]
    cases op <;> rfl

/-- The test program: map an area, write `n` bytes from its start on, and unmap it; map an area and
read `n` bytes. -/
def writeAndRead (a : ℕ) (vma : Vma) (a' : ℕ) (vma' : Vma) (n : ℕ) (str : ℕ → UInt8) : List Op :=
  (.mmap a vma true :: (List.range n).map fun k ↦ .write a (vma.vmStart + k) (str k)) ++
    (.munmap a :: .mmap a' vma' true :: (List.range n).map fun k ↦ .read a' (vma'.vmStart + k))

theorem writeAndRead_meaning (a : ℕ) (vma : Vma) (a' : ℕ) (vma' : Vma) (n : ℕ)
    (str : ℕ → UInt8) : (writeAndRead a vma a' vma' n str).flatMap meaning =
      (.map (areaViews a vma) ::
          (List.range n).map fun k ↦ .write (a, vma.vmStart + k) (str k)) ++
        ([.unmap fun v ↦ v.1 = a, .map (areaViews a' vma')] ++
          ((List.range n).map fun k ↦ (a', vma'.vmStart + k)).map .read) := by
  rw [writeAndRead, List.flatMap_append, List.flatMap_cons, List.flatMap_cons, List.flatMap_cons,
    List.flatMap_map, List.flatMap_map, List.map_map]
  simp only [meaning, Function.comp_def, List.map_eq_flatMap, List.cons_append, List.nil_append]

/-- The areas that are mapped in a run lie in the buffer. -/
theorem fits_of_mem {ops : List Op} {mem : Bool}
    (hrun : (machine d).Run (Fine d content) w ops w') (hop : .mmap a vma mem ∈ ops) :
    vma.vmPgoff + vma.pages ≤ 3 := by
  obtain ⟨_, -, -, hfits, -⟩ := hrun.exists_ok hop
  exact hfits

/-- **What is written is read back**, as the test program does: whatever was done to a driver
before, and whatever its handlers do in between, bytes that are written through one area are what is
then read through another one at the same offset, when the first is gone. -/
theorem reads_written {ops ops' : List Op} {w₁ w₂ : World} {a' n : ℕ} {vma' : Vma}
    {str : ℕ → UInt8} (hl : w.Loaded d content)
    (hrun : (machine d).Run (Fine d content) w ops w₁)
    (hrun' : (machine d).Run (Fine d content) w₁ ops' w₂)
    (hprog : ops'.filter Op.visible = writeAndRead a vma a' vma' n str)
    (hoff : vma'.vmPgoff = vma.vmPgoff) (hn : n ≤ pageSize * vma.pages)
    (hn' : n ≤ pageSize * vma'.pages) :
    reads d w₁ ops' = (List.range n).map fun k ↦ some (str k) := by
  obtain ⟨s, -, hs, -⟩ := (implements_device d content).run hrun hl.shows
  obtain ⟨-, -, -, hout⟩ := (implements_device d content).run hrun' hs
  have hmem : ∀ op ∈ writeAndRead a vma a' vma' n str, op ∈ ops' := fun op hop ↦
    List.mem_of_mem_filter (hprog ▸ hop)
  have hfits : vma.vmPgoff + vma.pages ≤ 3 :=
    fits_of_mem hrun' (hmem (.mmap a vma true) (by simp [writeAndRead]))
  have hfits' : vma'.vmPgoff + vma'.pages ≤ 3 :=
    fits_of_mem hrun' (hmem (.mmap a' vma' true) (by simp [writeAndRead]))
  have hview : ∀ k < n, (s.next (.map (areaViews a vma))).view (a, vma.vmStart + k) =
      some (cellAt vma.vmPgoff k) := by
    intro k hk
    show (areaViews a vma (a, vma.vmStart + k)).or _ = _
    rw [areaViews, if_pos rfl, cellOf_add hfits (Nat.lt_of_lt_of_le hk hn), Option.some_or]
  have hinj : ∀ j k, j < n → k < n → cellAt vma.vmPgoff j = cellAt vma.vmPgoff k → j = k :=
    fun j k hj hk ↦ cellAt_inj (offset_lt hfits (Nat.lt_of_lt_of_le hj hn))
      (offset_lt hfits (Nat.lt_of_lt_of_le hk hn))
  have hback : ∀ k < n, areaViews a' vma' (a', vma'.vmStart + k) =
      some (cellAt vma.vmPgoff k) := by
    intro k hk
    rw [areaViews, if_pos rfl, cellOf_add hfits' (Nat.lt_of_lt_of_le hk hn'), hoff]
  have hmap : Store.machine.step s (.map (areaViews a vma)) =
      some (s.next (.map (areaViews a vma))) := rfl
  rw [hrun'.outputs_const, ← flatMap_meaning_filter, hprog, writeAndRead_meaning, List.cons_append,
    Machine.outputs_cons hmap, Store.outputs_writes_reads str _ hview hinj hback] at hout
  exact hout.symm

/-- Two letters, written and read back; each of the areas has its page touched once. -/
def twoLetters : List Op :=
  [.mmap 0 testArea true, .fault 0 0 4096, .step 0 ⟨none, true⟩, .write 0 4096 104,
    .write 0 4097 105, .munmap 0, .mmap 1 testArea true, .fault 0 1 4096, .step 0 ⟨none, true⟩,
    .read 1 4096, .read 1 4097]

theorem reads_written_twoLetters : ∃ w, (machine (.mmap2 testBuffer)).Run
      (Fine (.mmap2 testBuffer) fun _ _ ↦ 0) fresh twoLetters w ∧
    reads (.mmap2 testBuffer) fresh twoLetters = [some 104, some 105] := by
  have hidle : ∀ (x : Option Handler) (t : Tid) (h : Handler),
      ¬ Function.update (Function.update fresh.running 0 x) 0 none t = some h := by
    intro x t h ht
    rw [Function.update_idem, show Function.update fresh.running 0 none = fresh.running from
      Function.update_eq_self 0 fresh.running] at ht
    cases ht
  have hrun : ∃ w, (machine (.mmap2 testBuffer)).Run
      (Fine (.mmap2 testBuffer) fun _ _ ↦ 0) fresh twoLetters w := by
    refine ⟨_, .cons (fine_mmap_testArea rfl) rfl (.cons ?_ rfl (.cons ?_ rfl (.cons trivial rfl
      (.cons trivial rfl (.cons ?_ rfl (.cons (fine_mmap_testArea rfl) rfl (.cons ?_ rfl
        (.cons ?_ rfl (.cons trivial rfl (.cons trivial rfl (.nil _)))))))))))⟩
    · exact fun _ vma hin _ t' h' _ ht' ↦ nomatch ht'
    · rintro _ ⟨⟩
      rfl
    · exact fun t h ht ↦ absurd ht (hidle _ t h)
    · exact fun _ vma hin _ t' h' _ ht' ↦ absurd ht' (hidle _ t' h')
    · rintro _ ⟨⟩
      rfl
  obtain ⟨w, hrun⟩ := hrun
  have hprog : twoLetters.filter Op.visible =
      writeAndRead 0 testArea 1 testArea 2 fun k ↦ 104 + UInt8.ofNat k := rfl
  refine ⟨w, hrun, ?_⟩
  exact (reads_written (fresh_loaded _) (.nil fresh) hrun hprog rfl (by decide) (by decide)).trans
    (by decide)

end

end Mmap.SharedDevice
