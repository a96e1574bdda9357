import SampleDrivers.DmaBuf.BufferPages
import SampleDrivers.DmaBuf.StaleData
import SampleDrivers.Lib.Refinement
import SampleDrivers.Lib.SharedStore

/-!
# Exported buffers as shared memory

What the exporters, the page tables and the private copies of the processes amount to: the bytes of
the buffers are the cells of a store, and a mapped address of a process is a view of a cell.

* `Cell`, `View` — a byte of a buffer, or of a copy a process has of a page it has written in a
  private area; an address of a process.
* `World.meaning` — what an operation means for the store.  `mmap` leads the addresses of the pages
  it maps to the bytes of the buffer; the first write to a page of a private area makes a copy and
  leads the page there; every other write goes to the cell its address shows.
* `Unseen` — a buffer is released only when no page table shows a page of it.
* `reads_eq_store` — under that guard the processes read what they would read in the store.
* `World.ReadOnly` — a shared mapping cannot be written: `exp_info.flags` has no `O_RDWR`.
* `byte_eq_exported` — so an exported buffer is constant for the processes as long as it lives.
-/

set_option autoImplicit false

namespace DmaBuf

open Kernel Prog

namespace UserMemory

/-! ## Cells and views -/

/-- A byte that a process can have mapped. -/
inductive Cell
  /-- Byte `off` of page `i` of buffer `b`. -/
  | buf (b : BufId) (i off : ℕ)
  /-- Byte `off` of the copy a process has of the page at `base`. -/
  | copy (pid : Pid) (base off : ℕ)
  deriving DecidableEq

/-- An address of a process. -/
abbrev View := Pid × ℕ

/-- Where a byte lies. -/
inductive Place
  | ram (p : Page) (off : ℕ)
  | copy (pid : Pid) (base off : ℕ)
  deriving DecidableEq

namespace World

/-- Where a cell lies. -/
def place (w : World) : Cell → Option Place
  | .buf b i off => (w.k.frame (b, i)).map fun p ↦ .ram p off
  | .copy pid base off => (w.copies pid base).map fun _ ↦ .copy pid base off

/-- What lies in a place. -/
def mem (w : World) : Place → Byte
  | .ram p off => w.k.ram p off
  | .copy pid base off => ((w.copies pid base).getD fun _ ↦ ⟨0, false⟩) off

/-- Where an address of a process leads. -/
def loc (w : World) (v : View) : Option Place :=
  match (w.k.tables v.1).pte (pageBase v.2) with
  | some p => some (.ram p (v.2 % pageSize))
  | none => (w.copies v.1 (pageBase v.2)).map fun _ ↦ .copy v.1 (pageBase v.2) (v.2 % pageSize)

variable (w : World)

theorem byte_eq (pid : Pid) (addr : ℕ) : w.byte pid addr = (w.loc (pid, addr)).map w.mem := by
  rw [byte, loc]
  cases (w.k.tables pid).pte (pageBase addr) with
  | some p => rfl
  | none =>
    cases hc : w.copies pid (pageBase addr) with
    | none => rfl
    | some c => simp [hc, mem]

end World

/-! ## What an operation means for the store -/

/-- The addresses of a process whose pages start in a range. -/
def viewsIn (pid : Pid) (start stop : ℕ) (v : View) : Bool :=
  v.1 = pid ∧ start ≤ pageBase v.2 ∧ pageBase v.2 < stop

/-- The copies a process has of the pages that start in a range. -/
def copiesIn (pid : Pid) (start stop : ℕ) : Cell → Bool
  | .copy pid' base _ => pid' = pid ∧ start ≤ base ∧ base < stop
  | .buf _ _ _ => false

/-- The pages of a process in a range of addresses show nothing, and its copies of them go. -/
def unmapped (pid : Pid) (start stop : ℕ) : List (Store.Op Cell View Byte) :=
  [.unmap (viewsIn pid start stop), .destroy (copiesIn pid start stop)]

/-- The bytes of a copy. -/
def copyCells (pid : Pid) (base : ℕ) (bytes : ℕ → Byte) : Cell → Option Byte
  | .copy pid' base' off => if pid' = pid ∧ base' = base then some (bytes off) else none
  | .buf _ _ _ => none

/-- The addresses of a page show a copy of it. -/
def copyViews (pid : Pid) (base : ℕ) (v : View) : Option Cell :=
  if v.1 = pid ∧ pageBase v.2 = base then some (.copy pid base (v.2 % pageSize)) else none

/-- A process gets a copy of its own of the page at `base`. -/
def copied (pid : Pid) (base : ℕ) (bytes : ℕ → Byte) : List (Store.Op Cell View Byte) :=
  unmapped pid base (base + 1) ++
    [.create (copyCells pid base bytes), .map (copyViews pid base)]

/-- The bytes of a buffer. -/
def bufCells (b : BufId) : Cell → Bool
  | .buf b' _ _ => b' = b
  | .copy _ _ _ => false

/-- The addresses of a process that a mapping leads to a buffer. -/
def bufViews (k : KState) (b : BufId) (pid : Pid) (vma : Vma) (mem : ℕ → Bool) (v : View) :
    Option Cell :=
  if v.1 = pid then (k.shown b vma mem (pageBase v.2)).map fun i ↦ .buf b i (v.2 % pageSize)
  else none

namespace World

/-- The cells that an operation brings into being, with what they contain. -/
def created (w w' : World) (c : Cell) : Option Byte :=
  if (w.place c).isNone then (w'.place c).map w'.mem else none

/-- What an operation means. -/
def meaning (ionIocAlloc : BitVec 32) (w : World) : UserOp → List (Store.Op Cell View Byte)
  | .exporterInit o => [.create (w.created (w.next ionIocAlloc (.exporterInit o)))]
  | .exporterIoctl _ _ _ => []
  | .ionIoctl pid cmd len o => [.create (w.created (w.next ionIocAlloc (.ionIoctl pid cmd len o)))]
  | .mmap pid fd vma writable mem =>
    match w.mappable pid fd vma writable with
    | none => []
    | some b => unmapped pid vma.vmStart vma.vmEnd ++ [.map (bufViews w.k b pid vma mem)]
  | .munmap pid start stop => unmapped pid start stop
  | .read pid addr => [.read (pid, addr)]
  | .write pid addr val =>
    match (w.k.tables pid).pte (pageBase addr), w.access pid (pageBase addr) with
    | some _, .readOnly => []
    | some p, .copyOnWrite =>
      copied pid (pageBase addr) (w.k.ram p) ++ [.write (pid, addr) ⟨val, false⟩]
    | _, _ => [.write (pid, addr) ⟨val, false⟩]
  | .close _ _ => []
  | .release b => [.destroy (bufCells b)]

end World

/-- The operations, in any order. -/
def machine (ionIocAlloc : BitVec 32) : Machine World UserOp :=
  ⟨fun w op ↦ some (w.next ionIocAlloc op)⟩

/-- A buffer is released only when no page table shows a page of it. -/
def Unseen (w : World) : UserOp → Prop
  | .release b => ∀ pid addr p i, (w.k.tables pid).pte addr = some p → w.k.frame (b, i) ≠ some p
  | _ => True

/-- The bytes that are read from the store. -/
def values (s : Store Cell View Byte) (op : Store.Op Cell View Byte) : List (Option UInt8) :=
  (s.observe op).map (Option.map Byte.val)

/-! ## The store that a world implements -/

/-- The world implements the store. -/
structure World.Shows (w : World) (s : Store Cell View Byte) : Prop where
  apart : Apart w.k
  placed : s.Placed w.place w.mem w.loc

/-- The operations on the store lead from `s` to a store that the world implements. -/
def World.ShownBy (w : World) (s : Store Cell View Byte) (ops : List (Store.Op Cell View Byte)) :
    Prop :=
  ∃ t, Store.machine.Run Store.Allowed s ops t ∧ w.Shows t

section

variable {w w' : World} {s : Store Cell View Byte} {ops ops' : List (Store.Op Cell View Byte)}

theorem World.Shows.shownBy (h : w.Shows s) : w.ShownBy s [] := ⟨s, .nil s, h⟩

/-- One operation. -/
theorem World.ShownBy.single {op : Store.Op Cell View Byte} (hok : s.Allowed op)
    (h : w.Shows (s.next op)) : w.ShownBy s [op] :=
  ⟨_, .single hok rfl, h⟩

/-- One operation after another. -/
theorem World.ShownBy.append (h : w.ShownBy s ops) (h' : ∀ t, w.Shows t → w'.ShownBy t ops') :
    w'.ShownBy s (ops ++ ops') := by
  obtain ⟨t, hrun, ht⟩ := h
  obtain ⟨r, hrun', hr⟩ := h' t ht
  exact ⟨r, hrun.append hrun', hr⟩

/-- Two worlds with the same memory implement the same store. -/
theorem World.Shows.congr (h : w.Shows s) (hk : Apart w'.k) (hplace : w'.place = w.place)
    (hmem : w'.mem = w.mem) (hloc : w'.loc = w.loc) : w'.Shows s :=
  ⟨hk, by rw [hplace, hmem, hloc]; exact h.placed⟩

end

/-! ## Places and addresses -/

section

variable {w : World} {s : Store Cell View Byte} {pid : Pid} {base off : ℕ} {v : View}

theorem World.place_buf (w : World) (b : BufId) (i off : ℕ) :
    w.place (.buf b i off) = (w.k.frame (b, i)).map fun p ↦ .ram p off := rfl

theorem World.place_copy (w : World) (pid : Pid) (base off : ℕ) :
    w.place (.copy pid base off) = (w.copies pid base).map fun _ ↦ .copy pid base off := rfl

theorem World.loc_of_pte {p : Page} (h : (w.k.tables v.1).pte (pageBase v.2) = some p) :
    w.loc v = some (.ram p (v.2 % pageSize)) := by
  rw [loc, h]

theorem World.loc_of_no_pte (h : (w.k.tables v.1).pte (pageBase v.2) = none) :
    w.loc v = w.place (.copy v.1 (pageBase v.2) (v.2 % pageSize)) := by
  rw [loc, h, place]

/-- An address that leads to a copy leads to the copy of its page. -/
theorem World.of_loc_copy (h : w.loc v = some (.copy pid base off)) :
    v.1 = pid ∧ pageBase v.2 = base ∧ (w.copies pid base).isSome := by
  cases hpte : (w.k.tables v.1).pte (pageBase v.2) with
  | some p =>
    rw [World.loc_of_pte hpte, Option.some_inj] at h
    cases h
  | none =>
    rw [World.loc_of_no_pte hpte, World.place_copy] at h
    obtain ⟨c, hc, hcopy⟩ := Option.map_eq_some_iff.mp h
    obtain ⟨rfl, rfl, -⟩ := Place.copy.inj hcopy
    exact ⟨rfl, rfl, by rw [hc]; rfl⟩

/-- An address that leads into memory is mapped. -/
theorem World.of_loc_ram {p : Page} (h : w.loc v = some (.ram p off)) :
    (w.k.tables v.1).pte (pageBase v.2) = some p := by
  cases hpte : (w.k.tables v.1).pte (pageBase v.2) with
  | some q =>
    rw [World.loc_of_pte hpte, Option.some_inj] at h
    rw [(Place.ram.inj h).1]
  | none =>
    rw [World.loc_of_no_pte hpte, World.place_copy] at h
    obtain ⟨c, -, hcopy⟩ := Option.map_eq_some_iff.mp h
    cases hcopy

/-- Cells that lie in the same place are the same. -/
theorem World.place_inj (hk : Apart w.k) {c c' : Cell} {p : Place} (h : w.place c = some p)
    (h' : w.place c' = some p) : c = c' := by
  cases c with
  | buf b i off =>
    obtain ⟨q, hq, rfl⟩ := Option.map_eq_some_iff.mp h
    cases c' with
    | buf b' i' off' =>
      obtain ⟨q', hq', heq⟩ := Option.map_eq_some_iff.mp h'
      obtain ⟨rfl, rfl⟩ := Place.ram.inj heq
      obtain ⟨rfl, rfl⟩ := Prod.mk.inj (hk.frame_inj _ _ _ hq hq')
      rfl
    | copy pid base off' =>
      obtain ⟨c, -, heq⟩ := Option.map_eq_some_iff.mp h'
      cases heq
  | copy pid base off =>
    obtain ⟨c, -, rfl⟩ := Option.map_eq_some_iff.mp h
    cases c' with
    | buf b' i' off' =>
      obtain ⟨q', -, heq⟩ := Option.map_eq_some_iff.mp h'
      cases heq
    | copy pid' base' off' =>
      obtain ⟨c', -, heq⟩ := Option.map_eq_some_iff.mp h'
      obtain ⟨rfl, rfl, rfl⟩ := Place.copy.inj heq
      rfl

end

/-! ## Unmapping -/

section

variable {w : World} {s : Store Cell View Byte}

theorem World.unmap_pte (w : World) (pid : Pid) (start stop : ℕ) (pid' : Pid) (a : ℕ) :
    ((w.unmap pid start stop).k.tables pid').pte a =
      if pid' = pid ∧ start ≤ a ∧ a < stop then none else (w.k.tables pid').pte a := by
  by_cases hpid : pid' = pid
  · rw [hpid]
    simp [World.unmap]
  · rw [if_neg fun h ↦ hpid h.1]
    exact congrArg (PageTable.pte · a) (Function.update_of_ne hpid ..)

theorem World.unmap_copies (w : World) (pid : Pid) (start stop : ℕ) (pid' : Pid) (a : ℕ) :
    (w.unmap pid start stop).copies pid' a =
      if pid' = pid ∧ start ≤ a ∧ a < stop then none else w.copies pid' a := by
  by_cases hpid : pid' = pid
  · rw [hpid]
    simp [World.unmap]
  · rw [if_neg fun h ↦ hpid h.1]
    exact congrFun (Function.update_of_ne hpid ..) a

/-- **Unmapping** a range of addresses. -/
theorem World.Shows.unmap (h : w.Shows s) (pid : Pid) (start stop : ℕ) :
    (w.unmap pid start stop).ShownBy s (unmapped pid start stop) := by
  have hunmap : (s.next (.unmap (viewsIn pid start stop))).Placed w.place w.mem
      (w.unmap pid start stop).loc := by
    refine h.placed.unmap fun v ↦ ?_
    by_cases hin : v.1 = pid ∧ start ≤ pageBase v.2 ∧ pageBase v.2 < stop
    · simp only [World.loc, World.unmap_pte, World.unmap_copies, viewsIn, decide_eq_true_eq,
        if_pos hin, Option.map_none]
    · simp only [World.loc, World.unmap_pte, World.unmap_copies, viewsIn, decide_eq_true_eq,
        if_neg hin]
  have hplace : ∀ c, copiesIn pid start stop c = false →
      (w.unmap pid start stop).place c = w.place c := by
    intro c hc
    cases c with
    | buf b i off => rfl
    | copy pid' base off =>
      rw [copiesIn, decide_eq_false_iff_not] at hc
      rw [World.place_copy, World.unmap_copies, if_neg hc, World.place_copy]
  have hunseen : ∀ v c, (s.next (.unmap (viewsIn pid start stop))).view v = some c →
      copiesIn pid start stop c = false := by
    intro v c hv
    cases c with
    | buf b i off => rfl
    | copy pid' base off =>
      obtain ⟨p, hp, hloc⟩ := hunmap.loc_of_view hv
      obtain ⟨-, -, rfl⟩ := Option.map_eq_some_iff.mp hp
      have hcopy := (World.of_loc_copy hloc).2.2
      rw [World.unmap_copies] at hcopy
      rw [copiesIn, decide_eq_false_iff_not]
      intro hin
      rw [if_pos hin] at hcopy
      cases hcopy
  have hdestroy : ((s.next (.unmap (viewsIn pid start stop))).next
      (.destroy (copiesIn pid start stop))).Placed (w.unmap pid start stop).place w.mem
        (w.unmap pid start stop).loc := by
    refine hunmap.destroy hunseen (fun c hc ↦ ?_) hplace
    cases c with
    | buf b i off => cases hc
    | copy pid' base off =>
      rw [copiesIn, decide_eq_true_eq] at hc
      rw [World.place_copy, World.unmap_copies, if_pos hc]
      rfl
  refine ⟨_, .cons trivial rfl (.single hunseen rfl), h.apart.congr rfl rfl rfl, ?_⟩
  refine hdestroy.congr fun c p hp ↦ ?_
  cases c with
  | buf b i off =>
    obtain ⟨q, -, rfl⟩ := Option.map_eq_some_iff.mp hp
    rfl
  | copy pid' base off =>
    obtain ⟨c, hc, rfl⟩ := Option.map_eq_some_iff.mp hp
    rw [World.unmap_copies] at hc
    split at hc
    · cases hc
    · rename_i hout
      rw [World.mem, World.mem, World.unmap_copies, if_neg hout]

end

/-! ## Writing -/

section

variable {w : World} {s : Store Cell View Byte} {pid : Pid} {base addr : ℕ} {bytes : ℕ → Byte}

theorem World.setCopy_pte (w : World) (pid : Pid) (base : ℕ) (bytes : ℕ → Byte) (pid' : Pid)
    (a : ℕ) : ((w.setCopy pid base bytes).k.tables pid').pte a =
      if pid' = pid ∧ a = base then none else (w.k.tables pid').pte a := by
  by_cases hpid : pid' = pid
  · rw [hpid]
    simp [World.setCopy, Function.update_apply]
  · rw [if_neg fun h ↦ hpid h.1]
    exact congrArg (PageTable.pte · a) (Function.update_of_ne hpid ..)

theorem World.setCopy_copies (w : World) (pid : Pid) (base : ℕ) (bytes : ℕ → Byte) (pid' : Pid)
    (a : ℕ) : (w.setCopy pid base bytes).copies pid' a =
      if pid' = pid ∧ a = base then some bytes else w.copies pid' a := by
  by_cases hpid : pid' = pid
  · rw [hpid]
    simp [World.setCopy, Function.update_apply]
  · rw [if_neg fun h ↦ hpid h.1]
    exact congrFun (Function.update_of_ne hpid ..) a

/-- The place of a byte of a copy, once it is made. -/
theorem World.setCopy_place_copy (w : World) (pid : Pid) (base : ℕ) (bytes : ℕ → Byte) (off : ℕ) :
    (w.setCopy pid base bytes).place (.copy pid base off) = some (.copy pid base off) := by
  rw [World.place_copy, World.setCopy_copies, if_pos ⟨rfl, rfl⟩]
  rfl

/-- **A copy of a page** is made and shown in its place. -/
theorem World.Shows.setCopy (h : w.Shows s) (pid : Pid) (base : ℕ) (bytes : ℕ → Byte) :
    (w.setCopy pid base bytes).ShownBy s (copied pid base bytes) := by
  refine (h.unmap pid base (base + 1)).append fun t ht ↦ ?_
  have hin : ∀ (pid' : Pid) a, pid' = pid ∧ base ≤ a ∧ a < base + 1 ↔ pid' = pid ∧ a = base :=
    fun pid' a ↦ and_congr_right fun _ ↦ by omega
  have hcopies : ∀ pid' a, (w.unmap pid base (base + 1)).copies pid' a =
      if pid' = pid ∧ a = base then none else w.copies pid' a := by
    intro pid' a
    rw [World.unmap_copies]
    simp only [hin]
  have hk : Apart (w.setCopy pid base bytes).k := h.apart.congr rfl rfl rfl
  have hcreate : t.Allowed (.create (copyCells pid base bytes)) ∧
      (t.next (.create (copyCells pid base bytes))).Placed (w.setCopy pid base bytes).place
        (w.setCopy pid base bytes).mem (w.unmap pid base (base + 1)).loc := by
    refine ht.placed.create (fun c hc ↦ ?_) (fun c hc ↦ ?_) (fun c p hp ↦ ?_)
      fun c c' p ↦ World.place_inj hk
    · cases c with
      | buf b i off => cases hc
      | copy pid' a off =>
        simp only [copyCells] at hc ⊢
        split at hc
        · rename_i heq
          rw [World.place_copy, hcopies, if_pos heq, heq.1, heq.2, World.setCopy_place_copy,
            if_pos ⟨rfl, rfl⟩]
          simp [World.mem, World.setCopy_copies]
        · cases hc
    · cases c with
      | buf b i off => rfl
      | copy pid' a off =>
        simp only [copyCells] at hc
        split at hc
        · cases hc
        · rename_i hne
          rw [World.place_copy, World.place_copy, hcopies, World.setCopy_copies, if_neg hne,
            if_neg hne]
    · cases c with
      | buf b i off =>
        obtain ⟨q, -, rfl⟩ := Option.map_eq_some_iff.mp hp
        rfl
      | copy pid' a off =>
        obtain ⟨c, hc, rfl⟩ := Option.map_eq_some_iff.mp hp
        rw [hcopies] at hc
        split at hc
        · cases hc
        · rename_i hne
          rw [World.mem, World.mem, hcopies, World.setCopy_copies, if_neg hne, if_neg hne]
  have hmap : (t.next (.create (copyCells pid base bytes))).Allowed (.map (copyViews pid base)) ∧
      ((t.next (.create (copyCells pid base bytes))).next (.map (copyViews pid base))).Placed
        (w.setCopy pid base bytes).place (w.setCopy pid base bytes).mem
        (w.setCopy pid base bytes).loc := by
    refine hcreate.2.map (fun v c hv ↦ ?_) fun v ↦ ?_
    · rw [copyViews] at hv
      split at hv
      · rw [← Option.some_inj.mp hv, World.setCopy_place_copy]
        rfl
      · cases hv
    · rw [copyViews]
      by_cases heq : v.1 = pid ∧ pageBase v.2 = base
      · rw [if_pos heq, Option.map_some, Option.getD_some, World.setCopy_place_copy, World.loc,
          World.setCopy_pte, World.setCopy_copies, if_pos heq, if_pos heq, heq.1, heq.2]
        rfl
      · rw [if_neg heq, Option.map_none, Option.getD_none, World.loc, World.loc, hcopies,
          World.setCopy_pte, World.setCopy_copies, World.unmap_pte, if_neg heq, if_neg heq,
          if_neg heq, if_neg fun hall ↦ heq ((hin ..).mp hall)]
  exact ⟨_, .cons hcreate.1 rfl (.single hmap.1 rfl), hk, hmap.2⟩

/-- Writing to a copy twice. -/
theorem World.setCopy_setCopy (w : World) (pid : Pid) (base : ℕ) (bytes bytes' : ℕ → Byte) :
    (w.setCopy pid base bytes).setCopy pid base bytes' = w.setCopy pid base bytes' := by
  simp only [World.setCopy, KState.setTable_tables_self, KState.setTable_setTable,
    Function.update_idem, Function.update_self]

/-- **Writing to a copy** that is shown. -/
theorem World.Shows.write_copy (h : w.Shows s) (val : UInt8)
    (hpte : (w.k.tables pid).pte (pageBase addr) = none)
    (hcopy : w.copies pid (pageBase addr) = some bytes) :
    (w.setCopy pid (pageBase addr) (storeByte bytes (addr % pageSize) val)).Shows
      (s.next (.write (pid, addr) ⟨val, false⟩)) := by
  generalize hw' : w.setCopy pid (pageBase addr) (storeByte bytes (addr % pageSize) val) = w'
  have hplace : w'.place = w.place := by
    funext c
    cases c with
    | buf b i off => rw [← hw', World.place_buf, World.place_buf]; rfl
    | copy pid' a off =>
      rw [← hw', World.place_copy, World.place_copy, World.setCopy_copies]
      split
      · rename_i heq
        rw [heq.1, heq.2, hcopy]
        rfl
      · rfl
  have hloc : w'.loc = w.loc := by
    funext v
    rw [← hw', World.loc, World.loc, World.setCopy_pte, World.setCopy_copies]
    by_cases heq : v.1 = pid ∧ pageBase v.2 = pageBase addr
    · rw [if_pos heq, if_pos heq, heq.1, heq.2, hpte, hcopy]
      rfl
    · rw [if_neg heq, if_neg heq]
  have hmem : w'.mem = Function.update w.mem (.copy pid (pageBase addr) (addr % pageSize))
      ⟨val, false⟩ := by
    funext p
    cases p with
    | ram p off => rw [Function.update_of_ne (by simp), ← hw']; rfl
    | copy pid' a off =>
      rw [← hw', World.mem, World.setCopy_copies]
      by_cases heq : pid' = pid ∧ a = pageBase addr
      · rw [if_pos heq, heq.1, heq.2]
        by_cases hoff : off = addr % pageSize
        · rw [hoff, Function.update_self]
          exact Function.update_self ..
        · rw [Function.update_of_ne (by simpa using hoff), World.mem, hcopy]
          exact Function.update_of_ne hoff ..
      · rw [if_neg heq, Function.update_of_ne (fun h ↦ heq ?_), World.mem]
        obtain ⟨rfl, rfl, -⟩ := Place.copy.inj h
        exact ⟨rfl, rfl⟩
  have hv : w.loc (pid, addr) = some (.copy pid (pageBase addr) (addr % pageSize)) := by
    rw [World.loc_of_no_pte hpte, World.place_copy, hcopy]
    rfl
  refine ⟨?_, ?_⟩
  · rw [← hw']
    exact h.apart.congr rfl rfl rfl
  · rw [hplace, hloc, hmem]
    exact h.placed.write hv _

theorem World.storeRam_ram (w : World) (p : Page) (off : ℕ) (val : UInt8) (q : Page) (o : ℕ) :
    (w.storeRam p off val).k.ram q o = if q = p ∧ o = off then ⟨val, false⟩ else w.k.ram q o := by
  have hram : (w.storeRam p off val).k.ram =
      Function.update w.k.ram p (storeByte (w.k.ram p) off val) := rfl
  rw [hram, storeByte, Function.update_apply]
  by_cases hq : q = p
  · simp [hq, Function.update_apply]
  · simp [hq]

/-- **Writing to a page of a buffer** that is shown. -/
theorem World.Shows.write_ram (h : w.Shows s) (val : UInt8) {p : Page}
    (hpte : (w.k.tables pid).pte (pageBase addr) = some p) :
    (w.storeRam p (addr % pageSize) val).Shows (s.next (.write (pid, addr) ⟨val, false⟩)) := by
  have hmem : (w.storeRam p (addr % pageSize) val).mem =
      Function.update w.mem (.ram p (addr % pageSize)) ⟨val, false⟩ := by
    funext pl
    cases pl with
    | copy pid' a off => rw [Function.update_of_ne (by simp)]; rfl
    | ram q off =>
      rw [World.mem, World.storeRam_ram, Function.update_apply]
      simp only [Place.ram.injEq]
      rfl
  have hv : w.loc (pid, addr) = some (.ram p (addr % pageSize)) := World.loc_of_pte hpte
  refine ⟨h.apart.congr rfl rfl rfl, ?_⟩
  rw [hmem]
  exact h.placed.write hv _

end

/-! ## Buffers that come and go -/

section

variable {w w' : World} {s : Store Cell View Byte}

/-- Worlds with the same mappings and the same copies, and all frames where they were. -/
theorem World.loc_congr (htables : w'.k.tables = w.k.tables) (hcopies : w'.copies = w.copies) :
    w'.loc = w.loc := by
  funext v
  rw [World.loc, World.loc, htables, hcopies]

/-- **An allocation** brings the bytes of the new buffer into being. -/
theorem World.Shows.alloc {o : Option BufId} (h : w.Shows s) (heffect : BufEffect o w.k w'.k)
    (hbal : w'.k.Balanced) (htables : w'.k.tables = w.k.tables) (hcopies : w'.copies = w.copies) :
    w'.ShownBy s [.create (w.created w')] := by
  have hk := h.apart.effect heffect hbal
  have hstay : ∀ c p, w.place c = some p → w'.place c = some p ∧ w'.mem p = w.mem p := by
    intro c p hp
    cases c with
    | buf b i off =>
      obtain ⟨q, hq, rfl⟩ := Option.map_eq_some_iff.mp hp
      obtain ⟨hframe, hram⟩ := heffect.frame h.apart hq
      exact ⟨by rw [World.place_buf, hframe, Option.map_some], congrFun hram off⟩
    | copy pid base off =>
      obtain ⟨c, -, rfl⟩ := Option.map_eq_some_iff.mp hp
      refine ⟨by rw [World.place_copy, hcopies]; exact hp, by rw [World.mem, World.mem, hcopies]⟩
  have hcreate : s.Allowed (.create (w.created w')) ∧
      (s.next (.create (w.created w'))).Placed w'.place w'.mem w.loc := by
    refine h.placed.create (fun c hc ↦ ?_) (fun c hc ↦ ?_) (fun c p hp ↦ (hstay c p hp).2)
      fun c c' p ↦ World.place_inj hk
    · rw [World.created] at hc ⊢
      split at hc
      · rename_i hnone
        rw [if_pos hnone]
        exact ⟨Option.isNone_iff_eq_none.mp hnone, rfl⟩
      · cases hc
    · cases hp : w.place c with
      | some p => exact (hstay c p hp).1
      | none =>
        rw [World.created, if_pos (by rw [hp]; rfl)] at hc
        exact Option.map_eq_none_iff.mp hc
  refine .single hcreate.1 ⟨hk, ?_⟩
  rw [World.loc_congr htables hcopies]
  exact hcreate.2

/-- **A release** takes away the bytes of its buffer, which no address shows. -/
theorem World.Shows.release (h : w.Shows s) {b : BufId} (heffect : LosesBuf w.k b w'.k)
    (hbal : w'.k.Balanced) (htables : w'.k.tables = w.k.tables) (hcopies : w'.copies = w.copies)
    (hunseen : Unseen w (.release b)) : w'.ShownBy s [.destroy (bufCells b)] := by
  have hk := h.apart.loses heffect hbal
  have hok : s.Allowed (.destroy (bufCells b)) := by
    intro v c hv
    obtain ⟨p, hp, hloc⟩ := h.placed.loc_of_view hv
    cases c with
    | copy pid base off => rfl
    | buf b' i off =>
      rw [bufCells, decide_eq_false_iff_not]
      rintro rfl
      obtain ⟨q, hq, rfl⟩ := Option.map_eq_some_iff.mp hp
      exact hunseen v.1 (pageBase v.2) q i (World.of_loc_ram hloc) hq
  have hdestroy : (s.next (.destroy (bufCells b))).Placed w'.place w.mem w.loc := by
    refine h.placed.destroy hok (fun c hc ↦ ?_) fun c hc ↦ ?_
    · cases c with
      | copy pid base off => cases hc
      | buf b' i off =>
        obtain rfl := of_decide_eq_true hc
        rw [World.place_buf, frame_of_none heffect.gone]
        rfl
    · cases c with
      | copy pid base off => rw [World.place_copy, World.place_copy, hcopies]
      | buf b' i off =>
        rw [World.place_buf, World.place_buf,
          heffect.rest.frame h.apart (of_decide_eq_false hc)]
  have hmem : w'.mem = w.mem := by
    funext p
    cases p with
    | ram p off => rw [World.mem, World.mem, heffect.ram]
    | copy pid base off => rw [World.mem, World.mem, hcopies]
  refine .single hok ⟨hk, ?_⟩
  rw [World.loc_congr htables hcopies, hmem]
  exact hdestroy

/-! ## Mapping a buffer -/

theorem pageSize_dvd_pageBase (addr : ℕ) : pageSize ∣ pageBase addr := Nat.dvd_mul_right ..

/-- **Mapping** leads the addresses of the rounds that map their page to the buffer. -/
theorem World.Shows.map (h : w.Shows s) {b : BufId} {pid : Pid} {vma : Vma} {mem : ℕ → Bool}
    {pt : PageTable} (hpt : ∀ base, pageSize ∣ base → pt.pte base =
      ((w.k.shown b vma mem base).bind fun i ↦ w.k.frame (b, i)).or ((w.k.tables pid).pte base)) :
    ({ w with k := w.k.setTable pid pt } : World).ShownBy s
      [.map (bufViews w.k b pid vma mem)] := by
  have hmap : s.Allowed (.map (bufViews w.k b pid vma mem)) ∧
      (s.next (.map (bufViews w.k b pid vma mem))).Placed w.place w.mem
        ({ w with k := w.k.setTable pid pt } : World).loc := by
    refine h.placed.map (fun v c hv ↦ ?_) fun v ↦ ?_
    · rw [bufViews] at hv
      split at hv
      · obtain ⟨i, hi, rfl⟩ := Option.map_eq_some_iff.mp hv
        rw [World.place_buf, Option.isSome_map]
        exact isSome_frame_of_shown hi
      · cases hv
    · by_cases hpid : v.1 = pid
      · have hpte := hpt (pageBase v.2) (pageSize_dvd_pageBase v.2)
        rw [bufViews, if_pos hpid]
        cases hi : w.k.shown b vma mem (pageBase v.2) with
        | none =>
          rw [hi, Option.bind_none, Option.none_or] at hpte
          rw [World.loc, hpid, KState.setTable_tables_self, hpte, World.loc, hpid]
          rfl
        | some i =>
          obtain ⟨p, hp⟩ := Option.isSome_iff_exists.mp (isSome_frame_of_shown hi)
          rw [hi, Option.bind_some, hp, Option.some_or] at hpte
          rw [World.loc, hpid, KState.setTable_tables_self, hpte, Option.map_some, Option.map_some,
            Option.getD_some, World.place_buf, hp]
          rfl
      · rw [bufViews, if_neg hpid, World.loc, World.loc]
        have htable : (w.k.setTable pid pt).tables v.1 = w.k.tables v.1 :=
          Function.update_of_ne hpid ..
        rw [htable]
        rfl
  exact .single hmap.1 ⟨h.apart.congr rfl rfl rfl, hmap.2⟩

/-- Nothing changes where nothing is mapped. -/
theorem World.unmap_of_empty {pid : Pid} {start stop : ℕ}
    (hpte : ∀ a, start ≤ a → a < stop → (w.k.tables pid).pte a = none)
    (hcopies : ∀ a, start ≤ a → a < stop → w.copies pid a = none) :
    w.unmap pid start stop = w := by
  have htable : ({ w.k.tables pid with
      pte := fun a ↦ if start ≤ a ∧ a < stop then none else (w.k.tables pid).pte a } : PageTable) =
        w.k.tables pid := by
    refine congrArg (fun pte ↦ (⟨pte, (w.k.tables pid).writes⟩ : PageTable)) (funext fun a ↦ ?_)
    split
    · rename_i hin
      exact (hpte a hin.1 hin.2).symm
    · rfl
  have hcopies' : (fun a ↦ if start ≤ a ∧ a < stop then none else w.copies pid a) =
      w.copies pid := by
    funext a
    split
    · rename_i hin
      exact (hcopies a hin.1 hin.2).symm
    · rfl
  simp only [World.unmap, htable, hcopies', KState.setTable_self, Function.update_eq_self]

/-- **`mmap`**. -/
theorem World.Shows.mmap (h : w.Shows s) (ionIocAlloc : BitVec 32) (pid : Pid) (fd : ℕ) (vma : Vma)
    (writable : Bool) (mem : ℕ → Bool) : (w.mmap pid fd vma writable mem).ShownBy s
      (w.meaning ionIocAlloc (.mmap pid fd vma writable mem)) := by
  cases hfd : w.mappable pid fd vma writable with
  | none =>
    simp only [World.mmap, World.meaning, hfd]
    exact h.shownBy
  | some b =>
    simp only [World.mmap, World.meaning, hfd]
    refine (h.unmap pid vma.vmStart vma.vmEnd).append fun t ht ↦ ?_
    generalize hw₁ : (w.unmap pid vma.vmStart vma.vmEnd).setAccess pid vma writable = w₁
    have ht₁ : w₁.Shows t := by
      rw [← hw₁]
      exact ⟨ht.apart, ht.placed⟩
    have hviews : bufViews w.k b pid vma mem = bufViews w₁.k b pid vma mem := by
      rw [← hw₁]
      rfl
    obtain ⟨pt, hfinal, hres, hpt, -⟩ := dmaBufMmap_final ht₁.apart b pid vma mem
    have hmap := ht₁.map hpt
    rw [← hfinal, ← hviews] at hmap
    split
    · exact hmap
    · rename_i hne
      -- The page table is as it was, so there is nothing to unmap.
      have hsame : w₁.call (dmaBufMmap b pid vma mem) = w₁ := by
        rw [World.call, hfinal, hres.resolve_left hne, KState.setTable_self]
      have hempty : w₁.unmap pid vma.vmStart vma.vmEnd = w₁ := by
        refine World.unmap_of_empty (fun a hstart hstop ↦ ?_) fun a hstart hstop ↦ ?_
        · rw [← hw₁]
          exact (World.unmap_pte ..).trans (if_pos ⟨rfl, hstart, hstop⟩)
        · rw [← hw₁]
          exact (World.unmap_copies ..).trans (if_pos ⟨rfl, hstart, hstop⟩)
      rw [hsame, hempty]
      rw [World.call] at hsame
      rw [hsame] at hmap
      exact hmap

end

/-! ## Steps -/

section

variable {w w' : World} {s : Store Cell View Byte} {op : UserOp} (ionIocAlloc : BitVec 32)

/-- A call that leaves buffers, pages and page tables alone. -/
theorem World.Shows.of_core (h : w.Shows s) (hcore : w'.k.core = w.k.core)
    (htables : w'.k.tables = w.k.tables) (hcopies : w'.copies = w.copies) : w'.Shows s := by
  have hbufs : w'.k.bufs = w.k.bufs := congrArg (fun c ↦ c.2.2.2.2.2) hcore
  have hheap : w'.k.heap = w.k.heap := congrArg (fun c ↦ c.2.2.2.2.1) hcore
  have hram : w'.k.ram = w.k.ram := congrArg (fun c ↦ c.2.2.2.1) hcore
  have hpages : w'.k.pages = w.k.pages := congrArg (fun c ↦ c.1) hcore
  have hframe : w'.k.frame = w.k.frame := h.apart.frame_congr hbufs hheap hpages
  have hplace : w'.place = w.place := by
    funext c
    cases c with
    | buf b i off => rw [World.place_buf, World.place_buf, hframe]
    | copy pid base off => rw [World.place_copy, World.place_copy, hcopies]
  have hmem : w'.mem = w.mem := by
    funext p
    cases p with
    | ram p off => rw [World.mem, World.mem, hram]
    | copy pid base off => rw [World.mem, World.mem, hcopies]
  refine ⟨h.apart.congr hbufs hheap (congrArg (fun c ↦ (c.1, c.2.1, c.2.2.1)) hcore), ?_⟩
  rw [hplace, hmem, World.loc_congr htables hcopies]
  exact h.placed

/-- **`write`**. -/
theorem World.Shows.write (h : w.Shows s) (pid : Pid) (addr : ℕ) (val : UInt8) :
    (w.write pid addr val).ShownBy s (w.meaning ionIocAlloc (.write pid addr val)) := by
  cases hpte : (w.k.tables pid).pte (pageBase addr) with
  | none =>
    simp only [World.write, World.meaning, hpte]
    cases hcopy : w.copies pid (pageBase addr) with
    | some c => exact .single trivial (h.write_copy val hpte hcopy)
    | none =>
      have hv : s.view (pid, addr) = none := by
        refine h.placed.view_of_loc_none ?_
        rw [World.loc_of_no_pte hpte, World.place_copy, hcopy]
        rfl
      refine .single trivial ?_
      rw [Store.next, Store.store_of_no_view hv]
      exact h
  | some p =>
    cases haccess : w.access pid (pageBase addr) with
    | readOnly =>
      simp only [World.write, World.meaning, hpte, haccess]
      exact h.shownBy
    | shared =>
      simp only [World.write, World.meaning, hpte, haccess]
      exact .single trivial (h.write_ram val hpte)
    | copyOnWrite =>
      simp only [World.write, World.meaning, hpte, haccess]
      rw [← World.setCopy_setCopy w pid _ (w.k.ram p)]
      refine (h.setCopy pid (pageBase addr) (w.k.ram p)).append fun t ht ↦ ?_
      refine .single trivial (ht.write_copy val ?_ ?_)
      · rw [World.setCopy_pte, if_pos ⟨rfl, rfl⟩]
      · rw [World.setCopy_copies, if_pos ⟨rfl, rfl⟩]

/-- **One operation** does to the store what it means. -/
theorem World.Shows.next (h : w.Shows s) (hop : Unseen w op) :
    (w.next ionIocAlloc op).ShownBy s (w.meaning ionIocAlloc op) := by
  cases op with
  | exporterInit o =>
    exact h.alloc (exporterAllocPage_effect h.apart o)
      ((balanced_exporterAllocPage o).final w.k h.apart.balanced)
      (congrArg Prod.snd ((owned_exporterAllocPage o).final w.k)) rfl
  | exporterIoctl pid fd copiedOut =>
    have hkeeps := (exporterIoctl_effect w.dmabufExported pid fd copiedOut).final w.k
    obtain ⟨hcore, htables⟩ := Prod.mk.inj hkeeps
    have hshows : (w.next ionIocAlloc (.exporterIoctl pid fd copiedOut)).Shows s :=
      h.of_core hcore htables rfl
    exact hshows.shownBy
  | ionIoctl pid cmd len o =>
    obtain ⟨heffect, hbal, htables⟩ := ionIoctl_effect h.apart ionIocAlloc pid cmd len o
    exact h.alloc heffect hbal htables rfl
  | mmap pid fd vma writable mem => exact h.mmap ionIocAlloc pid fd vma writable mem
  | munmap pid start stop => exact h.unmap pid start stop
  | read pid addr => exact .single trivial h
  | write pid addr val => exact h.write ionIocAlloc pid addr val
  | close pid fd => exact ⟨s, .nil s, h.apart.congr rfl rfl rfl, h.placed⟩
  | release b =>
    obtain ⟨heffect, hbal, howned⟩ := dmaBufRelease_effect h.apart b
    exact h.release heffect hbal (congrArg Prod.snd howned) rfl hop

/-- What an operation means reads from the store only if it is a read. -/
theorem World.values_meaning (hop : ∀ pid addr, op ≠ .read pid addr)
    (a : Store.Op Cell View Byte) (ha : a ∈ w.meaning ionIocAlloc op) (s : Store Cell View Byte) :
    values s a = [] := by
  have hunmapped : ∀ pid start stop, a ∈ unmapped pid start stop → values s a = [] := by
    intro pid start stop ha
    rcases List.mem_cons.mp ha with rfl | ha
    · rfl
    · rw [List.mem_singleton.mp ha]
      rfl
  cases op with
  | read pid addr => exact absurd rfl (hop pid addr)
  | exporterInit o =>
    rw [List.mem_singleton.mp ha]
    rfl
  | ionIoctl pid cmd len o =>
    rw [List.mem_singleton.mp ha]
    rfl
  | release b =>
    rw [List.mem_singleton.mp ha]
    rfl
  | exporterIoctl pid fd copiedOut => cases ha
  | close pid fd => cases ha
  | munmap pid start stop => exact hunmapped pid start stop ha
  | mmap pid fd vma writable mem =>
    rw [World.meaning] at ha
    split at ha
    · cases ha
    · rcases List.mem_append.mp ha with ha | ha
      · exact hunmapped _ _ _ ha
      · rw [List.mem_singleton.mp ha]
        rfl
  | write pid addr val =>
    rw [World.meaning] at ha
    split at ha
    · cases ha
    · rcases List.mem_append.mp ha with ha | ha
      · rcases List.mem_append.mp ha with ha | ha
        · exact hunmapped _ _ _ ha
        · rcases List.mem_cons.mp ha with rfl | ha
          · rfl
          · rw [List.mem_singleton.mp ha]
            rfl
      · rw [List.mem_singleton.mp ha]
        rfl
    · rw [List.mem_singleton.mp ha]
      rfl

/-- **The worlds implement the store.** -/
theorem implements_store : (machine ionIocAlloc).Implements Unseen World.observe Store.machine
    Store.Allowed values (World.meaning ionIocAlloc) World.Shows := by
  intro w s op w' h hop hstep
  obtain rfl := Option.some_inj.mp hstep
  obtain ⟨t, hrun, ht⟩ := h.next ionIocAlloc hop
  refine ⟨t, hrun, ht, ?_⟩
  by_cases hread : ∃ pid addr, op = .read pid addr
  · obtain ⟨pid, addr, rfl⟩ := hread
    have hload : s.load (pid, addr) = w.byte pid addr := by
      rw [w.byte_eq, h.placed.load]
    simp [World.meaning, Machine.outputs, values, Store.observe, World.observe, hload,
      Store.machine]
  · have hnot : ∀ pid addr, op ≠ .read pid addr := fun pid addr heq ↦ hread ⟨pid, addr, heq⟩
    rw [Machine.outputs_eq_nil fun a ha s ↦ World.values_meaning ionIocAlloc hnot a ha s]
    cases op with
    | read pid addr => exact absurd rfl (hnot pid addr)
    | _ => rfl

theorem World.shows_boot : World.boot.Shows .empty where
  apart := .boot
  placed := by
    have hplace : ∀ c, World.boot.place c = none := by
      intro c
      cases c with
      | buf b i off =>
        rw [World.place_buf, frame_of_none (k := World.boot.k) rfl]
        rfl
      | copy pid base off => rfl
    refine ⟨fun c c' p hc ↦ ?_, fun c ↦ ?_, fun v ↦ rfl, fun v c hv ↦ ?_⟩
    · rw [hplace] at hc
      cases hc
    · rw [hplace]
      rfl
    · cases hv

/-- What the processes read is what the machine shows. -/
theorem reads_eq_outputs (w : World) (ops : List UserOp) :
    reads ionIocAlloc w ops = (machine ionIocAlloc).outputs World.observe w ops := by
  induction ops generalizing w with
  | nil => rfl
  | cons op ops ih =>
    rw [reads, ih]
    rfl

/-- **The exported buffers are shared memory.**  In every run of both exporters, in which no buffer
is released while a page table shows a page of it, the processes read what they would read in a
store of the bytes of the buffers and of their copies, and at the end every address shows what it
shows in the store. -/
theorem reads_eq_store {ops : List UserOp}
    (hrun : (machine ionIocAlloc).Run Unseen .boot ops w) :
    ∃ s, Store.machine.Run Store.Allowed .empty
        ((machine ionIocAlloc).outputs (World.meaning ionIocAlloc) .boot ops) s ∧
      Store.machine.outputs values .empty
        ((machine ionIocAlloc).outputs (World.meaning ionIocAlloc) .boot ops) =
          reads ionIocAlloc .boot ops ∧
      ∀ pid addr, w.byte pid addr = s.load (pid, addr) := by
  obtain ⟨s, hstore, hs, hout⟩ := (implements_store ionIocAlloc).run hrun World.shows_boot
  refine ⟨s, hstore, hout.trans (reads_eq_outputs ..).symm, fun pid addr ↦ ?_⟩
  rw [w.byte_eq, hs.placed.load]

/-- A release aside, any operation may be taken. -/
theorem run_of_no_release {ops : List UserOp} (h : ∀ op ∈ ops, ∀ b, op ≠ .release b) (w : World) :
    (machine ionIocAlloc).Run Unseen w ops (ops.foldl (World.next ionIocAlloc) w) := by
  induction ops generalizing w with
  | nil => exact .nil w
  | cons op ops ih =>
    refine .cons ?_ rfl (ih (fun op' hop' ↦ h op' (List.mem_cons_of_mem _ hop')) _)
    cases op with
    | release b => exact absurd rfl (h _ (List.mem_cons_self ..) b)
    | _ => trivial

/-- dma-buf/08 is loaded, and two processes get a descriptor of its buffer and map it. -/
def twoProcesses : List UserOp :=
  [.exporterInit ⟨some ⟨5, fun _ ↦ 0⟩, some 0⟩, .exporterIoctl 0 (some 3) true,
    .exporterIoctl 1 (some 3) true, .mmap 0 3 onePageArea false fun _ ↦ true,
    .mmap 1 3 onePageArea false fun _ ↦ true]

/-- The second process reads the greeting, from the store as well. -/
theorem reads_eq_store_greeting : ∃ s, Store.machine.Run Store.Allowed .empty
      ((machine 0).outputs (World.meaning 0) .boot (twoProcesses ++ [.read 1 65536])) s ∧
    Store.machine.outputs values .empty
      ((machine 0).outputs (World.meaning 0) .boot (twoProcesses ++ [.read 1 65536])) =
        [some 104] ∧ s.load (1, 65536) = some ⟨104, false⟩ := by
  have hno : ∀ op ∈ twoProcesses ++ [.read 1 65536], ∀ b, op ≠ .release b := by
    simp [twoProcesses]
  obtain ⟨s, hrun, hout, hload⟩ := reads_eq_store 0 (run_of_no_release 0 hno .boot)
  exact ⟨s, hrun, hout.trans (by decide), (hload 1 65536).symm.trans (by decide)⟩

end

/-! ## Nobody writes a buffer -/

/-- The address of the process shows byte `off` of page `i` of buffer `b`. -/
def World.At (w : World) (pid : Pid) (addr : ℕ) (b : BufId) (i off : ℕ) : Prop :=
  ∃ p, (w.k.tables pid).pte (pageBase addr) = some p ∧ w.k.frame (b, i) = some p ∧
    addr % pageSize = off

/-- No page is mapped so that a write would go to the page itself. -/
def World.ReadOnly (w : World) : Prop := ∀ pid a, w.access pid a ≠ .shared

section

variable {w w' : World} {s : Store Cell View Byte} {op : UserOp} {b : BufId} {i off : ℕ}
  (ionIocAlloc : BitVec 32)

theorem World.Shows.view_iff (h : w.Shows s) {pid : Pid} {addr : ℕ} :
    s.view (pid, addr) = some (.buf b i off) ↔ w.At pid addr b i off := by
  refine ⟨fun hv ↦ ?_, ?_⟩
  · obtain ⟨p, hp, hloc⟩ := h.placed.loc_of_view hv
    obtain ⟨q, hq, rfl⟩ := Option.map_eq_some_iff.mp hp
    have hpte := World.of_loc_ram hloc
    rw [World.loc_of_pte hpte, Option.some_inj] at hloc
    exact ⟨q, hpte, hq, (Place.ram.inj hloc).2⟩
  · rintro ⟨p, hpte, hframe, rfl⟩
    have hloc : w.loc (pid, addr) = some (.ram p (addr % pageSize)) := World.loc_of_pte hpte
    refine h.placed.view_of_loc hloc ?_
    rw [World.place_buf, hframe]
    rfl

/-- Unmapping does nothing to the buffers. -/
theorem effect_unmapped {pid : Pid} {start stop : ℕ} (a : Store.Op Cell View Byte)
    (ha : a ∈ unmapped pid start stop) (s : Store Cell View Byte) :
    s.effect (.buf b i off) a = none := by
  rcases List.mem_cons.mp ha with rfl | ha
  · rfl
  · rw [List.mem_singleton.mp ha]
    rfl

/-- Neither does making a copy. -/
theorem effect_copied {pid : Pid} {base : ℕ} {bytes : ℕ → Byte} (a : Store.Op Cell View Byte)
    (ha : a ∈ copied pid base bytes) (s : Store Cell View Byte) :
    s.effect (.buf b i off) a = none := by
  rcases List.mem_append.mp ha with ha | ha
  · exact effect_unmapped a ha s
  · rcases List.mem_cons.mp ha with rfl | ha
    · rfl
    · rw [List.mem_singleton.mp ha]
      rfl

/-- A write to an address that does not show the byte. -/
theorem World.Shows.effect_write (h : w.Shows s) {pid : Pid} {addr : ℕ} {val : UInt8}
    (hat : ¬ w.At pid addr b i off) :
    Store.lastEffect (.buf b i off) s [.write (pid, addr) ⟨val, false⟩] = none := by
  rw [Store.lastEffect, Store.lastEffect, Option.none_or, Store.effect,
    if_neg fun hv ↦ hat (h.view_iff.mp hv)]

/-- An operation does nothing to a byte of a live buffer. -/
theorem World.Shows.lastEffect_meaning (h : w.Shows s) (hro : w.ReadOnly) (hop : op ≠ .release b)
    (hcell : (s.cell (.buf b i off)).isSome) :
    Store.lastEffect (.buf b i off) s (w.meaning ionIocAlloc op) = none := by
  have hcreate : ∀ w' : World,
      Store.lastEffect (.buf b i off) s [.create (w.created w')] = none := by
    intro w'
    rw [h.placed.isSome_cell] at hcell
    have hthere : ¬ (w.place (.buf b i off)).isNone = true := by
      rw [← Option.not_isSome, hcell]
      decide
    rw [Store.lastEffect, Store.lastEffect, Option.none_or, Store.effect, World.created,
      if_neg hthere]
    rfl
  cases op with
  | exporterInit o => exact hcreate _
  | ionIoctl pid cmd len o => exact hcreate _
  | exporterIoctl pid fd copiedOut => rfl
  | read pid addr => rfl
  | close pid fd => rfl
  | munmap pid start stop => exact Store.lastEffect_eq_none effect_unmapped s
  | release b' =>
    have hne : bufCells b' (.buf b i off) = false := decide_eq_false fun heq ↦ hop (heq ▸ rfl)
    simp [World.meaning, Store.lastEffect, Store.effect, hne]
  | mmap pid fd vma writable mem =>
    rw [World.meaning]
    split
    · rfl
    · refine Store.lastEffect_eq_none (fun a ha s ↦ ?_) s
      rcases List.mem_append.mp ha with ha | ha
      · exact effect_unmapped a ha s
      · rw [List.mem_singleton.mp ha]
        rfl
  | write pid addr val =>
    rw [World.meaning]
    split
    · rfl
    · -- The write goes to the new copy.
      obtain ⟨t, hrun, ht⟩ := h.setCopy pid (pageBase addr) (w.k.ram _)
      rw [Store.lastEffect_append hrun, Store.lastEffect_eq_none effect_copied, Option.or_none]
      refine ht.effect_write ?_
      rintro ⟨p, hpte, -⟩
      rw [World.setCopy_pte, if_pos ⟨rfl, rfl⟩] at hpte
      cases hpte
    · rename_i hread hcow
      refine h.effect_write fun hat ↦ ?_
      obtain ⟨p, hpte, -⟩ := hat
      cases haccess : w.access pid (pageBase addr) with
      | shared => exact hro _ _ haccess
      | readOnly => exact hread p hpte haccess
      | copyOnWrite => exact hcow p hpte haccess

theorem World.readOnly_boot : World.boot.ReadOnly := fun _ _ h ↦ nomatch h

/-- **The exporters open no file that may be written**, so that no operation maps a page so. -/
theorem World.ReadOnly.next (h : w.ReadOnly) (op : UserOp) : (w.next ionIocAlloc op).ReadOnly := by
  cases op with
  | mmap pid fd vma writable mem =>
    simp only [World.next, World.mmap]
    split
    · exact h
    · rename_i b hb
      have harea : ((w.unmap pid vma.vmStart vma.vmEnd).setAccess pid vma writable).ReadOnly := by
        intro pid' a
        simp only [World.setAccess, World.unmap, Function.update_apply]
        split
        · simp only
          split
          · exact World.ofVma_of_mappable hb
          · exact h pid a
        · exact h pid' a
      split
      · exact harea
      · exact harea
  | write pid addr val =>
    simp only [World.next, World.write]
    split
    · split <;> exact h
    · split <;> exact h
  | _ => exact h

/-- A run in which the buffer is not released does nothing to its bytes. -/
theorem World.Shows.run_quiet (h : w.Shows s) (hro : w.ReadOnly) {ops : List UserOp}
    (hrun : (machine ionIocAlloc).Run (fun w op ↦ Unseen w op ∧ op ≠ .release b) w ops w')
    (hcell : (s.cell (.buf b i off)).isSome) :
    ∃ t, w'.Shows t ∧ t.cell (.buf b i off) = s.cell (.buf b i off) := by
  induction hrun generalizing s with
  | nil w => exact ⟨s, h, rfl⟩
  | @cons w _ w' op ops hok hstep hrun ih =>
    obtain rfl := Option.some_inj.mp hstep
    obtain ⟨t, hrun₁, ht⟩ := h.next ionIocAlloc hok.1
    have hsame := Store.cell_eq_lastEffect hrun₁ (.buf b i off)
    rw [h.lastEffect_meaning ionIocAlloc hro hok.2 hcell, Option.getD_none] at hsame
    obtain ⟨r, hr, hsame'⟩ := ih ht (hro.next ionIocAlloc op) (by rw [hsame]; exact hcell)
    exact ⟨r, hr, hsame'.trans hsame⟩

/-- **An exported buffer is constant for its users**: whatever the processes map, write and unmap,
an address that shows a byte of the buffer shows what the byte was at any earlier time, as long as
the buffer lives. -/
theorem byte_eq_exported {ops ops' : List UserOp} {p : Page} {pid : Pid} {addr : ℕ}
    (hrun : (machine ionIocAlloc).Run Unseen .boot ops w) (hframe : w.k.frame (b, i) = some p)
    (hrun' : (machine ionIocAlloc).Run (fun w op ↦ Unseen w op ∧ op ≠ .release b) w ops' w')
    (hat : w'.At pid addr b i off) : w'.byte pid addr = some (w.k.ram p off) := by
  obtain ⟨s, -, hs, -⟩ := (implements_store ionIocAlloc).run hrun World.shows_boot
  have hro : w.ReadOnly :=
    hrun.invariant (fun _ op _ h _ hstep ↦ Option.some_inj.mp hstep ▸ h.next ionIocAlloc op)
      World.readOnly_boot
  have hcell : s.cell (.buf b i off) = some (w.k.ram p off) := by
    rw [hs.placed.cell_eq, World.place_buf, hframe]
    rfl
  obtain ⟨t, ht, hsame⟩ := hs.run_quiet ionIocAlloc hro hrun' (by rw [hcell]; rfl)
  rw [w'.byte_eq, ← ht.placed.load, Store.load, ht.view_iff.mpr hat, Option.bind_some, hsame, hcell]

/-- The first process maps the buffer privately instead, and writes to it. -/
def privateWrite : List UserOp :=
  [.mmap 0 3 { onePageArea with cow := true } true fun _ ↦ true, .write 0 65536 74]

/-- The other process still finds the greeting. -/
theorem byte_eq_exported_privateWrite :
    ∃ w, (machine 0).Run Unseen .boot (twoProcesses ++ privateWrite) w ∧
      w.byte 0 65536 = some ⟨74, false⟩ ∧ w.byte 1 65536 = some ⟨104, false⟩ := by
  generalize hw : twoProcesses.foldl (World.next 0) .boot = w
  have hrun : (machine 0).Run Unseen .boot twoProcesses w :=
    hw ▸ run_of_no_release 0 (by simp [twoProcesses]) .boot
  have hframe : w.k.frame (0, 0) = some 5 := by
    rw [← hw]
    decide
  have hrun' : (machine 0).Run (fun w op ↦ Unseen w op ∧ op ≠ .release 0) w privateWrite
      (privateWrite.foldl (World.next 0) w) :=
    .cons ⟨trivial, nofun⟩ rfl (.cons ⟨trivial, nofun⟩ rfl (.nil _))
  refine ⟨_, hrun.append (run_of_no_release 0 (by simp [privateWrite]) w), ?_, ?_⟩
  · rw [← hw]
    decide
  · have hat : (privateWrite.foldl (World.next 0) w).At 1 65536 0 0 0 := by
      rw [← hw]
      exact ⟨5, by decide, by decide, by decide⟩
    rw [byte_eq_exported 0 hrun hframe hrun' hat, ← hw]
    decide

end

end UserMemory

end DmaBuf
