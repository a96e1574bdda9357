import SampleDrivers.DmaBuf.CpuAccess

/-!
# Which mappings a CPU access synchronises

Before the CPU touches a buffer, what the devices have written has to be visible to it, and
afterwards the other way round: `begin_cpu_access` and `end_cpu_access` have to synchronise every
mapping that is live at that moment.  The callbacks look at the first attachment only, and at its
`priv`, in which no table was ever stored.

* `Covers` — the calls made synchronise every entry of a table.
* `Coherent` — a CPU access that does what the devices need.
* `cpuAccess_coherent_iff` — in every reachable state, a CPU access is coherent exactly when no
  device is attached and nothing is mapped.
-/

set_option autoImplicit false

namespace DmaBuf.CpuAccess

open Kernel

/-- One of the calls of `dma_sync_sg_for_cpu` or `dma_sync_sg_for_device` is for all entries of the
table at `a`. -/
def Covers (k : KState) (syncs : List DmaSync) (forCpu : Bool) (dir : DmaDir) (a : Addr) : Prop :=
  ∃ t, k.heap a = some (.sgTable (some t)) ∧ ⟨forCpu, t.sgl, t.nents, dir⟩ ∈ syncs

/-- The access succeeds, the synchronisations it makes cover every mapping that is live, and it
changes nothing if there is none. -/
def Coherent (w : World) (forCpu : Bool) (dir : DmaDir) (x : KProg ℤ) : Prop :=
  Prog.wp x (fun r k' ↦ r = 0 ∧ (∃ new, k'.syncs = new ++ w.k.syncs ∧
    ∀ m ∈ w.mapped, Covers w.k new forCpu dir m.2) ∧ (w.mapped = [] → k' = w.k))
    (fun _ _ ↦ False) w.k

section

variable {b : BufId} {w : World} {buf : Buf}

/-- Whichever exporter it is, the access looks at the first attachment. -/
theorem coherent_cpuAccess_iff (h : PrivNull b w) (hbuf : w.k.bufs b = some buf) (forCpu : Bool)
    (nents : SgTable → ℕ) (dir : DmaDir) :
    Coherent w forCpu dir (cpuAccess forCpu nents buf dir) ↔
      buf.attachments = [] ∧ w.mapped = [] := by
  cases hatt : buf.attachments with
  | nil =>
    rw [Coherent, Prog.wp_of_ok (cpuAccess_of_nil hatt forCpu nents dir w.k)]
    refine ⟨?_, ?_⟩
    · rintro ⟨-, ⟨new, hnew, hcovers⟩, -⟩
      refine ⟨rfl, List.eq_nil_iff_forall_not_mem.mpr fun m hm ↦ ?_⟩
      -- Nothing was synchronised, so a live mapping would be missed.
      obtain rfl : new = [] := List.append_left_eq_self.mp hnew.symm
      obtain ⟨t, -, ht⟩ := hcovers m hm
      exact absurd ht List.not_mem_nil
    · rintro ⟨-, hmapped⟩
      refine ⟨rfl, ⟨[], rfl, fun m hm ↦ ?_⟩, fun _ ↦ rfl⟩
      rw [hmapped] at hm
      exact absurd hm List.not_mem_nil
  | cons a as =>
    have hpriv := h buf hbuf a (by simp [hatt])
    refine iff_of_false (fun hcoherent ↦ ?_) fun hnone ↦ absurd hnone.1 (by simp)
    simp only [Coherent, Prog.wp, cpuAccess_nullDeref hatt hpriv] at hcoherent

end

/-- **CPU access is coherent** in a reachable state, in both exporters and for every direction, if
and only if no device is attached and nothing is mapped: then there is nothing to do. -/
theorem cpuAccess_coherent_iff {b : BufId} {w₀ w : World} {as : List Action} {buf : Buf}
    (h₀ : Init b w₀) (hrun : (machine b).Run Machine.free w₀ as w) (hbuf : w.k.bufs b = some buf)
    (dir : DmaDir) :
    (Coherent w true dir (buf.ops.beginCpuAccess buf dir) ↔
        buf.attachments = [] ∧ w.mapped = []) ∧
      (Coherent w false dir (buf.ops.endCpuAccess buf dir) ↔
        buf.attachments = [] ∧ w.mapped = []) := by
  have h : PrivNull b w :=
    hrun.invariant (fun _ _ _ h _ hstep ↦ PrivNull.step h hstep) (privNull_of_init h₀)
  cases hops : buf.ops with
  | page =>
    exact ⟨coherent_cpuAccess_iff h hbuf true _ dir, coherent_cpuAccess_iff h hbuf false _ dir⟩
  | ion =>
    exact ⟨coherent_cpuAccess_iff h hbuf true _ dir, coherent_cpuAccess_iff h hbuf false _ dir⟩

/-- A device that came and went. -/
def comeAndGo : List Action :=
  [.attach 1 1, .map 1 .bidirectional ⟨some 8, some 9, [⟨4096, 4096⟩], 0⟩,
    .unmap 1 8 .bidirectional, .detach 1]

theorem onePageBuffer_init (ops : Ops) (priv : Priv) : Init 0 (onePageBuffer ops priv) :=
  ⟨⟨_, rfl, rfl⟩, rfl, rfl⟩

theorem cpuAccess_coherent_comeAndGo :
    ∃ w buf, (machine 0).exec (onePageBuffer .ion (.data (.addr 7))) comeAndGo = some w ∧
      w.k.bufs 0 = some buf ∧
      Coherent w true .fromDevice (buf.ops.beginCpuAccess buf .fromDevice) := by
  have hrun : (machine 0).exec (onePageBuffer .ion (.data (.addr 7))) comeAndGo = some _ := rfl
  refine ⟨_, _, hrun, rfl, ?_⟩
  exact (cpuAccess_coherent_iff (onePageBuffer_init _ _) (Machine.exec_eq_some_iff.mp hrun) rfl
    .fromDevice).1.mpr ⟨rfl, rfl⟩

/-- One device is attached and has mapped the buffer: in both exporters the announcement of an
access synchronises nothing. -/
theorem attach_map_begin_not_coherent :
    (∃ w buf, (machine 0).exec (onePageBuffer .page (.page 5))
        [.attach 1 1, .map 1 .bidirectional ⟨some 8, some 9, [], 4096⟩] = some w ∧
      w.k.bufs 0 = some buf ∧
      ¬ Coherent w true .fromDevice (buf.ops.beginCpuAccess buf .fromDevice)) ∧
    ∃ w buf, (machine 0).exec (onePageBuffer .ion (.data (.addr 7)))
        [.attach 1 1, .map 1 .bidirectional ⟨some 8, some 9, [⟨4096, 4096⟩], 0⟩] = some w ∧
      w.k.bufs 0 = some buf ∧
      ¬ Coherent w true .fromDevice (buf.ops.beginCpuAccess buf .fromDevice) :=
  ⟨⟨_, _, rfl, rfl, id⟩, ⟨_, _, rfl, rfl, id⟩⟩

end DmaBuf.CpuAccess
