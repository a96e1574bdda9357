import SampleDrivers.Lib.Transition

/-!
# Refinement by translating actions

A machine that is built from low-level parts refines a machine that says what it is for when each of
its steps amounts to a few steps of the other, and both show the same to an observer meanwhile.
Which steps these are is a function, the *translation*, of the step and of the state it is taken in;
nothing is left to choose, so what holds of the runs of the abstract machine says something about
the runs of the concrete one.

* `Machine.outputs` — what an observer sees of a run, step by step.
* `Machine.Implements` — one step of the concrete machine is the run of the abstract one that the
  translation says.
* `Machine.Implements.run` — and so is a whole run.
-/

set_option autoImplicit false

universe u v w x y

namespace Machine

variable {σ : Type u} {α : Type v} {τ : Type w} {β : Type x} {ω : Type y}

/-- What an observer sees of the actions taken from a state on. -/
def outputs (M : Machine σ α) (obs : σ → α → List ω) : σ → List α → List ω
  | _, [] => []
  | s, a :: as => obs s a ++ (M.step s a).elim [] fun t ↦ M.outputs obs t as

variable {M : Machine σ α} {N : Machine τ β} {okM : σ → α → Prop} {okN : τ → β → Prop}

theorem outputs_cons {obs : σ → α → List ω} {s t : σ} {a : α} (h : M.step s a = some t)
    (as : List α) : M.outputs obs s (a :: as) = obs s a ++ M.outputs obs t as := by
  rw [outputs, h, Option.elim_some]

/-- The outputs of a run that goes on. -/
theorem Run.outputs_append {obs : σ → α → List ω} {s t : σ} {as : List α}
    (h : M.Run okM s as t) (bs : List α) :
    M.outputs obs s (as ++ bs) = M.outputs obs s as ++ M.outputs obs t bs := by
  induction h with
  | nil s => rfl
  | cons _ hstep _ ih =>
    rw [List.cons_append, outputs_cons hstep, outputs_cons hstep, ih, List.append_assoc]

/-- An observer to whom the state shows nothing. -/
theorem Run.outputs_const {f : α → List ω} {s t : σ} {as : List α} (h : M.Run okM s as t) :
    M.outputs (fun _ ↦ f) s as = as.flatMap f := by
  induction h with
  | nil s => rfl
  | cons _ hstep _ ih => rw [outputs_cons hstep, ih, List.flatMap_cons]

/-- Actions that show nothing. -/
theorem outputs_eq_nil {obs : σ → α → List ω} {as : List α} (h : ∀ a ∈ as, ∀ s, obs s a = [])
    (s : σ) : M.outputs obs s as = [] := by
  induction as generalizing s with
  | nil => rfl
  | cons a as ih =>
    rw [outputs, h a (List.mem_cons_self ..) s, List.nil_append]
    cases M.step s a with
    | none => rfl
    | some t => exact ih (fun b hb ↦ h b (List.mem_cons_of_mem _ hb)) t

/-- The steps of `M` that meet the guard are, from related states on, the guarded runs of `N` that
the translation says, and both show the same. -/
def Implements (M : Machine σ α) (okM : σ → α → Prop) (obsM : σ → α → List ω)
    (N : Machine τ β) (okN : τ → β → Prop) (obsN : τ → β → List ω)
    (translate : σ → α → List β) (R : σ → τ → Prop) : Prop :=
  ∀ ⦃s : σ⦄ ⦃t : τ⦄ ⦃a : α⦄ ⦃s' : σ⦄, R s t → okM s a → M.step s a = some s' →
    ∃ t', N.Run okN t (translate s a) t' ∧ R s' t' ∧
      N.outputs obsN t (translate s a) = obsM s a

/-- **Refinement of runs.**  A run is translated step by step, and shows what its translation
shows. -/
theorem Implements.run {obsM : σ → α → List ω} {obsN : τ → β → List ω}
    {translate : σ → α → List β} {R : σ → τ → Prop}
    (h : M.Implements okM obsM N okN obsN translate R) {s s' : σ} {as : List α}
    (hrun : M.Run okM s as s') {t : τ} (hR : R s t) :
    ∃ t', N.Run okN t (M.outputs translate s as) t' ∧ R s' t' ∧
      N.outputs obsN t (M.outputs translate s as) = M.outputs obsM s as := by
  induction hrun generalizing t with
  | nil s => exact ⟨t, .nil t, hR, rfl⟩
  | @cons s s₁ s' a as hok hstep _ ih =>
    obtain ⟨t₁, hrun₁, hR₁, hout₁⟩ := h hR hok hstep
    obtain ⟨t', hrun', hR', hout'⟩ := ih hR₁
    rw [outputs_cons hstep, outputs_cons hstep]
    exact ⟨t', hrun₁.append hrun', hR', by rw [hrun₁.outputs_append, hout₁, hout']⟩

end Machine
