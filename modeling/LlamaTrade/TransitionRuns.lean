import Mathlib.Logic.Function.Basic

/-!
# Runs of transition systems

A transition system is a partial step function on states and actions. A run takes a
list of actions; a condition on steps is checked in the state each step starts from.
What every step that meets the condition preserves holds at the end of every run whose
steps meet it.
-/

namespace Transition

variable {σ α : Type}

/-- Take the actions one after the other; `none` when one of them is not enabled. -/
def run (step : σ → α → Option σ) : σ → List α → Option σ
  | s, [] => some s
  | s, a :: as => (step s a).bind fun s' => run step s' as

/-- Each action of the run meets the condition in the state it is taken in. -/
def Meets (step : σ → α → Option σ) (ok : σ → α → Prop) : σ → List α → Prop
  | _, [] => True
  | s, a :: as => ok s a ∧ ∀ s', step s a = some s' → Meets step ok s' as

theorem meets_of_forall {step : σ → α → Option σ} {ok : σ → α → Prop} {as : List α}
    (h : ∀ a ∈ as, ∀ s, ok s a) (s : σ) : Meets step ok s as := by
  induction as generalizing s with
  | nil => trivial
  | cons a as ih =>
    exact ⟨h a (by simp) s, fun s' _ => ih (fun b hb => h b (by simp [hb])) s'⟩

/-- The first step of a run meets the condition, and the rest of the run does. -/
theorem meets_cons {step : σ → α → Option σ} {ok : σ → α → Prop} {s s' : σ} {a : α} {as : List α}
    (hstep : step s a = some s') (hok : ok s a) (h : Meets step ok s' as) :
    Meets step ok s (a :: as) := by
  refine ⟨hok, fun s₁ hs₁ => ?_⟩
  cases hstep.symm.trans hs₁
  exact h

/-- On the states of an invariant a condition may be replaced by one that follows from it. -/
theorem meets_imp {step : σ → α → Option σ} {ok ok' : σ → α → Prop} {I : σ → Prop}
    (hstep : ∀ s a s', I s → ok' s a → step s a = some s' → I s')
    (himp : ∀ s a, I s → ok' s a → ok s a) {s : σ} {as : List α} (hinit : I s)
    (hmeets : Meets step ok' s as) : Meets step ok s as := by
  induction as generalizing s with
  | nil => trivial
  | cons a as ih =>
    exact ⟨himp s a hinit hmeets.1,
      fun s' hs' => ih (hstep s a s' hinit hmeets.1 hs') (hmeets.2 s' hs')⟩

/-- A condition that can be evaluated can be evaluated along a run. -/
instance decidableMeets (step : σ → α → Option σ) (ok : σ → α → Prop) [∀ s a, Decidable (ok s a)] :
    ∀ (s : σ) (as : List α), Decidable (Meets step ok s as)
  | _, [] => isTrue trivial
  | s, a :: as =>
    match h : step s a with
    | none => decidable_of_iff (ok s a) ⟨fun hok => ⟨hok, fun s' hs' => by simp [h] at hs'⟩, And.left⟩
    | some s₁ =>
      have := decidableMeets step ok s₁ as
      decidable_of_iff (ok s a ∧ Meets step ok s₁ as)
        ⟨fun hok => ⟨hok.1, fun s' hs' => Option.some.inj (h.symm.trans hs') ▸ hok.2⟩,
          fun hmeets => ⟨hmeets.1, hmeets.2 s₁ h⟩⟩

theorem run_append (step : σ → α → Option σ) (s : σ) (as bs : List α) :
    run step s (as ++ bs) = (run step s as).bind fun s' => run step s' bs := by
  induction as generalizing s with
  | nil => rfl
  | cons a as ih =>
    rw [List.cons_append, run, run]
    cases step s a with
    | none => rfl
    | some s₁ => exact ih s₁

/-- A run ends with its last step. -/
theorem run_concat {step : σ → α → Option σ} {s s' : σ} {as : List α} {a : α}
    (hrun : run step s (as ++ [a]) = some s') :
    ∃ s₁, run step s as = some s₁ ∧ step s₁ a = some s' := by
  rw [run_append, Option.bind_eq_some_iff] at hrun
  obtain ⟨s₁, hfirst, hlast⟩ := hrun
  rw [run, Option.bind_eq_some_iff] at hlast
  obtain ⟨s₂, hstep, hend⟩ := hlast
  cases hend
  exact ⟨s₁, hfirst, hstep⟩

/-- The first part of a run whose steps meet the condition meets it. -/
theorem meets_left {step : σ → α → Option σ} {ok : σ → α → Prop} {as bs : List α} {s : σ}
    (hmeets : Meets step ok s (as ++ bs)) : Meets step ok s as := by
  induction as generalizing s with
  | nil => trivial
  | cons a as ih => exact ⟨hmeets.1, fun s' hs' => ih (hmeets.2 s' hs')⟩

/-- A condition is met along a run if it is along the first part and then along the rest. -/
theorem meets_append {step : σ → α → Option σ} {ok : σ → α → Prop} {as bs : List α} {s : σ}
    (hfirst : Meets step ok s as) (hrest : ∀ s', run step s as = some s' → Meets step ok s' bs) :
    Meets step ok s (as ++ bs) := by
  induction as generalizing s with
  | nil => exact hrest s rfl
  | cons a as ih =>
    refine ⟨hfirst.1, fun s₁ hs₁ => ih (hfirst.2 s₁ hs₁) fun s' hs' => hrest s' ?_⟩
    rw [run, hs₁]
    exact hs'

/-- The rest of a run whose steps meet the condition meets it in the state it starts from. -/
theorem meets_of_append {step : σ → α → Option σ} {ok : σ → α → Prop} {as bs : List α} {s s' : σ}
    (hmeets : Meets step ok s (as ++ bs)) (hrun : run step s as = some s') :
    Meets step ok s' bs := by
  induction as generalizing s with
  | nil =>
    rw [run, Option.some.injEq] at hrun
    exact hrun ▸ hmeets
  | cons a as ih =>
    cases ha : step s a with
    | none => simp [run, ha] at hrun
    | some s₁ =>
      rw [run, ha, Option.bind_some] at hrun
      exact ih (hmeets.2 s₁ ha) hrun

/-- An invariant of the steps that meet a condition holds after every run of them. -/
theorem run_invariant {step : σ → α → Option σ} {ok : σ → α → Prop} {I : σ → Prop}
    (hstep : ∀ s a s', I s → ok s a → step s a = some s' → I s') {s s' : σ} {as : List α}
    (hinit : I s) (hmeets : Meets step ok s as) (hrun : run step s as = some s') : I s' := by
  induction as generalizing s with
  | nil =>
    rw [run, Option.some.injEq] at hrun
    exact hrun ▸ hinit
  | cons a as ih =>
    obtain ⟨hok, hrest⟩ := hmeets
    cases ha : step s a with
    | none => simp [run, ha] at hrun
    | some s₁ =>
      rw [run, ha, Option.bind_some] at hrun
      exact ih (hstep s a s₁ hinit hok ha) (hrest s₁ ha) hrun

end Transition
