import Mathlib.Data.List.Basic

/-!
# Runs of a transition function

A run applies a transition function to a list of actions. A condition on single steps that keeps
an invariant keeps it along every run whose steps meet the condition.
-/

namespace LanguageRuntime.Library

variable {σ α : Type} {step : σ → α → σ} {P P' : σ → α → Prop} {I : σ → Prop} {s : σ}
  {actions later : List α}

/-- Every step of the run from `s` meets `P` in the state in which it is taken. -/
def Meets (step : σ → α → σ) (P : σ → α → Prop) : σ → List α → Prop
  | _, [] => True
  | s, action :: actions => P s action ∧ Meets step P (step s action) actions

/-- A run can be tested step by step. -/
instance decidableMeets [∀ s action, Decidable (P s action)] :
    ∀ s actions, Decidable (Meets step P s actions)
  | _, [] => .isTrue trivial
  | s, action :: actions =>
    have := decidableMeets (step s action) actions
    inferInstanceAs (Decidable (P s action ∧ Meets step P (step s action) actions))

theorem meets_append :
    Meets step P s (actions ++ later) ↔
      Meets step P s actions ∧ Meets step P (actions.foldl step s) later := by
  induction actions generalizing s with
  | nil => simp [Meets]
  | cons action actions ih => simp [Meets, ih, and_assoc]

theorem Meets.mono (hm : Meets step P s actions) (hP : ∀ s action, P s action → P' s action) :
    Meets step P' s actions := by
  induction actions generalizing s with
  | nil => trivial
  | cons action actions ih => exact ⟨hP s action hm.1, ih hm.2⟩

/-- The invariant rule of a run. -/
theorem Meets.invariant (hm : Meets step P s actions)
    (hstep : ∀ s action, I s → P s action → I (step s action)) (hs : I s) :
    I (actions.foldl step s) := by
  induction actions generalizing s with
  | nil => exact hs
  | cons action actions ih => exact ih hm.2 (hstep s action hs hm.1)

end LanguageRuntime.Library
