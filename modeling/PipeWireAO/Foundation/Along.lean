import Mathlib.Tactic.Common

/-!
# Conditions along a list of inputs

A system that takes every input is a function `f : σ → α → σ`, and a run of it is a fold. A condition
on an input may depend on the state in which the input arrives; `Along` says that it holds for every
input of a run.
-/

namespace Foundation

variable {σ α : Type*} {f : σ → α → σ} {P : σ → α → Prop} {I : σ → Prop} {s : σ} {as : List α}

/-- Every input satisfies `P` at the state where it arrives, from `s` on. -/
def Along (f : σ → α → σ) (P : σ → α → Prop) : σ → List α → Prop
  | _, [] => True
  | s, a :: as => P s a ∧ Along f P (f s a) as

namespace Along

/-- **The invariant rule**: what an input keeps under the condition is kept by the run. -/
theorem invariant (hstep : ∀ s a, I s → P s a → I (f s a)) (h : Along f P s as) (hs : I s) :
    I (as.foldl f s) := by
  induction as generalizing s with
  | nil => exact hs
  | cons a as ih => exact ih h.2 (hstep s a hs h.1)

/-- A condition that can be decided can be decided along a run. -/
instance decidable [∀ s a, Decidable (P s a)] : (s : σ) → (as : List α) → Decidable (Along f P s as)
  | _, [] => .isTrue True.intro
  | s, a :: as => @instDecidableAnd _ _ _ (decidable (f s a) as)

end Along

end Foundation
