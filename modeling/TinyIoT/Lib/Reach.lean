/-
Runs of a transition system: the states reached from the initial ones, and the rule that an invariant
of every step holds in all of them.
-/

universe u

/-- The states that runs from `init` by `step` reach. -/
inductive Reach {σ : Type u} (init : σ → Prop) (step : σ → σ → Prop) : σ → Prop where
  | start {s : σ} : init s → Reach init step s
  | next {s s' : σ} : Reach init step s → step s s' → Reach init step s'

namespace Reach

variable {σ : Type u} {init : σ → Prop} {step : σ → σ → Prop}

/-- What holds at the start and is kept by every step holds in every state reached. -/
theorem inv {I : σ → Prop} (h0 : ∀ s, init s → I s) (hs : ∀ s s', I s → step s s' → I s') {s : σ}
    (h : Reach init step s) : I s := by
  induction h with
  | start h => exact h0 _ h
  | next _ h ih => exact hs _ _ ih h

/-- A run given by its actions, where `f` performs one of them. -/
theorem of_foldlM {α : Type u} {f : σ → α → Option σ} (hf : ∀ s a s', f s a = some s' → step s s') (l : List α)
    {s s' : σ} (hs : Reach init step s) (h : l.foldlM f s = some s') : Reach init step s' := by
  induction l generalizing s with
  | nil => cases h; exact hs
  | cons a l ih =>
    rw [List.foldlM_cons] at h
    obtain ⟨s₁, h₁, h⟩ := Option.bind_eq_some_iff.mp h
    exact ih (hs.next (hf s a s₁ h₁)) h

end Reach
