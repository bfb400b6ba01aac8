/-
A machine whose state has a part for each key, and whose inputs each look at and change the part of their own key alone:
in any interleaving, what comes out for a key is what its own inputs make of its own part.
-/
import Mathlib.Logic.Function.Basic

namespace Shards

universe u

variable {κ σ ι ω : Type u} [DecidableEq κ] (step : σ → ι → σ × ω) (keyOf : ι → κ)

/-- The inputs of one key, from its part of the state. -/
def runPart (s : σ) : List ι → σ × List ω
  | [] => (s, [])
  | a :: l => ((runPart (step s a).1 l).1, (step s a).2 :: (runPart (step s a).1 l).2)

/-- Inputs of any keys; what comes out is told with the key. -/
def run (c : κ → σ) : List ι → (κ → σ) × List (κ × ω)
  | [] => (c, [])
  | a :: l =>
    let r := step (c (keyOf a)) a
    let rest := run (Function.update c (keyOf a) r.1) l
    (rest.1, (keyOf a, r.2) :: rest.2)

variable {step keyOf} {c : κ → σ} {s : σ} {l l' : List ι} {k : κ}

theorem runPart_append :
    runPart step s (l ++ l') = ((runPart step (runPart step s l).1 l').1,
      (runPart step s l).2 ++ (runPart step (runPart step s l).1 l').2) := by
  induction l generalizing s with
  | nil => rfl
  | cons a l ih => rw [List.cons_append, runPart, ih, runPart, List.cons_append]

theorem length_runPart : (runPart step s l).2.length = l.length := by
  induction l generalizing s with
  | nil => rfl
  | cons a l ih => rw [runPart, List.length_cons, List.length_cons, ih]

/-- The inputs of other keys make no difference. -/
theorem run_part : (run step keyOf c l).1 k = (runPart step (c k) (l.filter fun a => keyOf a = k)).1 ∧
    ((run step keyOf c l).2.filter fun o => o.1 = k).map Prod.snd =
      (runPart step (c k) (l.filter fun a => keyOf a = k)).2 := by
  induction l generalizing c with
  | nil => exact ⟨rfl, rfl⟩
  | cons a l ih =>
    obtain ⟨hstate, hout⟩ := ih (c := Function.update c (keyOf a) (step (c (keyOf a)) a).1)
    rw [run]
    by_cases hk : keyOf a = k
    · subst hk
      rw [Function.update_self] at hstate hout
      rw [List.filter_cons_of_pos (by simp), List.filter_cons_of_pos (by simp), runPart]
      exact ⟨hstate, congrArg ((step (c (keyOf a)) a).2 :: ·) hout⟩
    · rw [Function.update_of_ne (Ne.symm hk)] at hstate hout
      rw [List.filter_cons_of_neg (by simpa using hk), List.filter_cons_of_neg (by simpa using hk)]
      exact ⟨hstate, hout⟩

end Shards
