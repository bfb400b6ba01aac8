/-
Relations along which one cannot go on for ever, seen as graphs: a graph with fewer edges is one again, and so
is a graph in which one vertex gets new edges, as long as none of them leads to where the vertex was reached
from.
-/
import Mathlib.Logic.Relation

universe u

/-- No path goes on for ever. -/
def Descends {α : Type u} (R : α → α → Prop) : Prop := WellFounded (flip R)

namespace Descends

variable {α : Type u} {R R' : α → α → Prop} {t : α}

theorem mono (h : Descends R) (hsub : ∀ a b, R' a b → R a b) : Descends R' :=
  Subrelation.wf (fun {a b} hab => hsub b a hab) h

/-- What holds of a vertex when it holds of those it leads to holds of every vertex. -/
theorem induct (h : Descends R) {P : α → Prop} (hP : ∀ a, (∀ b, R a b → P b) → P a) (a : α) : P a :=
  WellFounded.induction h a hP

theorem of_isEmpty (h : ∀ a b, ¬ R a b) : Descends R := ⟨fun a => ⟨a, fun b hb => absurd hb (h a b)⟩⟩

/-- An edge is not led back along. -/
theorem not_back (h : Descends R) {a b : α} (hab : R a b) : ¬ Relation.ReflTransGen R b a := by
  induction a using h.induct generalizing b with
  | hP a ih =>
    intro hba
    rcases hba.cases_head with rfl | ⟨c, hbc, hca⟩
    · exact ih b hab hab .refl
    · exact ih b hab hbc (hca.tail hab)

/-- One vertex gets new edges, to vertices it is not reached from. -/
theorem redirect (h : Descends R) (hsame : ∀ a b, a ≠ t → R' a b → R a b)
    (hnew : ∀ b, R' t b → ¬ Relation.ReflTransGen R b t) : Descends R' := by
  -- what does not reach the vertex has the paths it had
  have haway : ∀ a, ¬ Relation.ReflTransGen R a t → Acc (flip R') a := by
    intro a
    induction a using h.induct with
    | hP a ih =>
      intro ha
      have hne : a ≠ t := by
        rintro rfl
        exact ha .refl
      exact ⟨a, fun b hb => ih b (hsame a b hne hb) fun hbt => ha (hbt.head (hsame a b hne hb))⟩
  have ht : Acc (flip R') t := ⟨t, fun b hb => haway b (hnew b hb)⟩
  refine ⟨fun a => ?_⟩
  induction a using h.induct with
  | hP a ih =>
    by_cases hat : a = t
    · exact hat ▸ ht
    · exact ⟨a, fun b hb => ih b (hsame a b hat hb)⟩

end Descends

/-- A bound for each element of a list, from which on something holds, gives one for all of them. -/
theorem exists_common_bound {α : Type u} {P : α → Nat → Prop} (l : List α) (h : ∀ a ∈ l, ∃ N, ∀ d ≥ N, P a d) :
    ∃ N, ∀ a ∈ l, ∀ d ≥ N, P a d := by
  induction l with
  | nil => exact ⟨0, fun a ha => absurd ha List.not_mem_nil⟩
  | cons a l ih =>
    obtain ⟨N, hN⟩ := h a List.mem_cons_self
    obtain ⟨M, hM⟩ := ih fun b hb => h b (List.mem_cons_of_mem _ hb)
    refine ⟨max N M, fun b hb d hd => ?_⟩
    rcases List.mem_cons.mp hb with rfl | hb
    · exact hN d (by omega)
    · exact hM b hb d (by omega)
