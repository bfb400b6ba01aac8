/-
A list cut at the first occurrence of an element: what comes before it, and the rest from it on, where there is one.
The rest is what a search for a character in a string gives.
-/
import Mathlib.Data.List.Basic

namespace Cut

universe u

variable {α : Type u} [DecidableEq α]

/-- What comes before the first `c`; all of the list where there is none. -/
def before (c : α) (s : List α) : List α := s.takeWhile (· ≠ c)

/-- The rest from the first `c` on. -/
def from? (c : α) : List α → Option (List α)
  | [] => none
  | a :: s => if a = c then some (a :: s) else from? c s

variable {c : α} {a b s : List α}

@[simp] theorem before_nil (c : α) : before c [] = [] := rfl

@[simp] theorem before_cons_self (c : α) (s : List α) : before c (c :: s) = [] := by simp [before]

@[simp] theorem from?_cons_self (c : α) (s : List α) : from? c (c :: s) = some (c :: s) := if_pos rfl

theorem before_cons_ne {x : α} (h : x ≠ c) (s : List α) : before c (x :: s) = x :: before c s :=
  List.takeWhile_cons_of_pos (decide_eq_true h)

theorem from?_cons_ne {x : α} (h : x ≠ c) (s : List α) : from? c (x :: s) = from? c s := if_neg h

/-- A prefix without `c` is passed over. -/
theorem before_append (h : c ∉ a) (b : List α) : before c (a ++ b) = a ++ before c b := by
  induction a with
  | nil => rfl
  | cons x a ih =>
    obtain ⟨hx, ha⟩ := not_or.mp (mt List.mem_cons.mpr h)
    rw [List.cons_append, before_cons_ne (Ne.symm hx), ih ha, List.cons_append]

theorem from?_append (h : c ∉ a) (b : List α) : from? c (a ++ b) = from? c b := by
  induction a with
  | nil => rfl
  | cons x a ih =>
    obtain ⟨hx, ha⟩ := not_or.mp (mt List.mem_cons.mpr h)
    rw [List.cons_append, from?_cons_ne (Ne.symm hx), ih ha]

theorem before_of_not_mem (h : c ∉ s) : before c s = s := by
  have := before_append h []
  rwa [List.append_nil, before_nil, List.append_nil] at this

theorem from?_of_not_mem (h : c ∉ s) : from? c s = none := by
  have := from?_append h []
  rwa [List.append_nil] at this

theorem before_append_cons (h : c ∉ a) (b : List α) : before c (a ++ c :: b) = a := by
  rw [before_append h, before_cons_self, List.append_nil]

theorem from?_append_cons (h : c ∉ a) (b : List α) : from? c (a ++ c :: b) = some (c :: b) := by
  rw [from?_append h, from?_cons_self]

theorem from?_suffix {t : List α} (h : from? c s = some t) : t <:+ s := by
  induction s with
  | nil => cases h
  | cons x s ih =>
    by_cases hx : x = c
    · subst hx
      rw [from?_cons_self] at h
      cases h
      exact List.suffix_refl _
    · rw [from?_cons_ne hx] at h
      exact (ih h).trans (List.suffix_cons x s)

end Cut
