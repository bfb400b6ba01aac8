/-
The longest suffix of a list that meets a bound: elements leave at the front, one after another, until
what is left meets it. `shed` is what leaves and `trim` what stays, and `trim` is the longest suffix
with the property whenever some suffix has it.
-/
import Mathlib.Data.List.Infix

namespace Trim

universe u

variable {α : Type u} (p : List α → Prop) [DecidablePred p]

/-- What stays. -/
def trim : List α → List α
  | [] => []
  | a :: l => if p (a :: l) then a :: l else trim l

/-- What leaves, in the order it leaves. -/
def shed : List α → List α
  | [] => []
  | a :: l => if p (a :: l) then [] else a :: shed l

/-- The longest suffix of `l` with the property. -/
structure Longest (p : List α → Prop) (l k : List α) : Prop where
  suffix : k <:+ l
  holds : p k
  longest : ∀ m, m <:+ l → p m → m <:+ k

variable {p} {l k : List α} {a : α}

@[simp] theorem trim_of (h : p l) : trim p l = l := by
  cases l with
  | nil => rfl
  | cons a l => exact if_pos h

@[simp] theorem shed_of (h : p l) : shed p l = [] := by
  cases l with
  | nil => rfl
  | cons a l => exact if_pos h

theorem trim_cons_of_not (h : ¬ p (a :: l)) : trim p (a :: l) = trim p l := if_neg h

theorem shed_cons_of_not (h : ¬ p (a :: l)) : shed p (a :: l) = a :: shed p l := if_neg h

/-- Nothing is lost between the two. -/
theorem shed_append_trim (l : List α) : shed p l ++ trim p l = l := by
  induction l with
  | nil => rfl
  | cons a l ih =>
    by_cases h : p (a :: l)
    · rw [shed_of h, trim_of h, List.nil_append]
    · rw [shed_cons_of_not h, trim_cons_of_not h, List.cons_append, ih]

/-- Where some suffix has the property, what stays is the longest. -/
theorem longest_trim (hk : k <:+ l) (hp : p k) : Longest p l (trim p l) := by
  induction l with
  | nil =>
    cases List.suffix_nil.mp hk
    exact ⟨List.suffix_refl _, hp, fun m hm _ => hm⟩
  | cons a l ih =>
    by_cases h : p (a :: l)
    · rw [trim_of h]
      exact ⟨List.suffix_refl _, h, fun m hm _ => hm⟩
    · rw [trim_cons_of_not h]
      -- no suffix with the property starts at the head
      have htail : ∀ m, m <:+ a :: l → p m → m <:+ l := by
        intro m hm hpm
        rcases List.suffix_cons_iff.mp hm with rfl | hm
        · exact absurd hpm h
        · exact hm
      obtain ⟨hs, hh, hl⟩ := ih (htail k hk hp)
      exact ⟨hs.trans (List.suffix_cons a l), hh, fun m hm hpm => hl m (htail m hm hpm) hpm⟩

/-- There is one longest suffix at most. -/
theorem Longest.eq_trim (h : Longest p l k) : k = trim p l := by
  obtain ⟨hs, hh, hl⟩ := longest_trim h.suffix h.holds
  exact (hl k h.suffix h.holds).eq_of_length_le (h.longest _ hs hh).length_le

end Trim
