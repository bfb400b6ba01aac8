/-
Texts in quotes, set one after the other with a separator between them, over any alphabet: a quoted text without a
quote in it occurs in such a row of quoted texts exactly when it is one of them, unless it is the separator itself.
-/
import Mathlib.Data.List.Infix

namespace Quoted

variable {α : Type} {q sep : α}

/-- A text in quotes. -/
def quote (q : α) (s : List α) : List α := q :: (s ++ [q])

/-- The texts in quotes, each after a separator. -/
def trail (q sep : α) (l : List (List α)) : List α := l.flatMap fun s => sep :: quote q s

/-- The texts in quotes, separated. -/
def joined (q sep : α) : List (List α) → List α
  | [] => []
  | s :: l => quote q s ++ trail q sep l

theorem trail_cons (s : List α) (l : List (List α)) (after : List α) :
    trail q sep (s :: l) ++ after = sep :: q :: (s ++ q :: (trail q sep l ++ after)) := by
  simp [trail, quote]

theorem trail_eq_cons_joined (s : List α) (l : List (List α)) : trail q sep (s :: l) = sep :: joined q sep (s :: l) := by
  simp [trail, joined]

/-- A text is cut at its first quote in one way only. -/
theorem cut_unique {a b r t : List α} (ha : q ∉ a) (hb : q ∉ b) (h : a ++ q :: r = b ++ q :: t) : a = b ∧ r = t := by
  induction a generalizing b with
  | nil =>
    cases b with
    | nil => exact ⟨rfl, (List.cons.inj h).2⟩
    | cons c b => exact absurd ((List.cons.inj h).1 ▸ List.mem_cons_self) hb
  | cons c a ih =>
    rw [List.mem_cons, not_or] at ha
    cases b with
    | nil => exact absurd (List.cons.inj h).1.symm ha.1
    | cons d b =>
      obtain ⟨rfl, h₁⟩ := List.cons.inj h
      obtain ⟨rfl, hr⟩ := ih ha.2 (fun hm => hb (List.mem_cons_of_mem _ hm)) h₁
      exact ⟨rfl, hr⟩

/-- A quote does not stand in a text without quotes. -/
theorem after_of_not_mem {a p w x : List α} (ha : q ∉ a) (h : p ++ q :: w = a ++ x) :
    ∃ p', p = a ++ p' ∧ p' ++ q :: w = x := by
  rcases List.append_eq_append_iff.mp h with ⟨m, hm, hx⟩ | ⟨m, hm, hx⟩
  · cases m with
    | nil => exact ⟨[], by rw [List.append_nil, hm, List.append_nil], by rw [hx]; rfl⟩
    | cons c m =>
      obtain ⟨rfl, -⟩ := List.cons.inj hx
      exact absurd (by rw [hm]; simp) ha
  · exact ⟨m, hm, hx.symm⟩

theorem mem_of_trail {u : List α} (hsep : sep ≠ q) (hu : q ∉ u) (hne : u ≠ [sep]) {l : List (List α)} (hl : ∀ s ∈ l, q ∉ s)
    {p r after : List α} (ha : q ∉ after) (h : p ++ q :: (u ++ q :: r) = trail q sep l ++ after) : u ∈ l := by
  induction l generalizing p with
  | nil => exact absurd (by rw [show after = _ from h.symm]; simp) ha
  | cons s l ih =>
    have hs := hl s List.mem_cons_self
    rw [trail_cons] at h
    -- past the separator, at the quote before `s`
    obtain ⟨p₁, rfl, h₁⟩ := after_of_not_mem (a := [sep]) (by simpa using hsep.symm) h
    cases p₁ with
    | nil =>
      obtain ⟨rfl, -⟩ := cut_unique hu hs (List.cons.inj h₁).2
      exact List.mem_cons_self
    | cons c p₁ =>
      -- past `s`, at the quote after it
      obtain ⟨p₂, rfl, h₂⟩ := after_of_not_mem hs (List.cons.inj h₁).2
      cases p₂ with
      | nil =>
        have h' := (List.cons.inj h₂).2
        cases l with
        | nil => exact absurd (by rw [show after = _ from h'.symm]; simp) ha
        | cons t l =>
          rw [trail_cons] at h'
          exact absurd (cut_unique hu (by simpa using hsep.symm) (show u ++ q :: r = [sep] ++ q :: _ from h')).1 hne
      | cons d p₂ => exact List.mem_cons_of_mem _ (ih (fun t ht => hl t (List.mem_cons_of_mem _ ht)) (List.cons.inj h₂).2)

theorem quote_infix_joined {u : List α} {l : List (List α)} (hm : u ∈ l) : quote q u <:+: joined q sep l := by
  induction l with
  | nil => cases hm
  | cons s l ih =>
    rcases List.mem_cons.mp hm with rfl | hm
    · exact (List.prefix_append _ _).isInfix
    · refine (ih hm).trans ?_
      cases l with
      | nil => cases hm
      | cons t l =>
        refine List.IsSuffix.isInfix ⟨quote q s ++ [sep], ?_⟩
        rw [show joined q sep (s :: t :: l) = quote q s ++ trail q sep (t :: l) from rfl, trail_eq_cons_joined]
        simp

/-- The quoted texts in a row of quoted texts. -/
theorem quote_infix_joined_iff {u : List α} (hsep : sep ≠ q) (hu : q ∉ u) (hne : u ≠ [sep]) {l : List (List α)}
    (hl : ∀ s ∈ l, q ∉ s) {before after : List α} (hb : q ∉ before) (ha : q ∉ after) :
    quote q u <:+: before ++ joined q sep l ++ after ↔ u ∈ l := by
  constructor
  · rintro ⟨p, r, h⟩
    rw [List.append_assoc, List.append_assoc] at h
    obtain ⟨p', rfl, h₁⟩ := after_of_not_mem hb (show p ++ q :: (u ++ [q] ++ r) = _ from h)
    rw [List.append_assoc] at h₁
    refine mem_of_trail hsep hu hne hl ha (p := sep :: p') (r := r) ?_
    cases l with
    | nil => exact absurd (by rw [show after = _ from h₁.symm]; simp) ha
    | cons s l =>
      rw [trail_eq_cons_joined, List.cons_append, List.cons_append]
      exact congrArg (sep :: ·) h₁
  · intro hm
    exact ((quote_infix_joined hm).trans (List.suffix_append _ _).isInfix).trans (List.prefix_append _ _).isInfix

end Quoted
