/-
Tokens of a text, as `strtok_r` takes them: delimiters are skipped, the token goes up to the next delimiter, and the rest
begins behind that one. A token at the end of the text has no rest.
-/
import Mathlib.Data.List.TakeWhile

namespace Tokens

universe u

variable {α : Type u}

/-- A token, with the rest behind the delimiter that ends it. -/
structure Token (α : Type u) where
  text : List α
  rest : Option (List α)

/-- What the next call goes on with. -/
def Token.after (t : Token α) : List α := t.rest.getD []

/-- The next token, where there is one. -/
def next (d : α → Bool) (s : List α) : Option (Token α) :=
  match s.dropWhile d with
  | [] => none
  | c :: s => some ⟨(c :: s).takeWhile (!d ·), ((c :: s).dropWhile (!d ·)).tail?⟩

variable {d : α → Bool} {p t s : List α} {x : α}

theorem dropWhile_of_all (hp : ∀ c ∈ p, d c = true) (s : List α) : (p ++ s).dropWhile d = s.dropWhile d := by
  induction p with
  | nil => rfl
  | cons c p ih =>
    rw [List.cons_append, List.dropWhile_cons_of_pos (hp c List.mem_cons_self), ih fun c hc => hp c (List.mem_cons_of_mem _ hc)]

/-- A property of the elements of a given list, evaluated one by one. -/
theorem forall_mem_of_all {q : α → Prop} [DecidablePred q] (h : (s.all fun c => decide (q c)) = true) : ∀ c ∈ s, q c :=
  fun c hc => of_decide_eq_true (List.all_eq_true.mp h c hc)

/-- Leading delimiters are skipped. -/
theorem next_skip (hp : ∀ c ∈ p, d c = true) (s : List α) : next d (p ++ s) = next d s := by
  unfold next
  rw [dropWhile_of_all hp]

/-- A token up to a delimiter. -/
theorem next_token (ht : ∀ c ∈ t, d c = false) (hne : t ≠ []) (hx : d x = true) (s : List α) :
    next d (t ++ x :: s) = some ⟨t, some s⟩ := by
  have hneg : ∀ c ∈ t, (!d c) = true := fun c hc => by rw [ht c hc]; rfl
  have hstop : (!d x) = false := by rw [hx]; rfl
  have htake : (t ++ x :: s).takeWhile (!d ·) = t := by
    rw [List.takeWhile_append_of_pos hneg, List.takeWhile_cons_of_neg (by simp [hx]), List.append_nil]
  have hdrop : (t ++ x :: s).dropWhile (!d ·) = x :: s := by
    rw [dropWhile_of_all hneg, List.dropWhile_cons_of_neg (by simp [hx])]
  obtain ⟨c, l, rfl⟩ := List.exists_cons_of_ne_nil hne
  rw [List.cons_append] at htake hdrop ⊢
  unfold next
  rw [List.dropWhile_cons_of_neg (by simp [ht c List.mem_cons_self])]
  dsimp only
  rw [htake, hdrop]
  rfl

/-- More text behind a token that has ended changes nothing but the rest. -/
theorem next_append {r : List α} (h : next d s = some ⟨t, some r⟩) (w : List α) :
    next d (s ++ w) = some ⟨t, some (r ++ w)⟩ := by
  unfold next at h
  split at h
  · cases h
  · rename_i c l hs
    simp only [Option.some.injEq, Token.mk.injEq] at h
    obtain ⟨ht, hr⟩ := h
    obtain ⟨x, hx⟩ : ∃ x, (c :: l).dropWhile (!d ·) = x :: r := by
      cases hd : (c :: l).dropWhile (!d ·) with
      | nil =>
        rw [hd] at hr
        cases hr
      | cons x m =>
        rw [hd] at hr
        cases hr
        exact ⟨x, rfl⟩
    -- the text is delimiters, the token, the delimiter that ends it and the rest
    have hsplit : s = s.takeWhile d ++ (t ++ x :: r) := by
      rw [← ht, ← hx, List.takeWhile_append_dropWhile, ← hs, List.takeWhile_append_dropWhile]
    have hstop : d x = true := by
      have := List.head?_dropWhile_not (!d ·) (c :: l)
      rw [hx] at this
      simpa using this
    have hfirst : d c = false := by
      have := List.head?_dropWhile_not d s
      rw [hs] at this
      simpa using this
    have hplain : ∀ y ∈ t, d y = false := fun y hy => by
      have := List.mem_takeWhile_imp (ht ▸ hy)
      simpa using this
    have hne : t ≠ [] := by
      rw [← ht, List.takeWhile_cons_of_pos (by rw [hfirst]; rfl)]
      exact List.cons_ne_nil _ _
    have hlead : ∀ y ∈ s.takeWhile d, d y = true := fun y hy => List.mem_takeWhile_imp hy
    rw [hsplit, List.append_assoc, next_skip hlead, List.append_assoc, List.cons_append]
    exact next_token hplain hne hstop _

/-- Where there is text left, a delimiter has ended the token. -/
theorem Token.rest_eq_some {k : Token α} (h : k.after ≠ []) : k.rest = some k.after := by
  unfold Token.after at h ⊢
  cases hr : k.rest with
  | none =>
    rw [hr] at h
    exact absurd rfl h
  | some r => rfl

theorem after_ne_nil {k : Token α} {d' : α → Bool} {k' : Token α} (h : next d' k.after = some k') : k.after ≠ [] := by
  intro he
  rw [he] at h
  cases h

/-- A token that is not the last one, with its rest. -/
theorem next_eq_some_after {k : Token α} (h : next d s = some k) (hk : k.after ≠ []) :
    next d s = some ⟨k.text, some k.after⟩ := by
  have hrest := Token.rest_eq_some hk
  obtain ⟨t, rest⟩ := k
  dsimp only at hrest ⊢
  rw [h, ← hrest]

/-- A token takes something from the text. -/
theorem after_lt {k : Token α} (h : next d s = some k) : k.after.length < s.length := by
  unfold next at h
  split at h
  · cases h
  · rename_i c l hs
    cases h
    have hle : (c :: l).length ≤ s.length := hs ▸ (List.dropWhile_suffix d).length_le
    have htail : ((c :: l).dropWhile (!d ·)).length ≤ (c :: l).length := (List.dropWhile_suffix _).length_le
    unfold Token.after
    cases hd : (c :: l).dropWhile (!d ·) with
    | nil =>
      rw [List.length_cons] at hle
      show 0 < s.length
      omega
    | cons y m =>
      rw [hd, List.length_cons] at htail
      show m.length < s.length
      omega

theorem text_length_le {k : Token α} (h : next d s = some k) : k.text.length ≤ s.length := by
  unfold next at h
  split at h
  · cases h
  · rename_i c l hs
    cases h
    have hle : (c :: l).length ≤ s.length := hs ▸ (List.dropWhile_suffix d).length_le
    exact Nat.le_trans (List.takeWhile_prefix _).length_le hle

end Tokens
