/-
Handing out batches of a fixed size against a running total. Totals are presented in some order, not
necessarily ascending; each presentation gives out at most one batch, and only when the total presented
covers it. How many batches have been given out is the longest ladder in what was presented: one total
that covers the first batch, after it one that covers the second, and so on.
-/
import Mathlib.Data.List.Basic
import Mathlib.Tactic.Ring
import Mathlib.Tactic.Linarith

namespace Batching

variable {n : Int}

/-- Present the total `t` when `k` batches of `n` have been given out. -/
def present (n : Int) (k : Nat) (t : Int) : Nat := if n ≤ t - k * n then k + 1 else k

/-- The batches given out after a list of totals. -/
def given (n : Int) (k : Nat) (l : List Int) : Nat := l.foldl (present n) k

/-- Each total of the list covers one batch more than the one before it, after `k` batches. -/
def Ladder (n : Int) : Nat → List Int → Prop
  | _, [] => True
  | k, t :: l => (k + 1 : Nat) * n ≤ t ∧ Ladder n (k + 1) l

theorem present_cases (k : Nat) (t : Int) : present n k t = k ∨ present n k t = k + 1 := by
  unfold present
  split
  · exact .inr rfl
  · exact .inl rfl

theorem le_present (k : Nat) (t : Int) : k ≤ present n k t := by
  unfold present
  split <;> omega

theorem present_mono {j k : Nat} (h : j ≤ k) (t : Int) : present n j t ≤ present n k t := by
  rcases Nat.lt_or_eq_of_le h with hlt | rfl
  · unfold present
    split
    · split <;> omega
    · split <;> omega
  · exact Nat.le_refl _

theorem given_mono {j k : Nat} (h : j ≤ k) (l : List Int) : given n j l ≤ given n k l := by
  induction l generalizing j k with
  | nil => exact h
  | cons t l ih => exact ih (present_mono h t)

theorem present_eq_succ {k : Nat} {t : Int} (h : (k + 1 : Nat) * n ≤ t) : present n k t = k + 1 := by
  unfold present
  rw [if_pos]
  push_cast at h
  linarith

/-- The totals presented never give out more than the largest of them covers. -/
theorem given_mul_le {T : Int} {k : Nat} {l : List Int} (hk : k * n ≤ T) (hl : ∀ t ∈ l, t ≤ T) :
    given n k l * n ≤ T := by
  induction l generalizing k with
  | nil => exact hk
  | cons t l ih =>
    have ht : t ≤ T := hl t List.mem_cons_self
    refine ih ?_ fun t' ht' => hl t' (List.mem_cons_of_mem t ht')
    unfold present
    split
    · push_cast
      linarith
    · exact hk

/-- A ladder in what is presented is climbed. -/
theorem le_given_of_ladder {k : Nat} {l₀ l : List Int} (h : l₀.Sublist l) (hl : Ladder n k l₀) :
    k + l₀.length ≤ given n k l := by
  induction h generalizing k with
  | slnil => exact Nat.le_refl k
  | @cons l₀ l t _ ih => exact Nat.le_trans (ih hl) (given_mono (le_present k t) l)
  | @cons_cons l₀ l t _ ih =>
    have h' := ih hl.2
    have he : given n k (t :: l) = given n (k + 1) l := by
      show given n (present n k t) l = _
      rw [present_eq_succ hl.1]
    rw [he, List.length_cons]
    omega

/-- The totals that gave out a batch form a ladder. -/
theorem exists_ladder (k : Nat) (l : List Int) :
    ∃ l₀ : List Int, l₀.Sublist l ∧ k + l₀.length = given n k l ∧ Ladder n k l₀ := by
  induction l generalizing k with
  | nil => exact ⟨[], List.Sublist.refl _, rfl, trivial⟩
  | cons t l ih =>
    obtain ⟨l₀, hs, hlen, hl⟩ := ih (present n k t)
    by_cases h : n ≤ t - k * n
    · have hp : present n k t = k + 1 := if_pos h
      rw [hp] at hlen hl
      refine ⟨t :: l₀, hs.cons_cons t, ?_, ?_, hl⟩
      · show k + (l₀.length + 1) = given n (present n k t) l
        rw [hp]
        omega
      · push_cast
        linarith
    · have hp : present n k t = k := if_neg h
      rw [hp] at hlen hl
      refine ⟨l₀, hs.cons t, ?_, hl⟩
      show k + l₀.length = given n (present n k t) l
      rw [hp]
      exact hlen

theorem ladder_take {k m : Nat} {l : List Int} (h : Ladder n k l) : Ladder n k (l.take m) := by
  induction l generalizing k m with
  | nil => simp [Ladder]
  | cons t l ih =>
    cases m with
    | zero => exact trivial
    | succ m => exact ⟨h.1, ih h.2⟩

/-- At least `m` batches are given out exactly when what is presented has a ladder of `m` totals. -/
theorem le_given_iff {m : Nat} {l : List Int} :
    m ≤ given n 0 l ↔ ∃ l₀ : List Int, l₀.Sublist l ∧ l₀.length = m ∧ Ladder n 0 l₀ := by
  constructor
  · intro h
    obtain ⟨l₀, hs, hlen, hl⟩ := exists_ladder (n := n) 0 l
    refine ⟨l₀.take m, (List.take_sublist m l₀).trans hs, ?_, ladder_take hl⟩
    rw [List.length_take]
    omega
  · rintro ⟨l₀, hs, hlen, hl⟩
    have h := le_given_of_ladder hs hl
    omega

/-- With every total at most `T`, what is given out is all that `T` covers exactly when there is a ladder
for it. -/
theorem given_eq_div_iff {T : Int} {l : List Int} (hn : 0 < n) (hT : 0 ≤ T) (hl : ∀ t ∈ l, t ≤ T) :
    given n 0 l = (T / n).toNat ↔
      ∃ l₀ : List Int, l₀.Sublist l ∧ l₀.length = (T / n).toNat ∧ Ladder n 0 l₀ := by
  have hle : given n 0 l ≤ (T / n).toNat := by
    have hmul := given_mul_le (n := n) (k := 0) (by simpa using hT) hl
    have hdiv : (given n 0 l : Int) ≤ T / n := (Int.le_ediv_iff_mul_le hn).mpr hmul
    omega
  rw [← le_given_iff]
  constructor
  · intro h
    exact h.ge
  · intro h
    exact Nat.le_antisymm hle h

end Batching
