/-
Grouped items with a weight: how many items of a list belong to a group and what they weigh together,
and how the two change when an item is added, when one is taken out by a key that no other has, and
when the list is only reordered.
-/
import Mathlib.Algebra.Order.BigOperators.Group.List
import Mathlib.Algebra.Order.Ring.Int
import Mathlib.Data.List.Nodup

namespace Ledger

variable {α γ κ : Type} [DecidableEq γ] [DecidableEq κ]

/-- The number of items of group `g`. -/
def count (grp : α → γ) (g : γ) (l : List α) : Int := ((l.filter fun a => grp a = g).length : Int)

/-- The weight of the items of group `g`. -/
def total (grp : α → γ) (wt : α → Int) (g : γ) (l : List α) : Int :=
  ((l.filter fun a => grp a = g).map wt).sum

variable {grp : α → γ} {wt : α → Int} {g : γ} {l l' : List α} {a : α}

theorem count_nonneg : 0 ≤ count grp g l := by
  unfold count
  omega

theorem count_perm (h : l.Perm l') : count grp g l = count grp g l' := by
  unfold count
  rw [(h.filter _).length_eq]

theorem total_perm (h : l.Perm l') : total grp wt g l = total grp wt g l' := by
  unfold total
  exact ((h.filter _).map _).sum_eq

theorem count_cons : count grp g (a :: l) = count grp g l + if grp a = g then 1 else 0 := by
  unfold count
  by_cases h : grp a = g <;> simp [h]

theorem total_cons : total grp wt g (a :: l) = total grp wt g l + if grp a = g then wt a else 0 := by
  unfold total
  by_cases h : grp a = g
  · simp [h, Int.add_comm]
  · simp [h]

theorem total_nonneg (h : ∀ a ∈ l, 0 ≤ wt a) : 0 ≤ total grp wt g l := by
  induction l with
  | nil => exact Int.le_refl 0
  | cons a l ih =>
    have ha := h a List.mem_cons_self
    have hl := ih fun b hb => h b (List.mem_cons_of_mem _ hb)
    rw [total_cons]
    split <;> omega

theorem count_eq_zero (h : ∀ a ∈ l, grp a ≠ g) : count grp g l = 0 := by
  unfold count
  rw [List.filter_eq_nil_iff.mpr (by simpa using h)]
  rfl

theorem total_eq_zero (h : ∀ a ∈ l, grp a ≠ g) : total grp wt g l = 0 := by
  unfold total
  rw [List.filter_eq_nil_iff.mpr (by simpa using h)]
  rfl

/-- Part of the items counts for no more. -/
theorem count_le (h : l.Subperm l') : count grp g l ≤ count grp g l' := by
  unfold count
  exact Int.ofNat_le.mpr (h.filter _).length_le

theorem total_le (h : l.Subperm l') (hw : ∀ a ∈ l', 0 ≤ wt a) : total grp wt g l ≤ total grp wt g l' := by
  obtain ⟨l₀, hp, hs⟩ := h
  rw [← total_perm hp]
  unfold total
  refine ((hs.filter _).map _).sum_le_sum ?_
  intro x hx
  obtain ⟨a, ha, rfl⟩ := List.mem_map.mp hx
  exact hw a (List.mem_of_mem_filter ha)

/-- One item and the rest, when the items have distinct keys and those with its key are dropped. -/
theorem perm_cons_filter {key : α → κ} (hn : (l.map key).Nodup) (ha : a ∈ l) :
    l.Perm (a :: l.filter fun b => key b ≠ key a) := by
  induction l with
  | nil => cases ha
  | cons b l ih =>
    rw [List.map_cons, List.nodup_cons] at hn
    by_cases hk : key b = key a
    · have hl : ∀ c ∈ l, key c ≠ key a := by
        intro c hc he
        exact hn.1 (List.mem_map.mpr ⟨c, hc, he.trans hk.symm⟩)
      have hab : a = b := by
        rcases List.mem_cons.mp ha with h | h
        · exact h
        · exact absurd rfl (hl a h)
      subst hab
      rw [List.filter_cons_of_neg (by simp), List.filter_eq_self.mpr (by simpa using hl)]
    · have hal : a ∈ l := by
        rcases List.mem_cons.mp ha with h | h
        · exact absurd (by rw [h]) hk
        · exact h
      rw [List.filter_cons_of_pos (by simpa using hk)]
      exact ((ih hn.2 hal).cons b).trans (List.Perm.swap a b _)

end Ledger
