/-
Batches of a stream of timed elements: an element joins the pending ones, `n` of them are told together,
and pending elements are given up when the next one comes more than `d` after the first of them. Every
element is told once at most, and a batch is `n` elements of the stream in a row.
-/
import Mathlib.Data.List.Induction

namespace Sliding

universe u

variable {α : Type u} (n : Nat) (d : Int) (time : α → Int)

/-- The pending elements and the batches told so far. -/
structure State (α : Type u) where
  pending : List α
  told : List (List α)

/-- The window of the pending elements has run out. -/
def lapsed (l : List α) (now : Int) : Bool := l.head?.any fun q => 0 < d && d < now - time q

/-- The pending elements with a new one. -/
def join (l : List α) (p : α) : List α := (if lapsed d time l (time p) then [] else l) ++ [p]

def push (s : State α) (p : α) : State α :=
  if n ≤ (join d time s.pending p).length then ⟨[], s.told ++ [join d time s.pending p]⟩
  else ⟨join d time s.pending p, s.told⟩

def run (l : List α) : State α := l.foldl (push n d time) ⟨[], []⟩

variable {n d time} {l : List α} {p : α}

theorem run_snoc (l : List α) (p : α) : run n d time (l ++ [p]) = push n d time (run n d time l) p := by
  unfold run
  rw [List.foldl_append]
  rfl

theorem join_suffix {m : List α} (h : l <:+ m) (p : α) : join d time l p <:+ m ++ [p] := by
  obtain ⟨pre, rfl⟩ := h
  unfold join
  split
  · exact ⟨pre ++ l, rfl⟩
  · exact ⟨pre, (List.append_assoc ..).symm⟩

theorem length_join_le (l : List α) (p : α) : (join d time l p).length ≤ l.length + 1 := by
  unfold join
  split
  · simp
  · simp

theorem join_ne_nil (l : List α) (p : α) : join d time l p ≠ [] := by
  unfold join
  simp

/-- Fewer than `n` elements are pending, and they are the newest of the stream. -/
theorem pending_run (hn : 0 < n) (l : List α) :
    (run n d time l).pending.length < n ∧ (run n d time l).pending <:+ l := by
  induction l using List.reverseRecOn with
  | nil => exact ⟨hn, List.suffix_refl _⟩
  | append_singleton l p ih =>
    rw [run_snoc]
    unfold push
    split
    · exact ⟨hn, List.nil_suffix⟩
    · rename_i h
      exact ⟨Nat.lt_of_not_le h, join_suffix ih.2 p⟩

/-- A batch has `n` elements. -/
theorem length_of_mem_told (hn : 0 < n) {b : List α} (hb : b ∈ (run n d time l).told) : b.length = n := by
  induction l using List.reverseRecOn with
  | nil => cases hb
  | append_singleton l p ih =>
    rw [run_snoc] at hb
    unfold push at hb
    split at hb
    · rename_i h
      rcases List.mem_append.mp hb with hb | hb
      · exact ih hb
      · cases List.mem_singleton.mp hb
        have hfew : (run n d time l).pending.length < n := (pending_run hn l).1
        exact Nat.le_antisymm (Nat.le_trans (length_join_le _ p) hfew) h
    · exact ih hb

/-- The batches one after another, and the pending elements after them, are part of the stream in its order:
no element is told twice. -/
theorem told_sublist (l : List α) : ((run n d time l).told.flatten ++ (run n d time l).pending).Sublist l := by
  induction l using List.reverseRecOn with
  | nil => exact List.Sublist.refl _
  | append_singleton l p ih =>
    have hjoin : ((run n d time l).told.flatten ++ join d time (run n d time l).pending p).Sublist (l ++ [p]) := by
      unfold join
      split
      · exact ((List.sublist_append_left _ _).trans ih).append (List.Sublist.refl _)
      · rw [← List.append_assoc]
        exact ih.append (List.Sublist.refl _)
    rw [run_snoc]
    unfold push
    split
    · simpa using hjoin
    · exact hjoin

end Sliding
