/-
A recursive mutex: a thread that holds it locks it again, and gives it up with as many unlocks as it has
locks. Locking is partial: where there is no result the thread waits.
-/
import Mathlib.Logic.Basic

universe u

/-- Free, or locked `again + 1` times by one thread. -/
inductive RecMutex (θ : Type u) where
  | free
  | held (holder : θ) (again : Nat)
  deriving DecidableEq, Repr

namespace RecMutex

variable {θ : Type u} [DecidableEq θ] {t u : θ} {m m' : RecMutex θ} {n : Nat}

def lock (t : θ) : RecMutex θ → Option (RecMutex θ)
  | free => some (held t 0)
  | held u n => if u = t then some (held u (n + 1)) else none

/-- A thread that does not hold it changes nothing. -/
def unlock (t : θ) : RecMutex θ → RecMutex θ
  | free => free
  | held u 0 => if u = t then free else held u 0
  | held u (n + 1) => if u = t then held u n else held u (n + 1)

@[simp] theorem lock_free (t : θ) : lock t free = some (held t 0) := rfl

@[simp] theorem lock_self (t : θ) (n : Nat) : lock t (held t n) = some (held t (n + 1)) := if_pos rfl

theorem lock_other (h : u ≠ t) (n : Nat) : lock t (held u n) = none := if_neg h

@[simp] theorem unlock_last (t : θ) : unlock t (held t 0) = free := if_pos rfl

@[simp] theorem unlock_again (t : θ) (n : Nat) : unlock t (held t (n + 1)) = held t n := if_pos rfl

/-- Who gets the mutex found it free or held it. -/
theorem lock_eq_some (h : lock t m = some m') : m = free ∧ m' = held t 0 ∨ ∃ n, m = held t n ∧ m' = held t (n + 1) := by
  cases m with
  | free =>
    cases h
    exact .inl ⟨rfl, rfl⟩
  | held u n =>
    by_cases hu : u = t
    · subst hu
      rw [lock_self] at h
      cases h
      exact .inr ⟨n, rfl, rfl⟩
    · rw [lock_other hu] at h
      cases h

/-- An unlock undoes a lock. -/
theorem unlock_of_lock (h : lock t m = some m') : unlock t m' = m := by
  rcases lock_eq_some h with ⟨rfl, rfl⟩ | ⟨n, rfl, rfl⟩
  · exact unlock_last t
  · exact unlock_again t n

end RecMutex
