/-
Decimal numbers as text: what `%d` prints, and what `strtol` with base 10 reads when it takes the whole text.
-/
import Mathlib.Data.Nat.Digits.Defs
import Mathlib.Data.Nat.Digits.Lemmas

namespace Decimal

/-- The digits of a number, the highest first. -/
def ofNat (n : Nat) : List Char := if n = 0 then ['0'] else ((Nat.digits 10 n).map Nat.digitChar).reverse

/-- `%d`. -/
def ofInt (i : Int) : List Char := if i < 0 then '-' :: ofNat i.natAbs else ofNat i.natAbs

/-- `isspace`. -/
def isSpace (c : Char) : Bool := c = ' ' || (9 ≤ c.toNat && c.toNat ≤ 13)

def value (ds : List Char) : Nat := ds.foldl (fun n c => 10 * n + (c.toNat - 48)) 0

/-- The number a text of digits stands for. -/
def readNat (ds : List Char) : Option Nat := if ds ≠ [] ∧ ds.all Char.isDigit then some (value ds) else none

/-- The bounds of a `long`. -/
def longMax : Int := 9223372036854775807

def longMin : Int := -9223372036854775808

/-- `strtol` in base 10, where `endptr` is at the end: blanks, a sign and digits, and nothing else. -/
def strtol (s : List Char) : Option Int :=
  match s.dropWhile isSpace with
  | '-' :: ds => (readNat ds).map fun n : Nat => max longMin (-(n : Int))
  | '+' :: ds => (readNat ds).map fun n : Nat => min longMax (n : Int)
  | ds => (readNat ds).map fun n : Nat => min longMax (n : Int)

theorem digitChar_spec : ∀ d, d < 10 → (Nat.digitChar d).isDigit = true ∧ (Nat.digitChar d).toNat - 48 = d := by decide

theorem all_isDigit_ofNat (n : Nat) : (ofNat n).all Char.isDigit = true := by
  unfold ofNat
  split
  · rfl
  · rw [List.all_reverse, List.all_map, List.all_eq_true]
    exact fun d hd => (digitChar_spec d (Nat.digits_lt_base (by decide) hd)).1

theorem ofNat_ne_nil (n : Nat) : ofNat n ≠ [] := by
  unfold ofNat
  split
  · simp
  · rename_i h
    simpa using Nat.digits_ne_nil_iff_ne_zero.mpr h

/-- The digits of a number stand for it. -/
theorem value_ofNat (n : Nat) : value (ofNat n) = n := by
  unfold value ofNat
  split
  · rename_i h
    rw [h]
    rfl
  · rw [List.foldl_reverse, List.foldr_map]
    have hfold : ∀ l : List Nat, (∀ d ∈ l, d < 10) →
        l.foldr (fun d n => 10 * n + ((Nat.digitChar d).toNat - 48)) 0 = Nat.ofDigits 10 l := by
      intro l
      induction l with
      | nil => intro _; rfl
      | cons d l ih =>
        intro h
        rw [List.foldr_cons, ih fun d hd => h d (List.mem_cons_of_mem _ hd), (digitChar_spec d (h d List.mem_cons_self)).2,
          Nat.ofDigits_cons]
        omega
    rw [hfold _ fun d hd => Nat.digits_lt_base (by decide) hd, Nat.ofDigits_digits]

/-- The digit a character stands for. -/
def digitOf (c : Char) : Nat := c.toNat - 48

theorem isDigit_range {c : Char} (h : c.isDigit = true) : 48 ≤ c.toNat ∧ c.toNat ≤ 57 := by
  unfold Char.isDigit at h
  simp only [ge_iff_le, Bool.and_eq_true, decide_eq_true_eq] at h
  exact ⟨h.1, h.2⟩

theorem digitChar_digitOf {c : Char} (h : c.isDigit = true) : Nat.digitChar (digitOf c) = c := by
  obtain ⟨hlo, hhi⟩ := isDigit_range h
  have hall : ∀ d, d < 10 → Nat.digitChar d = Char.ofNat (48 + d) := by decide
  unfold digitOf
  rw [hall _ (by omega), show 48 + (c.toNat - 48) = c.toNat by omega, Char.ofNat_toNat]

theorem value_eq_ofDigits (ds : List Char) : value ds = Nat.ofDigits 10 (ds.map digitOf).reverse := by
  induction ds using List.reverseRecOn with
  | nil => rfl
  | append_singleton ds c ih =>
    rw [List.map_append, List.map_singleton, List.reverse_append, List.reverse_singleton, List.singleton_append,
      Nat.ofDigits_cons, ← ih]
    unfold value digitOf
    rw [List.foldl_append, List.foldl_cons, List.foldl_nil]
    omega

/-- A text of digits without a leading zero is how its number is printed. -/
theorem ofNat_value {ds : List Char} (hne : ds ≠ []) (hd : ds.all Char.isDigit = true)
    (h0 : ds.length = 1 ∨ ds.head? ≠ some '0') : ofNat (value ds) = ds := by
  obtain ⟨c, l, rfl⟩ := List.exists_cons_of_ne_nil hne
  rw [List.all_eq_true] at hd
  have hc := hd c List.mem_cons_self
  have hlt : ∀ d ∈ ((c :: l).map digitOf).reverse, d < 10 := by
    intro d hd'
    rw [List.mem_reverse, List.mem_map] at hd'
    obtain ⟨x, hx, rfl⟩ := hd'
    have := isDigit_range (hd x hx)
    unfold digitOf
    omega
  have hback : ((c :: l).map digitOf).map Nat.digitChar = c :: l := by
    rw [List.map_map]
    refine (List.map_congr_left fun x hx => ?_).trans (List.map_id _)
    exact digitChar_digitOf (hd x hx)
  by_cases hz : digitOf c = 0
  · -- only the number zero begins with it
    have hzero : c = '0' := by
      have := digitChar_digitOf hc
      rw [hz] at this
      exact this.symm
    subst hzero
    rcases h0 with h0 | h0
    · rw [List.length_eq_one_iff] at h0
      obtain ⟨x, hx⟩ := h0
      rw [hx]
      cases (List.cons.inj hx).1
      rfl
    · exact absurd rfl h0
  · have hlast : ∀ h : ((c :: l).map digitOf).reverse ≠ [], (((c :: l).map digitOf).reverse).getLast h ≠ 0 := by
      intro h
      rw [List.getLast_reverse]
      exact hz
    have hdigits := Nat.digits_ofDigits 10 (by decide) _ hlt hlast
    rw [← value_eq_ofDigits] at hdigits
    unfold ofNat
    split
    · rename_i hv
      rw [hv, Nat.digits_zero] at hdigits
      simp at hdigits
    · rw [hdigits, List.map_reverse, hback, List.reverse_reverse]

theorem readNat_ofNat (n : Nat) : readNat (ofNat n) = some n := by
  unfold readNat
  rw [if_pos ⟨ofNat_ne_nil n, all_isDigit_ofNat n⟩, value_ofNat]

/-- A text of digits begins with none of the characters `strtol` passes over. -/
theorem head_ofNat (n : Nat) : ∃ c l, ofNat n = c :: l ∧ c.isDigit = true := by
  cases h : ofNat n with
  | nil => exact absurd h (ofNat_ne_nil n)
  | cons c l =>
    have := all_isDigit_ofNat n
    rw [h, List.all_cons, Bool.and_eq_true] at this
    exact ⟨c, l, rfl, this.1⟩

theorem isSpace_of_isDigit {c : Char} (h : c.isDigit = true) : isSpace c = false ∧ c ≠ '-' ∧ c ≠ '+' := by
  unfold Char.isDigit at h
  simp only [ge_iff_le, Bool.and_eq_true, decide_eq_true_eq] at h
  have h₁ : 48 ≤ c.toNat := h.1
  refine ⟨?_, ?_, ?_⟩
  · unfold isSpace
    have : c ≠ ' ' := by
      rintro rfl
      exact absurd h₁ (by decide)
    simp [this]
    omega
  · rintro rfl
    exact absurd h₁ (by decide)
  · rintro rfl
    exact absurd h₁ (by decide)

/-- What `%d` prints, `strtol` reads. -/
theorem strtol_ofInt {i : Int} (h₀ : longMin ≤ i) (h₁ : i ≤ longMax) : strtol (ofInt i) = some i := by
  unfold strtol ofInt
  by_cases hneg : i < 0
  · have hd : ('-' :: ofNat i.natAbs).dropWhile isSpace = '-' :: ofNat i.natAbs := rfl
    rw [if_pos hneg, hd]
    simp only [readNat_ofNat, Option.map_some]
    congr 1
    omega
  · obtain ⟨c, l, hcl, hc⟩ := head_ofNat i.natAbs
    obtain ⟨hs, hm, hp⟩ := isSpace_of_isDigit hc
    have hd : (ofNat i.natAbs).dropWhile isSpace = ofNat i.natAbs := by
      rw [hcl, List.dropWhile_cons_of_neg (by simp [hs])]
    have hread := readNat_ofNat i.natAbs
    rw [if_neg hneg, hd]
    split
    · rename_i heq
      exact absurd (List.cons.inj (hcl.symm.trans heq)).1 hm
    · rename_i heq
      exact absurd (List.cons.inj (hcl.symm.trans heq)).1 hp
    · rw [hread]
      simp only [Option.map_some]
      congr 1
      omega

end Decimal
