/-
Numbers of a bounded width, as `sscanf` reads them with `%4d%2d` and the like: blanks are passed over, then a sign and
digits are taken, no more than the width. Where a text has neither blanks nor signs, fields that take as many characters
as their widths allow are digits throughout.
-/
import Mathlib.Data.List.TakeWhile
import TinyIoT.Lib.Decimal

namespace Scan

/-- A sign. -/
def isSign (c : Char) : Bool := c = '+' || c = '-'

/-- Digits, at most `w` of them, and at least one; what follows them. -/
def digits (w : Nat) (s : List Char) : Option (List Char) :=
  if ((s.take w).takeWhile Char.isDigit).isEmpty then none else some (s.drop ((s.take w).takeWhile Char.isDigit).length)

/-- `%wd`, with the text behind the number. -/
def field (w : Nat) (s : List Char) : Option (List Char) :=
  match s.dropWhile Decimal.isSpace with
  | [] => none
  | c :: t => if isSign c then digits (w - 1) t else digits w (c :: t)

/-- One field after another. -/
def fields : List Nat → List Char → Option (List Char)
  | [], s => some s
  | w :: ws, s => (field w s).bind (fields ws)

/-- Neither a blank nor a sign. -/
def Plain (s : List Char) : Prop := ∀ c ∈ s, Decimal.isSpace c = false ∧ isSign c = false

variable {w : Nat} {ws : List Nat} {s r p ds : List Char}

theorem plain_of_isDigit {c : Char} (h : c.isDigit = true) : Decimal.isSpace c = false ∧ isSign c = false := by
  obtain ⟨h₀, h₁⟩ := Decimal.isDigit_range h
  have hne : ∀ x : Char, x.toNat < 48 → c ≠ x := by
    rintro x hx rfl
    omega
  refine ⟨?_, ?_⟩
  · unfold Decimal.isSpace
    simp only [Bool.or_eq_false_iff, Bool.and_eq_false_iff, decide_eq_false_iff_not]
    exact ⟨hne ' ' (by decide), by omega⟩
  · unfold isSign
    simp only [Bool.or_eq_false_iff, decide_eq_false_iff_not]
    exact ⟨hne '+' (by decide), hne '-' (by decide)⟩

theorem digits_split (h : digits w s = some r) :
    ∃ p, s = p ++ r ∧ p.length ≤ w ∧ ∀ c ∈ p, c.isDigit = true := by
  unfold digits at h
  split at h
  · cases h
  · cases h
    have htake : (s.take w).takeWhile Char.isDigit <+: s :=
      (List.takeWhile_prefix _).trans (List.take_prefix _ _)
    obtain ⟨t, ht⟩ := htake
    refine ⟨(s.take w).takeWhile Char.isDigit, ?_, ?_, fun c hc => List.mem_takeWhile_imp hc⟩
    · conv_lhs => rw [← ht]
      rw [List.append_cancel_left_eq]
      have := congrArg (List.drop ((s.take w).takeWhile Char.isDigit).length) ht
      rwa [List.drop_left] at this
    · exact (List.takeWhile_prefix _).length_le.trans (List.length_take_le _ _)

/-- What a field takes of a text; without blanks and signs it is digits, as many as the width at most. -/
theorem field_split (h : field w s = some r) :
    ∃ p, s = p ++ r ∧ (Plain p → p.length ≤ w ∧ ∀ c ∈ p, c.isDigit = true) := by
  have hs := List.takeWhile_append_dropWhile (p := Decimal.isSpace) (l := s)
  unfold field at h
  split at h
  · cases h
  · rename_i c t hd
    rw [hd] at hs
    split at h
    · rename_i hsign
      obtain ⟨p, rfl, -, -⟩ := digits_split h
      refine ⟨s.takeWhile Decimal.isSpace ++ c :: p, ?_, fun hplain => ?_⟩
      · conv_lhs => rw [← hs]
        simp
      · -- a sign was taken
        have := (hplain c (by simp)).2
        rw [hsign] at this
        cases this
    · obtain ⟨p, hp, hlen, hdigits⟩ := digits_split h
      refine ⟨s.takeWhile Decimal.isSpace ++ p, ?_, fun hplain => ?_⟩
      · conv_lhs => rw [← hs]
        rw [hp, List.append_assoc]
      · have hnil : s.takeWhile Decimal.isSpace = [] := by
          cases hw : s.takeWhile Decimal.isSpace with
          | nil => rfl
          | cons x l =>
            have hx : Decimal.isSpace x = true :=
              List.mem_takeWhile_imp (p := Decimal.isSpace) (l := s) (by rw [hw]; exact List.mem_cons_self)
            have := (hplain x (by rw [hw]; simp)).1
            rw [hx] at this
            cases this
        rw [hnil, List.nil_append]
        exact ⟨hlen, hdigits⟩

theorem fields_split (h : fields ws s = some r) :
    ∃ p, s = p ++ r ∧ (Plain p → p.length ≤ ws.sum ∧ ∀ c ∈ p, c.isDigit = true) := by
  induction ws generalizing s with
  | nil =>
    cases h
    exact ⟨[], rfl, fun _ => ⟨Nat.le_refl _, by simp⟩⟩
  | cons w ws ih =>
    obtain ⟨t, ht, hr⟩ := Option.bind_eq_some_iff.mp h
    obtain ⟨p, rfl, hp⟩ := field_split ht
    obtain ⟨q, rfl, hq⟩ := ih hr
    refine ⟨p ++ q, (List.append_assoc _ _ _).symm, fun hplain => ?_⟩
    obtain ⟨hpl, hpd⟩ := hp fun c hc => hplain c (List.mem_append_left _ hc)
    obtain ⟨hql, hqd⟩ := hq fun c hc => hplain c (List.mem_append_right _ hc)
    refine ⟨?_, fun c hc => ?_⟩
    · rw [List.length_append, List.sum_cons]
      omega
    · rcases List.mem_append.mp hc with hc | hc
      · exact hpd c hc
      · exact hqd c hc

/-- A field takes the digits of its width. -/
theorem field_digits (hw : ds.length = w) (hpos : 0 < w) (hd : ∀ c ∈ ds, c.isDigit = true) (s : List Char) :
    field w (ds ++ s) = some s := by
  obtain ⟨c, l, rfl⟩ := List.exists_cons_of_length_pos (hw ▸ hpos)
  obtain ⟨hspace, hsign⟩ := plain_of_isDigit (hd c List.mem_cons_self)
  have htake : ((c :: l ++ s).take w).takeWhile Char.isDigit = c :: l := by
    rw [← hw, List.take_left]
    exact List.takeWhile_eq_self_iff.mpr hd
  unfold field
  rw [List.cons_append, List.dropWhile_cons_of_neg (by simp [hspace])]
  dsimp only
  rw [if_neg (by simp [hsign])]
  unfold digits
  rw [List.cons_append] at htake
  rw [htake, if_neg (by simp), ← List.cons_append, List.drop_left]

theorem fields_digits (hlen : ds.length = ws.sum) (hpos : ∀ w ∈ ws, 0 < w) (hd : ∀ c ∈ ds, c.isDigit = true)
    (s : List Char) : fields ws (ds ++ s) = some s := by
  induction ws generalizing ds with
  | nil =>
    rw [List.eq_nil_of_length_eq_zero hlen]
    rfl
  | cons w ws ih =>
    rw [List.sum_cons] at hlen
    have hw : (ds.take w).length = w := by
      rw [List.length_take]
      omega
    have hrest : (ds.drop w).length = ws.sum := by
      rw [List.length_drop]
      omega
    have hsplit : ds ++ s = ds.take w ++ (ds.drop w ++ s) := by
      rw [← List.append_assoc, List.take_append_drop]
    rw [fields, hsplit, field_digits hw (hpos w List.mem_cons_self) (fun c hc => hd c (List.mem_of_mem_take hc)),
      Option.bind_some]
    exact ih hrest (fun w hw => hpos w (List.mem_cons_of_mem _ hw)) fun c hc => hd c (List.mem_of_mem_drop hc)

/-! ## Numbers -/

/-- The number that a field has: blanks, a sign and digits. -/
def value (t : List Char) : Int :=
  match t.dropWhile Decimal.isSpace with
  | '-' :: ds => -(Decimal.value ds : Int)
  | '+' :: ds => Decimal.value ds
  | ds => Decimal.value ds

/-- A field with its number. -/
def number (w : Nat) (s : List Char) : Option (Int × List Char) :=
  (field w s).map fun rest => (value (s.take (s.length - rest.length)), rest)

/-- `%0wd` for a number that is not negative. -/
def fill (w n : Nat) : List Char := List.replicate (w - (Decimal.ofNat n).length) '0' ++ Decimal.ofNat n

/-- `%0wd`. -/
def zeroPadded (w : Nat) (i : Int) : List Char := if i < 0 then '-' :: fill (w - 1) i.natAbs else fill w i.natAbs

theorem value_digits (hd : ∀ c ∈ ds, c.isDigit = true) : value ds = Decimal.value ds := by
  cases ds with
  | nil => rfl
  | cons c l =>
    obtain ⟨hspace, hsign⟩ := plain_of_isDigit (hd c List.mem_cons_self)
    unfold isSign at hsign
    simp only [Bool.or_eq_false_iff, decide_eq_false_iff_not] at hsign
    unfold value
    rw [List.dropWhile_cons_of_neg (by simp [hspace])]
    split
    · rename_i h
      exact absurd (List.cons.inj h).1 hsign.2
    · rename_i h
      exact absurd (List.cons.inj h).1 hsign.1
    · rfl

/-- A field of digits is read with its number. -/
theorem number_digits (hw : ds.length = w) (hpos : 0 < w) (hd : ∀ c ∈ ds, c.isDigit = true) (s : List Char) :
    number w (ds ++ s) = some ((Decimal.value ds : Int), s) := by
  unfold number
  rw [field_digits hw hpos hd, Option.map_some, List.length_append, Nat.add_sub_cancel, List.take_left, value_digits hd]

theorem isDigit_fill (w n : Nat) : ∀ c ∈ fill w n, c.isDigit = true := by
  intro c hc
  rcases List.mem_append.mp hc with hc | hc
  · rw [List.eq_of_mem_replicate hc]
    rfl
  · exact List.all_eq_true.mp (Decimal.all_isDigit_ofNat n) c hc

theorem value_zeros (k : Nat) (ds : List Char) : Decimal.value (List.replicate k '0' ++ ds) = Decimal.value ds := by
  induction k with
  | zero => rfl
  | succ k ih => exact ih

theorem value_fill (w n : Nat) : Decimal.value (fill w n) = n := by
  unfold fill
  rw [value_zeros, Decimal.value_ofNat]

/-- Digits are less than the power of their number. -/
theorem value_lt (hd : ∀ c ∈ ds, c.isDigit = true) : Decimal.value ds < 10 ^ ds.length := by
  rw [Decimal.value_eq_ofDigits]
  have hlt : ∀ d ∈ (ds.map Decimal.digitOf).reverse, d < 10 := by
    intro d hm
    rw [List.mem_reverse, List.mem_map] at hm
    obtain ⟨c, hc, rfl⟩ := hm
    have := Decimal.isDigit_range (hd c hc)
    unfold Decimal.digitOf
    omega
  have := Nat.ofDigits_lt_base_pow_length (by decide) hlt
  rwa [List.length_reverse, List.length_map] at this

theorem length_ofNat_le {w n : Nat} (hpos : 0 < w) (h : n < 10 ^ w) : (Decimal.ofNat n).length ≤ w := by
  unfold Decimal.ofNat
  split
  · exact hpos
  · rw [List.length_reverse, List.length_map]
    exact (Nat.digits_length_le_iff (by decide) n).mpr h

theorem length_fill {w n : Nat} (hpos : 0 < w) (h : n < 10 ^ w) : (fill w n).length = w := by
  have := length_ofNat_le hpos h
  unfold fill
  rw [List.length_append, List.length_replicate]
  omega

theorem natAbs_lt_pow {i : Int} (h₀ : 0 ≤ i) (h₁ : i < 10 ^ w) : i.natAbs < 10 ^ w := by
  have : ((i.natAbs : Nat) : Int) < ((10 ^ w : Nat) : Int) := by
    push_cast
    rw [abs_of_nonneg h₀]
    exact h₁
  exact Int.ofNat_lt.mp this

/-- What is printed with its width is read back. -/
theorem number_zeroPadded {i : Int} (hpos : 0 < w) (h₀ : 0 ≤ i) (h₁ : i < 10 ^ w) (s : List Char) :
    number w (zeroPadded w i ++ s) = some (i, s) := by
  have hlt := natAbs_lt_pow h₀ h₁
  unfold zeroPadded
  rw [if_neg (by omega), number_digits (length_fill hpos hlt) hpos (isDigit_fill _ _), value_fill,
    Int.natAbs_of_nonneg h₀]

theorem length_zeroPadded {i : Int} (hpos : 0 < w) (h₀ : 0 ≤ i) (h₁ : i < 10 ^ w) : (zeroPadded w i).length = w := by
  have hlt := natAbs_lt_pow h₀ h₁
  unfold zeroPadded
  rw [if_neg (by omega), length_fill hpos hlt]

end Scan
