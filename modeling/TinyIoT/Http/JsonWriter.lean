/-
`cJSON_Print` and `cJSON_PrintUnformatted`, and that `cJSON_Parse` takes back what they print: strings whatever they
contain, numbers that are an `int`, any nesting. The text of a number is `%d`; a number with a fraction is not printed
here.
-/
import TinyIoT.Http.JsonReader
import TinyIoT.Http.Payload
import TinyIoT.Lib.Decimal

namespace TinyIoT

open JsonText (Value)

/-! ## Printing -/

/-- `%x` of one digit. -/
def hexDigit (n : Nat) : Char := if n < 10 then Char.ofNat (48 + n) else Char.ofNat (87 + n)

/-- One character in `print_string_ptr`. -/
def escapeChar (c : Char) : CStr :=
  if 31 < c.toNat ∧ c ≠ '"' ∧ c ≠ '\\' then [c]
  else if c = '\\' then ['\\', '\\']
  else if c = '"' then ['\\', '"']
  else if c = Char.ofNat 8 then ['\\', 'b']
  else if c = Char.ofNat 12 then ['\\', 'f']
  else if c = '\n' then ['\\', 'n']
  else if c = '\r' then ['\\', 'r']
  else if c = '\t' then ['\\', 't']
  else ['\\', 'u', hexDigit (c.toNat / 4096), hexDigit (c.toNat / 256 % 16), hexDigit (c.toNat / 16 % 16),
    hexDigit (c.toNat % 16)]

/-- `print_string_ptr`. -/
def printString (s : CStr) : CStr := '"' :: (s.flatMap escapeChar ++ ['"'])

/-- What is printed only where the text is formatted. -/
def layout (format : Bool) (s : CStr) : CStr := if format then s else []

mutual

/-- `print_value` at this depth. -/
def printValue (format : Bool) : Nat → Value → CStr
  | _, .word w => w
  | _, .str s => printString s
  | depth, .arr l => '[' :: (printElements format (depth + 1) l ++ [']'])
  | depth, .obj ms =>
    '{' :: (layout format ['\n'] ++ printMembers format (depth + 1) ms ++ layout format (List.replicate depth '\t') ++
      ['}'])
termination_by structural _ v => v

/-- The loop of `print_array`. -/
def printElements (format : Bool) : Nat → List Value → CStr
  | _, [] => []
  | depth, v :: l =>
    printValue format depth v ++ (if l.isEmpty then [] else ',' :: layout format [' ']) ++ printElements format depth l
termination_by structural _ l => l

/-- The loop of `print_object`. -/
def printMembers (format : Bool) : Nat → List (CStr × Value) → CStr
  | _, [] => []
  | depth, (k, v) :: ms =>
    layout format (List.replicate depth '\t') ++ printString k ++ ':' :: layout format ['\t'] ++
      printValue format depth v ++
      (if ms.isEmpty then [] else [',']) ++ layout format ['\n'] ++ printMembers format depth ms
termination_by structural _ ms => ms

end

/-- `cJSON_Print`. -/
def cjsonPrint (v : Value) : CStr := printValue true 0 v

/-- `cJSON_PrintUnformatted`. -/
def cjsonPrintUnformatted (v : Value) : CStr := printValue false 0 v

/-- The text of a word that is printed: `null`, a boolean or an `int`. -/
def PrintedWord (w : CStr) : Prop :=
  w = "null".toList ∨ w = "false".toList ∨ w = "true".toList ∨ ∃ n, intMin ≤ n ∧ n ≤ intMax ∧ w = Decimal.ofInt n

mutual

/-- Strings without a NUL, and words as they are printed. -/
def Printed : Value → Prop
  | .word w => PrintedWord w
  | .str s => Char.ofNat 0 ∉ s
  | .arr l => PrintedElements l
  | .obj ms => PrintedMembers ms
termination_by structural v => v

def PrintedElements : List Value → Prop
  | [] => True
  | v :: l => Printed v ∧ PrintedElements l
termination_by structural l => l

def PrintedMembers : List (CStr × Value) → Prop
  | [] => True
  | (k, v) :: ms => Char.ofNat 0 ∉ k ∧ Printed v ∧ PrintedMembers ms
termination_by structural ms => ms

end

/-! ## Strings -/

theorem splitString_cons {c : Char} (hquote : c ≠ '"') (hslash : c ≠ '\\') (s : CStr) :
    splitString (c :: s) = (splitString s).map fun r => (c :: r.1, r.2) := by
  rw [splitString.eq_4 c _ hquote (by rintro d s' rfl; exact absurd rfl hslash), if_neg hslash]

/-- A character is copied, gets a letter behind a backslash, or is written with four digits. -/
theorem escapeChar_cases (c : Char) : (31 < c.toNat ∧ c ≠ '"' ∧ c ≠ '\\' ∧ escapeChar c = [c]) ∨
    (∃ x, x ≠ 'u' ∧ simpleEscape x = some c ∧ escapeChar c = ['\\', x]) ∨
    (c.toNat < 32 ∧ escapeChar c = ['\\', 'u', hexDigit (c.toNat / 4096), hexDigit (c.toNat / 256 % 16),
      hexDigit (c.toNat / 16 % 16), hexDigit (c.toNat % 16)]) := by
  unfold escapeChar
  split
  · rename_i h
    exact .inl ⟨h.1, h.2.1, h.2.2, rfl⟩
  · rename_i hlow
    by_cases h1 : c = '\\'
    · exact .inr (.inl ⟨'\\', by decide, by rw [h1]; rfl, by rw [if_pos h1]⟩)
    by_cases h2 : c = '"'
    · exact .inr (.inl ⟨'"', by decide, by rw [h2]; rfl, by rw [if_neg h1, if_pos h2]⟩)
    have hctl : c.toNat < 32 := by
      by_contra hc
      exact hlow ⟨by omega, h2, h1⟩
    by_cases h3 : c = Char.ofNat 8
    · exact .inr (.inl ⟨'b', by decide, by rw [h3]; rfl, by rw [if_neg h1, if_neg h2, if_pos h3]⟩)
    by_cases h4 : c = Char.ofNat 12
    · exact .inr (.inl ⟨'f', by decide, by rw [h4]; rfl, by rw [if_neg h1, if_neg h2, if_neg h3, if_pos h4]⟩)
    by_cases h5 : c = '\n'
    · exact .inr (.inl ⟨'n', by decide, by rw [h5]; rfl, by rw [if_neg h1, if_neg h2, if_neg h3, if_neg h4, if_pos h5]⟩)
    by_cases h6 : c = '\r'
    · exact .inr (.inl ⟨'r', by decide, by rw [h6]; rfl,
        by rw [if_neg h1, if_neg h2, if_neg h3, if_neg h4, if_neg h5, if_pos h6]⟩)
    by_cases h7 : c = '\t'
    · exact .inr (.inl ⟨'t', by decide, by rw [h7]; rfl,
        by rw [if_neg h1, if_neg h2, if_neg h3, if_neg h4, if_neg h5, if_neg h6, if_pos h7]⟩)
    refine .inr (.inr ⟨hctl, ?_⟩)
    rw [if_neg h1, if_neg h2, if_neg h3, if_neg h4, if_neg h5, if_neg h6, if_neg h7]

theorem hexDigit_spec : ∀ n < 16, hexDigit n ≠ '"' ∧ hexDigit n ≠ '\\' ∧ hexNibble (hexDigit n) = some n := by decide

/-- Four digits stand for the number they were written for. -/
theorem parseHex4_hexDigit {n : Nat} (h : n < 65536) (s : CStr) :
    parseHex4 (hexDigit (n / 4096) :: hexDigit (n / 256 % 16) ::
    hexDigit (n / 16 % 16) :: hexDigit (n % 16) :: s) = n := by
  unfold parseHex4
  have h1 := (hexDigit_spec (n / 4096) (by omega)).2.2
  have h2 := (hexDigit_spec (n / 256 % 16) (by omega)).2.2
  have h3 := (hexDigit_spec (n / 16 % 16) (by omega)).2.2
  have h4 := (hexDigit_spec (n % 16) (by omega)).2.2
  simp only [List.take_succ_cons, List.take_zero, List.mapM_cons, List.mapM_nil, h1, h2, h3, h4, Option.bind_eq_bind,
    Option.bind_some, Option.pure_def, Option.elim_some, List.foldl_cons, List.foldl_nil]
  omega

/-- The escape sequence of a character is passed over as a whole. -/
theorem splitString_escapeChar (c : Char) (s : CStr) :
    splitString (escapeChar c ++ s) = (splitString s).map fun r => (escapeChar c ++ r.1, r.2) := by
  have hpair : ∀ (x : Char) (s : CStr), splitString ('\\' :: x :: s) =
    (splitString s).map fun r => ('\\' :: x :: r.1, r.2) :=
    fun _ _ => rfl
  rcases escapeChar_cases c with ⟨-, hquote, hslash, h⟩ | ⟨x, -, -, h⟩ | ⟨hlow, h⟩
  · rw [h]
    exact splitString_cons hquote hslash s
  · rw [h]
    exact hpair x s
  · rw [h]
    have hdigit : ∀ n < 16, ∀ s, splitString (hexDigit n :: s) = (splitString s).map fun r => (hexDigit n :: r.1, r.2) :=
      fun n hn s => splitString_cons (hexDigit_spec n hn).1 (hexDigit_spec n hn).2.1 s
    simp only [List.cons_append, List.nil_append]
    rw [hpair, hdigit _ (by omega), hdigit _ (by omega), hdigit _ (by omega), hdigit _ (by omega)]
    simp only [Option.map_map]
    rfl

theorem splitString_printed (s t : CStr) : splitString (s.flatMap escapeChar ++ '"' :: t) =
    some (s.flatMap escapeChar, t) := by
  induction s with
  | nil => rfl
  | cons c s ih =>
    rw [List.flatMap_cons, List.append_assoc, splitString_escapeChar, ih]
    rfl

/-- The escape sequence of a character stands for it. -/
theorem unescapeString_escapeChar (turns : Nat) (c : Char) (s : CStr) :
    unescapeString (turns + 1) (escapeChar c ++ s) = (unescapeString turns s).map (c :: ·) := by
  rcases escapeChar_cases c with ⟨-, hquote, hslash, h⟩ | ⟨x, hu, hx, h⟩ | ⟨hlow, h⟩
  · rw [h, List.singleton_append, unescapeString, if_pos hslash]
  · rw [h, List.cons_append, List.singleton_append, unescapeString, if_neg (by decide), List.head?_cons,
      if_neg (by simpa using hu), Option.bind_some, hx]
    rfl
  · rw [h]
    simp only [List.cons_append, List.nil_append]
    rw [unescapeString, if_neg (by decide), List.head?_cons, if_pos rfl]
    have hcode : utf16Literal ('\\' :: 'u' :: hexDigit (c.toNat / 4096) :: hexDigit (c.toNat / 256 % 16) ::
        hexDigit (c.toNat / 16 % 16) :: hexDigit (c.toNat % 16) :: s) = some ([c], 6) := by
      unfold utf16Literal
      rw [show List.drop 2 ('\\' :: 'u' :: hexDigit (c.toNat / 4096) :: hexDigit (c.toNat / 256 % 16) ::
        hexDigit (c.toNat / 16 % 16) :: hexDigit (c.toNat % 16) :: s) = hexDigit (c.toNat / 4096) ::
          hexDigit (c.toNat / 256 % 16) :: hexDigit (c.toNat / 16 % 16) :: hexDigit (c.toNat % 16) :: s from rfl,
        parseHex4_hexDigit (by omega)]
      rw [if_neg (by simp only [List.length_cons]; omega), if_neg (by omega)]
      unfold utf8Bytes
      rw [if_pos (by omega), Char.ofNat_toNat]
    rw [hcode]
    rfl

theorem unescapeString_printed {turns : Nat} {s : CStr} (hs : Char.ofNat 0 ∉ s) (hn : s.length < turns) :
    unescapeString turns (s.flatMap escapeChar) = some s := by
  induction s generalizing turns with
  | nil =>
    obtain ⟨n, rfl⟩ : ∃ n, turns = n + 1 := ⟨turns - 1, by simp only [List.length_nil] at hn; omega⟩
    rfl
  | cons c s ih =>
    obtain ⟨n, rfl⟩ : ∃ n, turns = n + 1 := ⟨turns - 1, by omega⟩
    rw [List.mem_cons, not_or] at hs
    rw [List.flatMap_cons, unescapeString_escapeChar,
      ih hs.2 (by simp only [List.length_cons] at hn; omega)]
    rfl

theorem one_le_length_escapeChar (c : Char) : 1 ≤ (escapeChar c).length := by
  rcases escapeChar_cases c with ⟨-, -, -, h⟩ | ⟨x, -, -, h⟩ | ⟨-, h⟩ <;> rw [h] <;> simp

theorem length_le_flatMap_escapeChar (s : CStr) : s.length ≤ (s.flatMap escapeChar).length := by
  induction s with
  | nil => exact Nat.zero_le _
  | cons c s ih =>
    have := one_le_length_escapeChar c
    rw [List.flatMap_cons, List.length_append, List.length_cons]
    omega

/-- A string is read as it was printed. -/
theorem cjsonParseString_printString {s : CStr} (hs : Char.ofNat 0 ∉ s) (t : CStr) :
    cjsonParseString (printString s ++ t) = some (s, t) := by
  have hcut : cutNul s = s := List.takeWhile_eq_self_iff.mpr fun c hc => decide_eq_true (ne_of_mem_of_not_mem hc hs)
  have hlen := length_le_flatMap_escapeChar s
  show cjsonParseString ('"' :: (s.flatMap escapeChar ++ ['"'] ++ t)) = _
  rw [cjsonParseString, List.append_assoc, List.singleton_append, splitString_printed, Option.bind_some,
    unescapeString_printed hs (Nat.lt_succ_of_le hlen), Option.map_some, hcut]

/-! ## Words -/

/-- What follows a value does not go on with a number. -/
def EndsNumber (t : CStr) : Prop := ∀ c ∈ t.head?, isNumberChar c = false

theorem isNumberChar_of_isDigit {c : Char} (h : c.isDigit = true) : isNumberChar c = true := by
  unfold isNumberChar
  rw [h]
  rfl

theorem takeWhile_append_of_ends {p : Char → Bool} {w t : CStr} (hw : ∀ c ∈ w, p c = true)
    (ht : ∀ c ∈ t.head?, p c = false) :
    (w ++ t).takeWhile p = w := by
  induction w with
  | nil =>
    cases t with
    | nil => rfl
    | cons c t => exact List.takeWhile_cons_of_neg (by rw [ht c rfl]; decide)
  | cons c w ih =>
    rw [List.cons_append, List.takeWhile_cons_of_pos (hw c List.mem_cons_self),
      ih fun c hc => hw c (List.mem_cons_of_mem _ hc)]

/-- `strtod` takes digits as a whole. -/
theorem takeNumber_digits (sign : CStr) {ds : CStr} (hds : ∀ c ∈ ds, c.isDigit = true) (hne : ds ≠ [])
    (hsign : takeSign (sign ++ ds) = sign) : takeNumber (sign ++ ds) = some (sign ++ ds) := by
  have hwhole : ds.takeWhile Char.isDigit = ds := List.takeWhile_eq_self_iff.mpr hds
  unfold takeNumber
  dsimp only
  rw [hsign, List.drop_left, hwhole]
  have hbehind : (sign ++ ds).drop (sign.length + ds.length) = [] := by
    rw [← List.length_append, List.drop_length]
  simp only [hbehind, List.head?_nil, reduceCtorEq, if_false, hne, false_and, List.append_nil, List.drop_nil,
    List.tail_nil, false_or]

theorem ofNat_digits (n : Nat) : ∀ c ∈ Decimal.ofNat n, c.isDigit = true :=
  List.all_eq_true.mp (Decimal.all_isDigit_ofNat n)

theorem takeSign_digits {ds : CStr} (hds : ∀ c ∈ ds, c.isDigit = true) : takeSign ds = [] := by
  cases ds with
  | nil => rfl
  | cons c ds =>
    obtain ⟨-, hminus, hplus⟩ := Decimal.isSpace_of_isDigit (hds c List.mem_cons_self)
    simp [takeSign, hplus, hminus]

/-- A number is taken as a whole. -/
theorem takeNumber_ofInt (n : Int) : takeNumber (Decimal.ofInt n) = some (Decimal.ofInt n) := by
  have hds := ofNat_digits n.natAbs
  have hne := Decimal.ofNat_ne_nil n.natAbs
  unfold Decimal.ofInt
  generalize Decimal.ofNat n.natAbs = ds at hds hne
  split
  · exact takeNumber_digits ['-'] hds hne rfl
  · exact takeNumber_digits [] hds hne (takeSign_digits hds)

/-- The digits of an `int`. -/
theorem length_ofInt_le {n : Int} (h₁ : intMin ≤ n) (h₂ : n ≤ intMax) : (Decimal.ofInt n).length ≤ 11 := by
  unfold intMin at h₁
  unfold intMax at h₂
  have hlen : (Decimal.ofNat n.natAbs).length ≤ 10 := by
    unfold Decimal.ofNat
    split
    · decide
    · rw [List.length_reverse, List.length_map, Nat.digits_length_le_iff (by decide)]
      omega
  unfold Decimal.ofInt
  split
  · rw [List.length_cons]
    omega
  · omega

theorem ofInt_chars (n : Int) : ∀ c ∈ Decimal.ofInt n, isNumberChar c = true := by
  intro c hc
  unfold Decimal.ofInt at hc
  split at hc
  · rcases List.mem_cons.mp hc with rfl | hc
    · rfl
    · exact isNumberChar_of_isDigit (ofNat_digits _ c hc)
  · exact isNumberChar_of_isDigit (ofNat_digits _ c hc)

theorem cjsonParseNumber_ofInt {n : Int} (h₁ : intMin ≤ n) (h₂ : n ≤ intMax) {t : CStr} (ht : EndsNumber t) :
    cjsonParseNumber (Decimal.ofInt n ++ t) = some (.word (Decimal.ofInt n), t) := by
  have hlen := length_ofInt_le h₁ h₂
  unfold cjsonParseNumber
  rw [takeWhile_append_of_ends (ofInt_chars n) ht, List.take_of_length_le (by omega), takeNumber_ofInt, Option.map_some,
    List.drop_left]

theorem head_ofInt (n : Int) : ∃ c l, Decimal.ofInt n = c :: l ∧ (c = '-' ∨ c.isDigit = true) := by
  unfold Decimal.ofInt
  split
  · exact ⟨'-', _, rfl, .inl rfl⟩
  · obtain ⟨c, l, h, hc⟩ := Decimal.head_ofNat n.natAbs
    exact ⟨c, l, h, .inr hc⟩

/-- A word is read as it was printed. -/
theorem cjsonParseValue_word {w : CStr} (hw : PrintedWord w) {turns nest : Nat} {t : CStr} (ht : EndsNumber t) :
    cjsonParseValue (turns + 1) nest (w ++ t) = some (.word w, t) := by
  rw [cjsonParseValue.eq_def]
  dsimp only
  rcases hw with rfl | rfl | rfl | ⟨n, h₁, h₂, rfl⟩
  · rfl
  · rfl
  · rfl
  · obtain ⟨c, l, h, hc⟩ := head_ofInt n
    have hnone : leadingWord (Decimal.ofInt n ++ t) = none := by
      rw [h, List.cons_append]
      have hne : ∀ x ∈ ['n', 'f', 't'], x ≠ c := by
        rintro x hx rfl
        simp only [List.mem_cons, List.not_mem_nil, or_false] at hx
        rcases hx with rfl | rfl | rfl <;> exact absurd hc (by decide)
      have h1 := hne 'n' (by simp)
      have h2 := hne 'f' (by simp)
      have h3 := hne 't' (by simp)
      unfold leadingWord
      simp [List.isPrefixOf, h1, h2, h3]
    rw [hnone]
    have hnumber := cjsonParseNumber_ofInt h₁ h₂ ht
    rw [h, List.cons_append] at hnumber ⊢
    dsimp only
    split
    · rename_i heq
      cases heq
      exact absurd hc (by decide)
    · rename_i heq
      cases heq
      exact absurd hc (by decide)
    · rename_i heq
      cases heq
      exact absurd hc (by decide)
    · rename_i heq
      cases heq
      rw [if_pos hc, hnumber]
    · rename_i heq
      cases heq

/-! ## Values -/

theorem skipWhitespace_layout {format : Bool} {b s : CStr} (hb : ∀ c ∈ b, c.toNat ≤ 32) :
    skipWhitespace (layout format b ++ s) = skipWhitespace s := by
  unfold layout
  split
  · exact List.dropWhile_append_of_pos fun c hc => decide_eq_true (hb c hc)
  · rfl

theorem tabs_blank (depth : Nat) : ∀ c ∈ List.replicate depth '\t', c.toNat ≤ 32 := by
  intro c hc
  rw [(List.mem_replicate.mp hc).2]
  decide

/-- The first character of a value that is printed is none that is skipped. -/
theorem printValue_head (format : Bool) (depth : Nat) {v : Value} (hv : Printed v) :
    ∃ c l, printValue format depth v = c :: l ∧ 32 < c.toNat ∧ c.toNat < 127 ∧ c ≠ ']' := by
  cases v with
  | word w =>
    rw [Printed] at hv
    rw [printValue]
    rcases hv with rfl | rfl | rfl | ⟨n, -, -, rfl⟩
    · exact ⟨'n', _, rfl, by decide, by decide, by decide⟩
    · exact ⟨'f', _, rfl, by decide, by decide, by decide⟩
    · exact ⟨'t', _, rfl, by decide, by decide, by decide⟩
    · obtain ⟨c, l, h, rfl | hc⟩ := head_ofInt n
      · exact ⟨'-', l, h, by decide, by decide, by decide⟩
      · obtain ⟨hlo, hhi⟩ := Decimal.isDigit_range hc
        refine ⟨c, l, h, by omega, by omega, ?_⟩
        rintro rfl
        exact absurd hc (by decide)
  | str s => exact ⟨'"', _, rfl, by decide, by decide, by decide⟩
  | arr l => exact ⟨'[', _, rfl, by decide, by decide, by decide⟩
  | obj ms => exact ⟨'{', _, rfl, by decide, by decide, by decide⟩

theorem skipWhitespace_printValue (format : Bool) (depth : Nat) {v : Value} (hv : Printed v) (t : CStr) :
    skipWhitespace (printValue format depth v ++ t) = printValue format depth v ++ t := by
  obtain ⟨c, l, h, hc, -⟩ := printValue_head format depth hv
  rw [h, List.cons_append, skipWhitespace_cons hc]

/-- So is that of the elements of an array, which do not end it. -/
theorem printElements_head (format : Bool) (depth : Nat) {l : List Value} (hl : PrintedElements l) (hne : l ≠ [])
    {t : CStr} :
    ∃ c u, printElements format depth l ++ t = c :: u ∧ 32 < c.toNat ∧ c ≠ ']' := by
  obtain ⟨v, l, rfl⟩ := List.exists_cons_of_ne_nil hne
  rw [PrintedElements] at hl
  obtain ⟨c, u, h, hc, -, hbracket⟩ := printValue_head format depth hl.1
  rw [printElements, h]
  exact ⟨c, _, rfl, hc, hbracket⟩

/-- White space in front of a member is skipped. -/
theorem cjsonParseObject_layout {format : Bool} {b : CStr} (hb : ∀ c ∈ b, c.toNat ≤ 32) (turns nest : Nat) (s : CStr) :
    cjsonParseObject turns nest (layout format b ++ s) = cjsonParseObject turns nest s := by
  cases turns with
  | zero => rfl
  | succ n =>
    rw [cjsonParseObject.eq_def, cjsonParseObject.eq_def _ _ s]
    dsimp only
    rw [skipWhitespace_layout hb]

theorem cjsonParseArray_layout {format : Bool} {b : CStr} (hb : ∀ c ∈ b, c.toNat ≤ 32) (turns nest : Nat) (s : CStr) :
    cjsonParseArray turns nest (layout format b ++ s) = cjsonParseArray turns nest s := by
  cases turns with
  | zero => rfl
  | succ n =>
    rw [cjsonParseArray.eq_def, cjsonParseArray.eq_def _ _ s]
    dsimp only
    rw [skipWhitespace_layout hb]

theorem skipWhitespace_printString (s t : CStr) : skipWhitespace (printString s ++ t) = printString s ++ t :=
  skipWhitespace_cons (by decide) _

theorem mem_layout {format : Bool} {b : CStr} (hb : ∀ c ∈ b, c.toNat ≤ 32) : ∀ c ∈ layout format b, c.toNat ≤ 32 := by
  unfold layout
  split
  · exact hb
  · exact fun c hc => absurd hc List.not_mem_nil

theorem skipWhitespace_append {b : CStr} (hb : ∀ c ∈ b, c.toNat ≤ 32) (s : CStr) :
    skipWhitespace (b ++ s) = skipWhitespace s :=
  List.dropWhile_append_of_pos fun c hc => decide_eq_true (hb c hc)

/-- The turns the parser takes. -/
def turnsOf : Value → Nat
  | .word _ => 1
  | .str _ => 1
  | .arr l => 1 + turnsOfElements l
  | .obj ms => 1 + turnsOfMembers ms
where
  turnsOfElements : List Value → Nat
    | [] => 0
    | v :: l => 1 + turnsOf v + turnsOfElements l
  turnsOfMembers : List (CStr × Value) → Nat
    | [] => 0
    | (_, v) :: ms => 1 + turnsOf v + turnsOfMembers ms

/-- How deep a value is nested. -/
def nesting : Value → Nat
  | .word _ => 0
  | .str _ => 0
  | .arr l => 1 + nestingOfElements l
  | .obj ms => 1 + nestingOfMembers ms
where
  nestingOfElements : List Value → Nat
    | [] => 0
    | v :: l => max (nesting v) (nestingOfElements l)
  nestingOfMembers : List (CStr × Value) → Nat
    | [] => 0
    | (_, v) :: ms => max (nesting v) (nestingOfMembers ms)

theorem endsNumber_cons {c : Char} (h : isNumberChar c = false) (t : CStr) : EndsNumber (c :: t) := by
  rintro d hd
  cases hd
  exact h

theorem isNumberChar_of_le {c : Char} (h : c.toNat ≤ 32) : isNumberChar c = false := by
  have hdigit : c.isDigit = false := by
    by_contra hc
    have := (Decimal.isDigit_range (Bool.eq_true_of_not_eq_false hc)).1
    omega
  have hne : ∀ x ∈ ['+', '-', 'e', 'E', '.'], c ≠ x := by
    rintro x hx rfl
    simp only [List.mem_cons, List.not_mem_nil, or_false] at hx
    rcases hx with rfl | rfl | rfl | rfl | rfl <;> exact absurd h (by decide)
  unfold isNumberChar
  rw [hdigit]
  simp only [Bool.false_or, Bool.or_eq_false_iff, decide_eq_false_iff_not]
  exact ⟨⟨⟨⟨hne _ (by simp), hne _ (by simp)⟩, hne _ (by simp)⟩, hne _ (by simp)⟩, hne _ (by simp)⟩

theorem endsNumber_append {b t : CStr} (hb : ∀ c ∈ b, c.toNat ≤ 32) (ht : EndsNumber t) : EndsNumber (b ++ t) := by
  cases b with
  | nil => exact ht
  | cons c b => exact endsNumber_cons (isNumberChar_of_le (hb c List.mem_cons_self)) _

mutual

/-- A value is read as it was printed, whatever follows that is no part of a number. -/
theorem cjsonParseValue_printValue (format : Bool) : ∀ (v : Value) (depth turns nest : Nat) (t : CStr),
    Printed v → EndsNumber t → turnsOf v ≤ turns → nest + nesting v ≤ nestingLimit →
    cjsonParseValue turns nest (printValue format depth v ++ t) = some (v, t)
  | .word w, depth, turns, nest, t, hv, ht, hn, hd => by
    obtain ⟨n, rfl⟩ : ∃ n, turns = n + 1 := ⟨turns - 1, by rw [turnsOf] at hn; omega⟩
    rw [printValue]
    exact cjsonParseValue_word (by rwa [Printed] at hv) ht
  | .str s, depth, turns, nest, t, hv, ht, hn, hd => by
    obtain ⟨n, rfl⟩ : ∃ n, turns = n + 1 := ⟨turns - 1, by rw [turnsOf] at hn; omega⟩
    have hstring := cjsonParseString_printString (by rwa [Printed] at hv) t
    rw [printValue, cjsonParseValue.eq_def]
    show (cjsonParseString (printString s ++ t)).map _ = _
    rw [hstring]
    rfl
  | .arr l, depth, turns, nest, t, hv, ht, hn, hd => by
    obtain ⟨n, rfl⟩ : ∃ n, turns = n + 1 := ⟨turns - 1, by rw [turnsOf] at hn; omega⟩
    rw [printValue, cjsonParseValue.eq_def, List.cons_append, List.append_assoc, List.singleton_append]
    rw [nesting] at hd
    show (if nestingLimit ≤ nest then none else if (skipWhitespace (printElements format (depth + 1) l ++ ']' :: t)).head? = some ']' then _ else _) = _
    rw [if_neg (by omega)]
    by_cases hl : l = []
    · rw [hl]
      rfl
    · obtain ⟨c, u, hhead, hc, hbracket⟩ := printElements_head (t := ']' :: t) format (depth + 1)
        (by rwa [Printed] at hv) hl
      rw [hhead, skipWhitespace_cons hc, if_neg (by simpa using hbracket), ← hhead,
        cjsonParseArray_printElements format l (depth + 1) n (nest + 1) t hl (by rwa [Printed] at hv)
          (by rw [turnsOf] at hn; omega) (by omega)]
      rfl
  | .obj ms, depth, turns, nest, t, hv, ht, hn, hd => by
    obtain ⟨n, rfl⟩ : ∃ n, turns = n + 1 := ⟨turns - 1, by rw [turnsOf] at hn; omega⟩
    have hnewline : ∀ c ∈ ['\n'], c.toNat ≤ 32 := by simp
    rw [printValue, cjsonParseValue.eq_def]
    simp only [List.cons_append, List.append_assoc, List.nil_append]
    rw [nesting] at hd
    show (if nestingLimit ≤ nest then none else if (skipWhitespace (layout format ['\n'] ++ (printMembers format (depth + 1) ms ++
      (layout format (List.replicate depth '\t') ++ '}' :: t)))).head? = some '}' then _ else _) = _
    rw [if_neg (by omega), skipWhitespace_layout hnewline, cjsonParseObject_layout hnewline]
    cases ms with
    | nil =>
      rw [printMembers, List.nil_append, skipWhitespace_layout (tabs_blank depth)]
      rfl
    | cons m ms =>
      have hhead : (skipWhitespace (printMembers format (depth + 1) (m :: ms) ++
          (layout format (List.replicate depth '\t') ++ '}' :: t))).head? = some '"' := by
        rw [printMembers]
        simp only [List.append_assoc]
        rw [skipWhitespace_layout (tabs_blank _)]
        rfl
      rw [hhead, if_neg (by decide), cjsonParseObject_printMembers format (m :: ms) (depth + 1) n (nest + 1)
        (layout format (List.replicate depth '\t')) t (List.cons_ne_nil _ _) (by rwa [Printed] at hv) ?_
        (by rw [turnsOf] at hn; omega) (by omega)]
      · rfl
      · exact mem_layout (tabs_blank depth)
termination_by structural v => v

/-- The elements of an array, from one on. -/
theorem cjsonParseArray_printElements (format : Bool) : ∀ (l : List Value) (depth turns nest : Nat) (t : CStr),
    l ≠ [] → PrintedElements l → turnsOf.turnsOfElements l ≤ turns → nest + nesting.nestingOfElements l ≤ nestingLimit →
    cjsonParseArray turns nest (printElements format depth l ++ ']' :: t) = some (l, t)
  | [], depth, turns, nest, t, hne, hv, hn, hd => absurd rfl hne
  | v :: l, depth, turns, nest, t, hne, hv, hn, hd => by
    rw [turnsOf.turnsOfElements] at hn
    rw [nesting.nestingOfElements] at hd
    obtain ⟨n, rfl⟩ : ∃ n, turns = n + 1 := ⟨turns - 1, by omega⟩
    rw [PrintedElements] at hv
    rw [printElements, List.append_assoc, List.append_assoc, cjsonParseArray.eq_def]
    dsimp only
    rw [skipWhitespace_printValue format depth hv.1]
    by_cases hl : l = []
    · subst hl
      show (cjsonParseValue n nest (printValue format depth v ++ ']' :: t)).bind _ = _
      rw [cjsonParseValue_printValue format v depth n nest _ hv.1 (endsNumber_cons rfl t) (by omega) (by omega)]
      rfl
    · rw [if_neg (by simpa using hl)]
      show (cjsonParseValue n nest (printValue format depth v ++ ',' :: (layout format [' '] ++
        (printElements format depth l ++ ']' :: t)))).bind _ = _
      rw [cjsonParseValue_printValue format v depth n nest _ hv.1 (endsNumber_cons rfl _) (by omega) (by omega), Option.bind_some]
      show (cjsonParseArray n nest (layout format [' '] ++ (printElements format depth l ++ ']' :: t))).map _ = _
      rw [cjsonParseArray_layout (by simp), cjsonParseArray_printElements format l depth n nest t hl hv.2 (by omega) (by omega)]
      rfl
termination_by structural l => l

/-- The members of an object, from one on. -/
theorem cjsonParseObject_printMembers (format : Bool) : ∀ (ms : List (CStr × Value)) (depth turns nest : Nat)
    (b t : CStr), ms ≠ [] → PrintedMembers ms → (∀ c ∈ b, c.toNat ≤ 32) → turnsOf.turnsOfMembers ms ≤ turns →
    nest + nesting.nestingOfMembers ms ≤ nestingLimit →
    cjsonParseObject turns nest (printMembers format depth ms ++ (b ++ '}' :: t)) = some (ms, t)
  | [], depth, turns, nest, b, t, hne, hv, hb, hn, hd => absurd rfl hne
  | (k, v) :: ms, depth, turns, nest, b, t, hne, hv, hb, hn, hd => by
    rw [turnsOf.turnsOfMembers] at hn
    rw [nesting.nestingOfMembers] at hd
    obtain ⟨n, rfl⟩ : ∃ n, turns = n + 1 := ⟨turns - 1, by omega⟩
    rw [PrintedMembers] at hv
    rw [printMembers]
    simp only [List.append_assoc, List.cons_append]
    rw [cjsonParseObject_layout (tabs_blank depth), cjsonParseObject.eq_def]
    dsimp only
    rw [skipWhitespace_printString, cjsonParseString_printString hv.1, Option.bind_some]
    have hcolon : ∀ u, skipWhitespace (':' :: u) = ':' :: u := skipWhitespace_cons (by decide)
    rw [hcolon]
    by_cases hms : ms = []
    · subst hms
      show (cjsonParseValue n nest (skipWhitespace (layout format ['\t'] ++ (printValue format depth v ++
        (layout format ['\n'] ++ (b ++ '}' :: t)))))).bind _ = _
      have hends : EndsNumber (layout format ['\n'] ++ (b ++ '}' :: t)) :=
        endsNumber_append (mem_layout (by simp)) (endsNumber_append hb (endsNumber_cons rfl t))
      rw [skipWhitespace_layout (by simp), skipWhitespace_printValue format depth hv.2.1,
        cjsonParseValue_printValue format v depth n nest _ hv.2.1 hends (by omega) (by omega), Option.bind_some]
      dsimp only
      rw [skipWhitespace_layout (by simp), skipWhitespace_append hb]
      rfl
    · rw [if_neg (by simpa using hms)]
      show (cjsonParseValue n nest (skipWhitespace (layout format ['\t'] ++ (printValue format depth v ++
        ',' :: (layout format ['\n'] ++ (printMembers format depth ms ++ (b ++ '}' :: t))))))).bind _ = _
      rw [skipWhitespace_layout (by simp), skipWhitespace_printValue format depth hv.2.1,
        cjsonParseValue_printValue format v depth n nest _ hv.2.1 (endsNumber_cons rfl _) (by omega) (by omega), Option.bind_some]
      show (cjsonParseObject n nest (layout format ['\n'] ++ (printMembers format depth ms ++ (b ++ '}' :: t)))).map _ = _
      rw [cjsonParseObject_layout (by simp), cjsonParseObject_printMembers format ms depth n nest b t hms hv.2.2 hb (by omega)
        (by omega)]
      rfl
termination_by structural ms => ms

end

/-! ## The whole text -/

mutual

/-- The text is long enough for the turns. -/
theorem turnsOf_le (format : Bool) : ∀ (v : Value) (depth : Nat), turnsOf v ≤ 2 * (printValue format depth v).length + 1
  | .word w, depth => by
    rw [turnsOf]
    omega
  | .str s, depth => by
    rw [turnsOf]
    omega
  | .arr l, depth => by
    have := turnsOfElements_le format l (depth + 1)
    rw [turnsOf, printValue, List.length_cons, List.length_append]
    simp only [List.length_cons, List.length_nil]
    omega
  | .obj ms, depth => by
    have := turnsOfMembers_le format ms (depth + 1)
    rw [turnsOf, printValue]
    simp only [List.length_cons, List.length_append, List.length_nil]
    omega
termination_by structural v => v

theorem turnsOfElements_le (format : Bool) : ∀ (l : List Value) (depth : Nat),
    turnsOf.turnsOfElements l ≤ 2 * (printElements format depth l).length + 2
  | [], depth => Nat.zero_le _
  | v :: l, depth => by
    have hv := turnsOf_le format v depth
    have hl := turnsOfElements_le format l depth
    rw [turnsOf.turnsOfElements, printElements, List.length_append, List.length_append]
    cases l with
    | nil =>
      rw [turnsOf.turnsOfElements]
      omega
    | cons v' l =>
      have hcomma : (if (v' :: l).isEmpty = true then [] else ',' :: layout format [' ']) = ',' :: layout format [' '] :=
        rfl
      rw [hcomma, List.length_cons]
      omega
termination_by structural l => l

theorem turnsOfMembers_le (format : Bool) : ∀ (ms : List (CStr × Value)) (depth : Nat),
    turnsOf.turnsOfMembers ms ≤ 2 * (printMembers format depth ms).length
  | [], depth => Nat.zero_le _
  | (k, v) :: ms, depth => by
    have hv := turnsOf_le format v depth
    have hms := turnsOfMembers_le format ms depth
    have hkey : 2 ≤ (printString k).length := by
      show 2 ≤ ('"' :: (k.flatMap escapeChar ++ ['"'])).length
      rw [List.length_cons, List.length_append, List.length_singleton]
      omega
    rw [turnsOf.turnsOfMembers, printMembers]
    simp only [List.length_append, List.length_cons]
    omega
termination_by structural ms => ms

end

/-- A text that is printed does not begin with the bytes of a byte order mark. -/
theorem skipBom_printValue (format : Bool) {v : Value} (hv : Printed v) :
    skipBom (printValue format 0 v) = printValue format 0 v := by
  obtain ⟨c, l, h, -, hc, -⟩ := printValue_head format 0 hv
  unfold skipBom
  refine if_neg ?_
  rintro ⟨-, hbom⟩
  rw [h] at hbom
  have hfirst : c = Char.ofNat 0xEF := (List.cons.inj hbom).1
  rw [hfirst] at hc
  exact absurd hc (by decide)

theorem cjsonParse_printValue (format : Bool) {v : Value} (hv : Printed v) (hdeep : nesting v ≤ nestingLimit) :
    cjsonParse (printValue format 0 v) = some v := by
  have hends : EndsNumber [] := fun _ h => absurd h (by simp)
  have hread := cjsonParseValue_printValue format v 0 (2 * (printValue format 0 v).length + 2) 0 [] hv hends
    ((turnsOf_le format v 0).trans (Nat.le_succ _)) (by omega)
  have hskip := skipWhitespace_printValue format 0 hv []
  rw [List.append_nil] at hread hskip
  unfold cjsonParse
  rw [skipBom_printValue format hv, hskip, hread]
  rfl

/-- `cJSON_Parse` takes back what `cJSON_Print` and `cJSON_PrintUnformatted` print of a value that is not nested deeper
than it reads. -/
theorem cjsonParse_cjsonPrint {v : Value} (hv : Printed v) (hdeep : nesting v ≤ nestingLimit) :
    cjsonParse (cjsonPrint v) = some v ∧ cjsonParse (cjsonPrintUnformatted v) = some v :=
  ⟨cjsonParse_printValue true hv hdeep, cjsonParse_printValue false hv hdeep⟩

/-- The content of a request for a container. -/
def containerContent : Value :=
  .obj [("m2m:cnt".toList, .obj [("rn".toList, .str "a\"b".toList), ("mni".toList, .word "-5".toList),
    ("lbl".toList, .arr [.str "x\ny".toList, .str []])])]

theorem containerContent_printed : Printed containerContent := by
  have hnumber : PrintedWord "-5".toList := .inr (.inr (.inr ⟨-5, by decide, by decide, by decide +kernel⟩))
  simp only [containerContent, Printed, PrintedMembers, PrintedElements, and_true]
  exact ⟨by decide, by decide, by decide, by decide, hnumber, by decide, by decide, by decide⟩

theorem cjsonParse_cjsonPrint_container :
    cjsonParse (cjsonPrint containerContent) = some containerContent ∧
      cjsonParse (cjsonPrintUnformatted containerContent) = some containerContent :=
  cjsonParse_cjsonPrint containerContent_printed (by decide)

/-! ## Over HTTP -/

/-- The characters of a string that are sent as they are and kept, or as an escape sequence. -/
def survives (c : Char) : Bool := c.toNat < 127

mutual

/-- The value without the characters that are lost. -/
def surviving : Value → Value
  | .word w => .word w
  | .str s => .str (s.filter survives)
  | .arr l => .arr (survivingElements l)
  | .obj ms => .obj (survivingMembers ms)
termination_by structural v => v

def survivingElements : List Value → List Value
  | [] => []
  | v :: l => surviving v :: survivingElements l
termination_by structural l => l

def survivingMembers : List (CStr × Value) → List (CStr × Value)
  | [] => []
  | (k, v) :: ms => (k.filter survives, surviving v) :: survivingMembers ms
termination_by structural ms => ms

end

theorem isJsonValidChar_iff {c : Char} : isJsonValidChar c = true ↔ 32 ≤ c.toNat ∧ c.toNat < 127 := by
  rw [isJsonValidChar_eq]
  unfold JsonText.visible
  have hspace : ' '.val.toNat = 32 := rfl
  have htilde : '~'.val.toNat = 126 := rfl
  rw [Bool.and_eq_true, decide_eq_true_eq, decide_eq_true_eq, Char.le_def, Char.le_def, UInt32.le_iff_toNat_le,
    UInt32.le_iff_toNat_le, hspace, htilde]
  show 32 ≤ c.toNat ∧ c.toNat ≤ 126 ↔ _
  omega

theorem normalizePayload_append (s t : CStr) : normalizePayload (s ++ t) = normalizePayload s ++ normalizePayload t :=
  List.filter_append ..

/-- Visible characters stay. -/
theorem normalizePayload_visible {s : CStr} (h : ∀ c ∈ s, 32 ≤ c.toNat ∧ c.toNat < 127) : normalizePayload s = s :=
  List.filter_eq_self.mpr fun c hc => isJsonValidChar_iff.mpr (h c hc)

theorem hexDigit_visible : ∀ n < 16, 32 ≤ (hexDigit n).toNat ∧ (hexDigit n).toNat < 127 := by decide

theorem simpleEscape_visible {x c : Char} (h : simpleEscape x = some c) :
    (32 ≤ x.toNat ∧ x.toNat < 127) ∧ c.toNat < 127 := by
  unfold simpleEscape at h
  repeat first
    | split at h
      · rename_i hx
        cases h
        first
        | rw [hx]
          decide
        | rcases hx with rfl | rfl | rfl <;> decide
  cases h

/-- A character is kept with its escape sequence, or it is lost. -/
theorem normalizePayload_escapeChar (c : Char) :
    normalizePayload (escapeChar c) = if survives c then escapeChar c else [] := by
  have hkept : c.toNat < 127 → (∀ x ∈ escapeChar c, 32 ≤ x.toNat ∧ x.toNat < 127) →
      normalizePayload (escapeChar c) = if survives c then escapeChar c else [] := by
    intro hc h
    rw [normalizePayload_visible h, if_pos (show survives c = true from decide_eq_true hc)]
  rcases escapeChar_cases c with ⟨hlow, -, -, h⟩ | ⟨x, -, hx, h⟩ | ⟨hlow, h⟩
  · by_cases hc : c.toNat < 127
    · refine hkept hc fun x hx => ?_
      rw [h, List.mem_singleton] at hx
      rw [hx]
      omega
    · have hlost : isJsonValidChar c = false := by
        rw [Bool.eq_false_iff, ne_eq, isJsonValidChar_iff]
        omega
      rw [if_neg (show ¬ survives c = true by simpa [survives] using hc), h]
      unfold normalizePayload
      rw [List.filter_cons_of_neg (by simp [hlost]), List.filter_nil]
  · obtain ⟨hvisible, hc⟩ := simpleEscape_visible hx
    refine hkept hc fun y hy => ?_
    rw [h] at hy
    rcases List.mem_cons.mp hy with rfl | hy
    · decide
    · rwa [List.mem_singleton.mp hy]
  · refine hkept (by omega) fun y hy => ?_
    rw [h] at hy
    simp only [List.mem_cons, List.not_mem_nil, or_false] at hy
    rcases hy with rfl | rfl | rfl | rfl | rfl | rfl
    · decide
    · decide
    all_goals exact hexDigit_visible _ (by omega)

theorem normalizePayload_printString (s : CStr) : normalizePayload (printString s) = printString (s.filter survives) := by
  have hbody : normalizePayload (s.flatMap escapeChar) = (s.filter survives).flatMap escapeChar := by
    induction s with
    | nil => rfl
    | cons c s ih =>
      rw [List.flatMap_cons, normalizePayload_append, ih, normalizePayload_escapeChar]
      split
      · rename_i hc
        rw [List.filter_cons_of_pos hc, List.flatMap_cons]
      · rename_i hc
        rw [List.filter_cons_of_neg hc, List.nil_append]
  show normalizePayload (['"'] ++ (s.flatMap escapeChar ++ ['"'])) = _
  rw [normalizePayload_append, normalizePayload_append, hbody]
  rfl

theorem normalizePayload_word {w : CStr} (hw : PrintedWord w) : normalizePayload w = w := by
  rcases hw with rfl | rfl | rfl | ⟨n, -, -, rfl⟩
  · rfl
  · rfl
  · rfl
  · refine normalizePayload_visible fun c hc => ?_
    have hdigit : ∀ c ∈ Decimal.ofNat n.natAbs, 32 ≤ c.toNat ∧ c.toNat < 127 := fun c hc => by
      have := Decimal.isDigit_range (ofNat_digits _ c hc)
      omega
    unfold Decimal.ofInt at hc
    split at hc
    · rcases List.mem_cons.mp hc with rfl | hc
      · decide
      · exact hdigit c hc
    · exact hdigit c hc

mutual

/-- What is left of a text is the text of what survives. -/
theorem normalizePayload_printValue : ∀ (v : Value) (depth : Nat), Printed v →
    normalizePayload (printValue false depth v) = printValue false depth (surviving v)
  | .word w, depth, hv => by
    rw [surviving, printValue]
    exact normalizePayload_word (by rwa [Printed] at hv)
  | .str s, depth, hv => by
    rw [surviving, printValue, printValue]
    exact normalizePayload_printString s
  | .arr l, depth, hv => by
    have hl := normalizePayload_printElements l (depth + 1) (by rwa [Printed] at hv)
    rw [surviving, printValue, printValue, ← hl]
    show normalizePayload (['['] ++ (printElements false (depth + 1) l ++ [']'])) = _
    rw [normalizePayload_append, normalizePayload_append]
    rfl
  | .obj ms, depth, hv => by
    have hms := normalizePayload_printMembers ms (depth + 1) (by rwa [Printed] at hv)
    rw [surviving, printValue, printValue, ← hms]
    show normalizePayload (['{'] ++ ([] ++ printMembers false (depth + 1) ms ++ [] ++ ['}'])) = _
    rw [normalizePayload_append, normalizePayload_append, normalizePayload_append, normalizePayload_append]
    rfl
termination_by structural v => v

theorem normalizePayload_printElements : ∀ (l : List Value) (depth : Nat), PrintedElements l →
    normalizePayload (printElements false depth l) = printElements false depth (survivingElements l)
  | [], depth, hl => rfl
  | v :: l, depth, hl => by
    rw [PrintedElements] at hl
    have hv := normalizePayload_printValue v depth hl.1
    have hrest := normalizePayload_printElements l depth hl.2
    rw [survivingElements, printElements, printElements, normalizePayload_append, normalizePayload_append, hv, hrest]
    cases l <;> rfl
termination_by structural l => l

theorem normalizePayload_printMembers : ∀ (ms : List (CStr × Value)) (depth : Nat), PrintedMembers ms →
    normalizePayload (printMembers false depth ms) = printMembers false depth (survivingMembers ms)
  | [], depth, hms => rfl
  | (k, v) :: ms, depth, hms => by
    rw [PrintedMembers] at hms
    have hv := normalizePayload_printValue v depth hms.2.1
    have hrest := normalizePayload_printMembers ms depth hms.2.2
    have hkey := normalizePayload_printString k
    rw [survivingMembers, printMembers, printMembers]
    show normalizePayload ([] ++ printString k ++ [':'] ++ printValue false depth v ++
      (if ms.isEmpty then [] else [',']) ++ [] ++
      printMembers false depth ms) = _
    simp only [normalizePayload_append, hv, hrest, hkey]
    cases ms <;> rfl
termination_by structural ms => ms

end

mutual

theorem printed_surviving : ∀ v : Value, Printed v → Printed (surviving v)
  | .word w, hv => by rwa [surviving]
  | .str s, hv => by
    rw [Printed] at hv
    rw [surviving, Printed]
    exact fun h => hv (List.mem_of_mem_filter h)
  | .arr l, hv => by
    rw [Printed] at hv
    rw [surviving, Printed]
    exact printedElements_surviving l hv
  | .obj ms, hv => by
    rw [Printed] at hv
    rw [surviving, Printed]
    exact printedMembers_surviving ms hv
termination_by structural v => v

theorem printedElements_surviving : ∀ l : List Value, PrintedElements l → PrintedElements (survivingElements l)
  | [], hl => trivial
  | v :: l, hl => by
    rw [PrintedElements] at hl
    rw [survivingElements, PrintedElements]
    exact ⟨printed_surviving v hl.1, printedElements_surviving l hl.2⟩
termination_by structural l => l

theorem printedMembers_surviving : ∀ ms : List (CStr × Value), PrintedMembers ms → PrintedMembers (survivingMembers ms)
  | [], hms => trivial
  | (k, v) :: ms, hms => by
    rw [PrintedMembers] at hms
    rw [survivingMembers, PrintedMembers]
    exact ⟨fun h => hms.1 (List.mem_of_mem_filter h), printed_surviving v hms.2.1, printedMembers_surviving ms hms.2.2⟩
termination_by structural ms => ms

end

/-- A body that is printed, sent and normalized is read as what survives of it: as it was sent where its strings are
within ASCII. -/
theorem cjsonParse_normalizePayload {v : Value} (hv : Printed v) (hdeep : nesting (surviving v) ≤ nestingLimit) :
    cjsonParse (normalizePayload (cjsonPrintUnformatted v)) = some (surviving v) := by
  unfold cjsonPrintUnformatted
  rw [normalizePayload_printValue v 0 hv]
  exact cjsonParse_printValue false (printed_surviving v hv) hdeep

/-- A content that arrives as it was sent: numbers that are an `int`, strings without a NUL and within ASCII, no deeper
nesting than the reader's. -/
structure Arriving (v : Value) : Prop where
  printed : Printed v
  ascii : surviving v = v
  shallow : nesting v ≤ nestingLimit

theorem Arriving.read {v : Value} (h : Arriving v) :
    cjsonParse (normalizePayload (cjsonPrintUnformatted v)) = some v := by
  have hread := cjsonParse_normalizePayload h.printed (by rw [h.ascii]; exact h.shallow)
  rwa [h.ascii] at hread

end TinyIoT
