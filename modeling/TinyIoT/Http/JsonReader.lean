/-
`cJSON_Parse` as the request parsers use it: a recursive descent over the text, where a backslash takes the next character
of a string with it and what follows the value is passed over. A number is kept as it is written.
-/
import TinyIoT.Lib.JsonText
import TinyIoT.Http.Message

namespace TinyIoT

open JsonText (Value)

/-! ## Strings -/

/-- `buffer_skip_whitespace`. -/
def skipWhitespace (s : CStr) : CStr := s.dropWhile fun c => c.toNat ≤ 32

/-- The characters up to the closing quote, as they are written, and what is behind it. -/
def splitString : CStr → Option (CStr × CStr)
  | [] => none
  | '"' :: s => some ([], s)
  | '\\' :: c :: s => (splitString s).map fun r => ('\\' :: c :: r.1, r.2)
  | c :: s => if c = '\\' then none else (splitString s).map fun r => (c :: r.1, r.2)

/-- The value of a hexadecimal digit. -/
def hexNibble (c : Char) : Option Nat :=
  if '0' ≤ c ∧ c ≤ '9' then some (c.toNat - 48)
  else if 'A' ≤ c ∧ c ≤ 'F' then some (c.toNat - 55)
  else if 'a' ≤ c ∧ c ≤ 'f' then some (c.toNat - 87)
  else none

/-- `parse_hex4`: zero where one of the digits is none. -/
def parseHex4 (s : CStr) : Nat := ((s.take 4).mapM hexNibble).elim 0 fun ds => ds.foldl (fun h d => 16 * h + d) 0

/-- The bytes of a code point. -/
def utf8Bytes (code : Nat) : CStr :=
  let tail (n : Nat) := Char.ofNat (128 + n % 64)
  if code < 0x80 then [Char.ofNat code]
  else if code < 0x800 then [Char.ofNat (0xC0 + code / 64), tail code]
  else if code < 0x10000 then [Char.ofNat (0xE0 + code / 4096), tail (code / 64), tail code]
  else [Char.ofNat (0xF0 + code / 262144), tail (code / 4096), tail (code / 64), tail code]

/-- `utf16_literal_to_utf8` at a backslash: the bytes, and the length of the escape sequence. -/
def utf16Literal (s : CStr) : Option (CStr × Nat) :=
  let first := parseHex4 (s.drop 2)
  if s.length < 6 ∨ (0xDC00 ≤ first ∧ first ≤ 0xDFFF) then none
  else if 0xD800 ≤ first ∧ first ≤ 0xDBFF then
    let second := parseHex4 (s.drop 8)
    if s.length < 12 ∨ (s.drop 6).take 2 ≠ ['\\', 'u'] ∨ second < 0xDC00 ∨ 0xDFFF < second then none
    else some (utf8Bytes (0x10000 + first % 0x400 * 0x400 + second % 0x400), 12)
  else some (utf8Bytes first, 6)

/-- The escape sequences of one letter. -/
def simpleEscape (c : Char) : Option Char :=
  if c = 'b' then some (Char.ofNat 8)
  else if c = 'f' then some (Char.ofNat 12)
  else if c = 'n' then some '\n'
  else if c = 'r' then some '\r'
  else if c = 't' then some '\t'
  else if c = '"' ∨ c = '\\' ∨ c = '/' then some c
  else none

/-- What is written between the quotes stands for. -/
def unescapeString : Nat → CStr → Option CStr
  | 0, _ => none
  | _ + 1, [] => some []
  | turns + 1, c :: s =>
    if c ≠ '\\' then (unescapeString turns s).map (c :: ·)
    else if s.head? = some 'u' then
      (utf16Literal (c :: s)).bind fun r => (unescapeString turns ((c :: s).drop r.2)).map (r.1 ++ ·)
    else (s.head?.bind simpleEscape).bind fun x => (unescapeString turns s.tail).map (x :: ·)

/-- `parse_string`: the string as a C string, and what is behind it. -/
def cjsonParseString : CStr → Option (CStr × CStr)
  | '"' :: s => (splitString s).bind fun r => (unescapeString (r.1.length + 1) r.1).map fun t => (cutNul t, r.2)
  | _ => none

/-! ## Values -/

/-- The characters of a number. -/
def isNumberChar (c : Char) : Bool := c.isDigit || c = '+' || c = '-' || c = 'e' || c = 'E' || c = '.'

/-- A sign, where there is one. -/
def takeSign (s : CStr) : CStr := s.take 1 |>.filter fun c => c = '+' || c = '-'

/-- The number `strtod` takes from the front of a text of such characters. -/
def takeNumber (s : CStr) : Option CStr :=
  let sign := takeSign s
  let whole := (s.drop sign.length).takeWhile Char.isDigit
  let behind := s.drop (sign.length + whole.length)
  let fraction := if behind.head? = some '.' then '.' :: behind.tail.takeWhile Char.isDigit else []
  if whole = [] ∧ fraction.length ≤ 1 then none
  else
    let behind := behind.drop fraction.length
    let power := takeSign behind.tail
    let digits := (behind.tail.drop power.length).takeWhile Char.isDigit
    let exponent := if (behind.head? = some 'e' ∨ behind.head? = some 'E') ∧ digits ≠ [] then
      behind.take 1 ++ power ++ digits else []
    some (sign ++ whole ++ fraction ++ exponent)

/-- `parse_number`, with its buffer of 64 bytes. -/
def cjsonParseNumber (s : CStr) : Option (Value × CStr) :=
  (takeNumber ((s.takeWhile isNumberChar).take 63)).map fun w => (.word w, s.drop w.length)

/-- The word a text begins with, of `null`, `false` and `true`. -/
def leadingWord (s : CStr) : Option CStr :=
  ["null".toList, "false".toList, "true".toList].find? fun w => w.isPrefixOf s

/-- `CJSON_NESTING_LIMIT`. -/
def nestingLimit : Nat := 1000

mutual

/-- `parse_value`, inside of `nest` arrays and objects. -/
def cjsonParseValue : Nat → Nat → CStr → Option (Value × CStr)
  | 0, _, _ => none
  | turns + 1, nest, s =>
    match leadingWord s with
    | some w => some (.word w, s.drop w.length)
    | none =>
      match s with
      | '"' :: _ => (cjsonParseString s).map fun r => (.str r.1, r.2)
      | '[' :: t =>
        if nestingLimit ≤ nest then none
        else if (skipWhitespace t).head? = some ']' then some (.arr [], (skipWhitespace t).tail)
        else (cjsonParseArray turns (nest + 1) t).map fun r => (.arr r.1, r.2)
      | '{' :: t =>
        if nestingLimit ≤ nest then none
        else if (skipWhitespace t).head? = some '}' then some (.obj [], (skipWhitespace t).tail)
        else (cjsonParseObject turns (nest + 1) t).map fun r => (.obj r.1, r.2)
      | c :: _ => if c = '-' ∨ c.isDigit = true then cjsonParseNumber s else none
      | [] => none

/-- The loop of `parse_array`. -/
def cjsonParseArray : Nat → Nat → CStr → Option (List Value × CStr)
  | 0, _, _ => none
  | turns + 1, nest, s =>
    (cjsonParseValue turns nest (skipWhitespace s)).bind fun v =>
      match skipWhitespace v.2 with
      | ',' :: t => (cjsonParseArray turns nest t).map fun r => (v.1 :: r.1, r.2)
      | ']' :: t => some ([v.1], t)
      | _ => none

/-- The loop of `parse_object`. -/
def cjsonParseObject : Nat → Nat → CStr → Option (List (CStr × Value) × CStr)
  | 0, _, _ => none
  | turns + 1, nest, s =>
    (cjsonParseString (skipWhitespace s)).bind fun k =>
      match skipWhitespace k.2 with
      | ':' :: t => (cjsonParseValue turns nest (skipWhitespace t)).bind fun v =>
        match skipWhitespace v.2 with
        | ',' :: t => (cjsonParseObject turns nest t).map fun r => ((k.1, v.1) :: r.1, r.2)
        | '}' :: t => some ([(k.1, v.1)], t)
        | _ => none
      | _ => none

end

/-- `skip_utf8_bom`. -/
def skipBom (s : CStr) : CStr :=
  if 4 ≤ s.length ∧ s.take 3 = [Char.ofNat 0xEF, Char.ofNat 0xBB, Char.ofNat 0xBF] then s.drop 3 else s

/-- `cJSON_Parse`. -/
def cjsonParse (s : CStr) : Option Value := (cjsonParseValue (2 * s.length + 2) 0 (skipWhitespace (skipBom s))).map Prod.fst

/-! ## Plain strings -/

/-- A string that is written as it is. -/
def PlainString (s : CStr) : Prop := ∀ c ∈ s, c ≠ '"' ∧ c ≠ '\\' ∧ c ≠ Char.ofNat 0

/-- A string between quotes. -/
def quoted (s : CStr) : CStr := '"' :: (s ++ ['"'])

section Plain

variable {s t : CStr}

theorem splitString_plain (h : PlainString s) : splitString (s ++ '"' :: t) = some (s, t) := by
  induction s with
  | nil => rfl
  | cons c s ih =>
    obtain ⟨hquote, hslash, -⟩ := h c List.mem_cons_self
    rw [List.cons_append, splitString.eq_4 c _ hquote (by rintro d s' rfl; exact absurd rfl hslash), if_neg hslash,
      ih fun c hc => h c (List.mem_cons_of_mem _ hc)]
    rfl

theorem unescapeString_plain {turns : Nat} (h : PlainString s) (hn : s.length < turns) : unescapeString turns s = some s := by
  induction s generalizing turns with
  | nil =>
    obtain ⟨n, rfl⟩ : ∃ n, turns = n + 1 := ⟨turns - 1, by simp only [List.length_nil] at hn; omega⟩
    rfl
  | cons c s ih =>
    obtain ⟨n, rfl⟩ : ∃ n, turns = n + 1 := ⟨turns - 1, by omega⟩
    rw [unescapeString, if_pos (h c List.mem_cons_self).2.1,
      ih (fun c hc => h c (List.mem_cons_of_mem _ hc)) (by simp only [List.length_cons] at hn; omega)]
    rfl

/-- A plain string between quotes is read as it is. -/
theorem cjsonParseString_quoted (h : PlainString s) (t : CStr) : cjsonParseString (quoted s ++ t) = some (s, t) := by
  have hcut : cutNul s = s := List.takeWhile_eq_self_iff.mpr fun c hc => decide_eq_true (h c hc).2.2
  show cjsonParseString ('"' :: (s ++ ['"'] ++ t)) = _
  rw [cjsonParseString, List.append_assoc, List.singleton_append, splitString_plain h, Option.bind_some,
    unescapeString_plain h (Nat.lt_succ_self _), Option.map_some, hcut]

theorem skipWhitespace_cons {c : Char} (h : 32 < c.toNat) (s : CStr) : skipWhitespace (c :: s) = c :: s :=
  List.dropWhile_cons_of_neg (by simpa using h)

theorem cjsonParseValue_quoted {turns nest : Nat} (h : PlainString s) (t : CStr) :
    cjsonParseValue (turns + 1) nest (quoted s ++ t) = some (.str s, t) := by
  have hword : leadingWord (quoted s ++ t) = none := rfl
  rw [cjsonParseValue.eq_def]
  dsimp only
  rw [hword]
  show (cjsonParseString (quoted s ++ t)).map _ = _
  rw [cjsonParseString_quoted h]
  rfl

end Plain

end TinyIoT
