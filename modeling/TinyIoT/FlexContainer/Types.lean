/-
The types the attributes of a definition are declared with: what they mean, and how far `sdt_validate_attr_type` looks. A
type is a kind of JSON value, and for many types a format the text is written in or a range the number is from. The check
looks at the kind, and at the first characters or at the alphabet of a text; it takes every value of the type, and more.
-/
import TinyIoT.FlexContainer.Handlers
import TinyIoT.Lib.Decimal

namespace TinyIoT

/-! ## Formats of texts -/

namespace Format

/-- `n` digits. -/
def Digits (n : Nat) (t : CStr) : Prop := t.length = n ∧ ∀ c ∈ t, isDigit c = true

/-- Some digits. -/
def Number (t : CStr) : Prop := t ≠ [] ∧ ∀ c ∈ t, isDigit c = true

/-- `n` digits that make a number of the range. -/
def InRange (n lo hi : Nat) (t : CStr) : Prop := Digits n t ∧ lo ≤ Decimal.value t ∧ Decimal.value t ≤ hi

/-- The days of a month. -/
def daysIn (year month : Nat) : Nat :=
  if month = 2 then if year % 4 = 0 ∧ (year % 100 ≠ 0 ∨ year % 400 = 0) then 29 else 28
  else if month = 4 ∨ month = 6 ∨ month = 9 ∨ month = 11 then 30 else 31

/-- A day of the calendar, with `sep` between its parts. -/
def Day (sep t : CStr) : Prop :=
  ∃ y m d, Digits 4 y ∧ InRange 2 1 12 m ∧ InRange 2 1 (daysIn (Decimal.value y) (Decimal.value m)) d ∧
    t = y ++ (sep ++ (m ++ (sep ++ d)))

/-- A time of the day, with `sep` between its parts. -/
def Clock (sep t : CStr) : Prop :=
  ∃ h m s, InRange 2 0 23 h ∧ InRange 2 0 59 m ∧ InRange 2 0 59 s ∧ t = h ++ (sep ++ (m ++ (sep ++ s)))

/-- Decimals, if any. -/
def Fraction (t : CStr) : Prop := t = [] ∨ ∃ ds, Number ds ∧ (t = '.' :: ds ∨ t = ',' :: ds)

/-- A time zone, if any. -/
def Zone (t : CStr) : Prop :=
  t = [] ∨ t = ['Z'] ∨ ∃ sep h m, (sep = [] ∨ sep = [':']) ∧ InRange 2 0 14 h ∧ InRange 2 0 59 m ∧
    (t = '+' :: (h ++ (sep ++ m)) ∨ t = '-' :: (h ++ (sep ++ m)))

/-- Basic `yyyyMMdd` or extended `yyyy-MM-dd`. -/
def Date (t : CStr) : Prop := Day [] t ∨ Day ['-'] t

/-- Basic `HHmmss` or extended `HH:mm:ss`. -/
def Time (t : CStr) : Prop := ∃ c f z, (Clock [] c ∨ Clock [':'] c) ∧ Fraction f ∧ Zone z ∧ t = c ++ (f ++ z)

/-- Basic `yyyyMMddTHHmmss` or extended `yyyy-MM-ddTHH:mm:ss`. -/
def Timestamp (t : CStr) : Prop :=
  ∃ d c f z, (Day [] d ∧ Clock [] c ∨ Day ['-'] d ∧ Clock [':'] c) ∧ Fraction f ∧ Zone z ∧ t = d ++ 'T' :: (c ++ (f ++ z))

/-- A number of the unit, if any. -/
def Component (unit : Char) (t : CStr) : Prop := t = [] ∨ ∃ ds f, Number ds ∧ Fraction f ∧ t = ds ++ (f ++ [unit])

/-- `PnYnMnDTnHnMnS`, with one part at least, or `PnW`. -/
def Duration (t : CStr) : Prop :=
  (∃ w, Component 'W' w ∧ w ≠ [] ∧ t = 'P' :: w) ∨
  ∃ y m d c, Component 'Y' y ∧ Component 'M' m ∧ Component 'D' d ∧
    (c = [] ∨ ∃ h n s, Component 'H' h ∧ Component 'M' n ∧ Component 'S' s ∧ h ++ (n ++ s) ≠ [] ∧ c = 'T' :: (h ++ (n ++ s))) ∧
    y ++ (m ++ (d ++ c)) ≠ [] ∧ t = 'P' :: (y ++ (m ++ (d ++ c)))

def isBlank (c : Char) : Bool := c = ' ' || c = '\t' || c = '\n' || c = '\r'

def isLatin (c : Char) : Bool := ('A' ≤ c && c ≤ 'Z') || ('a' ≤ c && c ≤ 'z')

/-- Groups of four characters of the alphabet, the last one filled up, with blanks anywhere. -/
def Base64 (t : CStr) : Prop :=
  ∃ body pad, (∀ c ∈ body, isLatin c = true ∨ isDigit c = true ∨ c = '+' ∨ c = '/') ∧
    (pad = [] ∨ pad = ['='] ∨ pad = ['=', '=']) ∧ 4 ∣ (body ++ pad).length ∧ t.filter (fun c => !isBlank c) = body ++ pad

/-- A text with no blank but single spaces between two words. -/
def Token (t : CStr) : Prop :=
  t ≠ [] ∧ (∀ c ∈ t, isBlank c = true → c = ' ') ∧ t.head? ≠ some ' ' ∧ t.getLast? ≠ some ' ' ∧ ¬ [' ', ' '] <:+: t

/-- A letter, a byte of one beyond ASCII, or the low line. -/
def isNameStart (c : Char) : Bool := isLatin c || c = '_' || 128 ≤ c.toNat

/-- A name without a colon. -/
def Ncname (t : CStr) : Prop :=
  ∃ c s, t = c :: s ∧ isNameStart c = true ∧ ∀ d ∈ s, isNameStart d = true ∨ isDigit d = true ∨ d = '-' ∨ d = '.'

/-- Four numbers of an octet each. -/
def Ipv4 (t : CStr) : Prop :=
  let octet := fun t : CStr => ∃ n, 1 ≤ n ∧ n ≤ 3 ∧ InRange n 0 255 t
  ∃ a b c d, octet a ∧ octet b ∧ octet c ∧ octet d ∧ t = a ++ '.' :: (b ++ '.' :: (c ++ '.' :: d))

/-- `n` groups of up to four hexadecimal digits. -/
def HexGroups (n : Nat) (t : CStr) : Prop :=
  ∃ gs : List CStr, gs.length = n ∧ t = [':'].intercalate gs ∧ ∀ g ∈ gs, g ≠ [] ∧ g.length ≤ 4 ∧
    ∀ c ∈ g, isDigit c = true ∨ ('A' ≤ c ∧ c ≤ 'F') ∨ ('a' ≤ c ∧ c ≤ 'f')

/-- Eight groups, or fewer with one gap. -/
def Ipv6 (t : CStr) : Prop :=
  HexGroups 8 t ∨ ∃ n m l r, n + m ≤ 7 ∧ HexGroups n l ∧ HexGroups m r ∧ t = l ++ ':' :: ':' :: r

/-! ### What the checks look at -/

section Looks

variable {n m : Nat} {sep : Char} {s t : CStr}

/-- Digits and separators with no other character, and long enough. -/
theorem isDigits_of (hlen : n ≤ t.length) (h : ∀ c ∈ t.take m, c = sep ∨ isDigit c = true) : isDigits n m sep t = true := by
  unfold isDigits
  rw [Bool.and_eq_true, decide_eq_true_eq, List.all_eq_true]
  refine ⟨hlen, fun c hc => ?_⟩
  rw [Bool.or_eq_true, decide_eq_true_eq]
  exact h c hc

/-- A text that begins with digits and separators only. -/
theorem isDigits_append (hlen : n ≤ (s ++ t).length) (hm : m ≤ s.length) (h : ∀ c ∈ s, c = sep ∨ isDigit c = true) :
    isDigits n m sep (s ++ t) = true := by
  refine isDigits_of hlen fun c hc => h c ?_
  rw [List.take_append_of_le_length hm] at hc
  exact List.mem_of_mem_take hc

/-- The characters and the length of three numbers with separators. -/
theorem Digits.joined {a b c : Nat} {x y z : CStr} {sep : CStr} {ch : Char} (hx : Digits a x) (hy : Digits b y)
    (hz : Digits c z) (hsep : ∀ d ∈ sep, d = ch) :
    (∀ d ∈ x ++ (sep ++ (y ++ (sep ++ z))), d = ch ∨ isDigit d = true) ∧
      a + b + c ≤ (x ++ (sep ++ (y ++ (sep ++ z)))).length := by
  constructor
  · intro d hd
    simp only [List.mem_append] at hd
    rcases hd with hd | hd | hd | hd | hd
    · exact .inr (hx.2 d hd)
    · exact .inl (hsep d hd)
    · exact .inr (hy.2 d hd)
    · exact .inl (hsep d hd)
    · exact .inr (hz.2 d hd)
  · have h₁ := hx.1
    have h₂ := hy.1
    have h₃ := hz.1
    simp only [List.length_append]
    omega

theorem Day.looks {sep t : CStr} (h : Day sep t) (hsep : ∀ c ∈ sep, c = '-') :
    (∀ c ∈ t, c = '-' ∨ isDigit c = true) ∧ 8 ≤ t.length := by
  obtain ⟨y, m, d, hy, hm, hd, rfl⟩ := h
  exact hy.joined hm.1 hd.1 hsep

theorem Clock.looks {sep t : CStr} (h : Clock sep t) (hsep : ∀ c ∈ sep, c = ':') :
    (∀ c ∈ t, c = ':' ∨ isDigit c = true) ∧ 6 ≤ t.length := by
  obtain ⟨a, b, c, ha, hb, hc, rfl⟩ := h
  exact ha.1.joined hb.1 hc.1 hsep

theorem isValidDate_of_date (h : Date t) : isValidDate t = true := by
  have hlooks : (∀ c ∈ t, c = '-' ∨ isDigit c = true) ∧ 8 ≤ t.length := by
    rcases h with h | h
    · exact h.looks (by simp)
    · exact h.looks (by simp)
  exact isDigits_of hlooks.2 fun c hc => hlooks.1 c (List.mem_of_mem_take hc)

theorem isValidTime_of_time (h : Time t) : isValidTime t = true := by
  obtain ⟨c, f, z, hc, -, -, rfl⟩ := h
  have hlooks : (∀ d ∈ c, d = ':' ∨ isDigit d = true) ∧ 6 ≤ c.length := by
    rcases hc with hc | hc
    · exact hc.looks (by simp)
    · exact hc.looks (by simp)
  refine isDigits_append ?_ hlooks.2 hlooks.1
  rw [List.length_append]
  omega

theorem isValidTimestamp_of_timestamp (h : Timestamp t) : isValidTimestamp t = true := by
  obtain ⟨d, c, f, z, hdc, -, -, rfl⟩ := h
  have hday : (∀ x ∈ d, x = '-' ∨ isDigit x = true) ∧ 8 ≤ d.length := by
    rcases hdc with ⟨hd, -⟩ | ⟨hd, -⟩
    · exact hd.looks (by simp)
    · exact hd.looks (by simp)
  have hclock : 6 ≤ c.length := by
    rcases hdc with ⟨-, hc⟩ | ⟨-, hc⟩
    · exact (hc.looks (by simp)).2
    · exact (hc.looks (by simp)).2
  refine isDigits_append ?_ hday.2 hday.1
  simp only [List.length_append, List.length_cons]
  omega

theorem isValidDuration_of_duration (h : Duration t) : isValidDuration t = true := by
  obtain ⟨s, hs, rfl⟩ : ∃ s, s ≠ [] ∧ t = 'P' :: s := by
    rcases h with ⟨w, -, hw, ht⟩ | ⟨y, m, d, c, -, -, -, -, hne, ht⟩
    · exact ⟨w, hw, ht⟩
    · exact ⟨_, hne, ht⟩
  have hlen := List.length_pos_iff.mpr hs
  unfold isValidDuration
  rw [Bool.and_eq_true, decide_eq_true_eq]
  exact ⟨by rw [List.length_cons]; omega, rfl⟩

theorem isValidBase64_of_base64 (h : Base64 t) : isValidBase64 t = true := by
  obtain ⟨body, pad, hbody, hpad, -, hfilter⟩ := h
  unfold isValidBase64
  rw [List.all_eq_true]
  intro c hc
  cases hb : isBlank c with
  | true =>
    simp only [isBlank, Bool.or_eq_true, decide_eq_true_eq] at hb
    rcases hb with ((rfl | rfl) | rfl) | rfl <;> rfl
  | false =>
    have hin : c ∈ body ++ pad := by
      rw [← hfilter]
      exact List.mem_filter.mpr ⟨hc, by rw [hb]; rfl⟩
    rcases List.mem_append.mp hin with hin | hin
    · simp only [Bool.or_eq_true, decide_eq_true_eq]
      rcases hbody c hin with hl | hd | rfl | rfl
      · unfold isLatin at hl
        rw [Bool.or_eq_true] at hl
        tauto
      · tauto
      · tauto
      · tauto
    · obtain rfl : c = '=' := by
        rcases hpad with rfl | rfl | rfl <;> simp_all
      rfl

theorem isTokenText_of (hblank : ∀ c ∈ t, isBlank c = true → c = ' ') (hin : ¬ [' ', ' '] <:+: t) : isTokenText t = true := by
  induction t with
  | nil => rfl
  | cons c t ih =>
    have hrest : isTokenText t = true :=
      ih (fun d hd => hblank d (List.mem_cons_of_mem _ hd)) fun h => hin (h.trans (List.suffix_cons c t).isInfix)
    have htwo : ¬ (c = ' ' ∧ t.head? = some ' ') := by
      rintro ⟨rfl, hhead⟩
      cases t with
      | nil => cases hhead
      | cons d t =>
        cases hhead
        exact hin (List.IsPrefix.isInfix ⟨t, rfl⟩)
    have hc : c ≠ '\t' ∧ c ≠ '\n' ∧ c ≠ '\r' := by
      refine ⟨?_, ?_, ?_⟩ <;> rintro rfl <;> exact absurd (hblank _ List.mem_cons_self rfl) (by decide)
    simp [isTokenText, hrest, hc]
    exact not_and_or.mp htwo

theorem isValidToken_of_token (h : Token t) : isValidToken t = true := by
  obtain ⟨hne, hblank, -, -, hin⟩ := h
  unfold isValidToken
  rw [isTokenText_of hblank hin]
  cases t with
  | nil => exact absurd rfl hne
  | cons => rfl

theorem not_special_of_isNameStart {c : Char} (h : isNameStart c = true) :
    isDigit c = false ∧ c ≠ '-' ∧ c ≠ '.' ∧ c ≠ ' ' ∧ c ≠ '\t' ∧ c ≠ '\n' ∧ c ≠ '\r' := by
  have hdigit : isDigit c = false := by
    rw [Bool.eq_false_iff]
    intro hd
    simp only [isNameStart, isLatin, isDigit, Bool.or_eq_true, Bool.and_eq_true, decide_eq_true_eq, Char.le_def,
      UInt32.le_iff_toNat_le] at h hd
    have htn : c.toNat = c.val.toNat := rfl
    have h9 : ('9' : Char).val.toNat = 57 := rfl
    have hA : ('A' : Char).val.toNat = 65 := rfl
    have ha : ('a' : Char).val.toNat = 97 := rfl
    rcases h with ((h | h) | rfl) | h
    · omega
    · omega
    · exact absurd hd.2 (by decide)
    · omega
  refine ⟨hdigit, ?_, ?_, ?_, ?_, ?_, ?_⟩ <;> rintro rfl <;> exact absurd h (by decide)

theorem isValidNcname_of_ncname (h : Ncname t) : isValidNcname t = true := by
  obtain ⟨c, s, rfl, hc, hs⟩ := h
  obtain ⟨hdigit, hminus, hdot, hrest⟩ := not_special_of_isNameStart hc
  unfold isValidNcname
  rw [Bool.and_eq_true, List.all_eq_true]
  refine ⟨by simp [hdigit, hminus, hdot], fun d hd => ?_⟩
  rcases List.mem_cons.mp hd with rfl | hd
  · simp [hrest]
  · rcases hs d hd with hd | hd | rfl | rfl
    · simp [(not_special_of_isNameStart hd).2.2.2]
    · have hno : d ≠ ' ' ∧ d ≠ '\t' ∧ d ≠ '\n' ∧ d ≠ '\r' := by
        refine ⟨?_, ?_, ?_, ?_⟩ <;> rintro rfl <;> exact absurd hd (by decide)
      simp [hno]
    · rfl
    · rfl

end Looks

end Format

/-! ## What the types mean -/

/-- A text in a format. -/
def IsText (format : CStr → Prop) (v : Json) : Prop := ∃ t, v = .str t ∧ format t

/-- A whole number of a range. -/
def IsWhole (range : Int → Prop) (v : Json) : Prop := ∃ n : Int, v = .num n ∧ range n

/-- The types a definition may name, and the values they stand for. -/
def typeMeanings : List (List String × (Json → Prop)) :=
  [(["string", "anyURI", "anyuri", "ID", "schedule", "geoJsonCoordinate"], IsText fun _ => True),
    (["imsi"], IsText fun t => Format.Number t ∧ t.length ≤ 15),
    (["iccid"], IsText fun t => Format.Number t ∧ t.length ≤ 22),
    (["ipv4Address"], IsText Format.Ipv4), (["ipv6Address"], IsText Format.Ipv6),
    (["token"], IsText Format.Token), (["ncname"], IsText Format.Ncname), (["base64"], IsText Format.Base64),
    (["integer", "enum"], IsWhole fun _ => True), (["positiveInteger"], IsWhole (0 < ·)),
    (["nonNegInteger"], IsWhole (0 ≤ ·)), (["unsignedInt"], IsWhole fun n => 0 ≤ n ∧ n < 4294967296),
    (["unsignedLong"], IsWhole fun n => 0 ≤ n ∧ n < 18446744073709551616), (["float"], fun v => ∃ q, v = .num q),
    (["boolean"], fun v => ∃ b, v = .bool b), (["timestamp", "dateTime"], IsText Format.Timestamp),
    (["absRelTimestamp"], fun v => IsText Format.Timestamp v ∨ IsWhole (fun _ => True) v),
    (["duration"], IsText Format.Duration), (["date"], IsText Format.Date), (["time"], IsText Format.Time),
    (["list"], fun v => ∃ l, v = .arr l), (["listNE"], fun v => ∃ l, v = .arr l ∧ l ≠ []),
    (["complex", "dict"], fun v => ∃ m, v = .obj m), (["jsonLike", "any", "void"], fun _ => True)]

/-- The value is of the declared type. -/
def HasType (type : CStr) (v : Json) : Prop :=
  ∃ e ∈ typeMeanings, (∃ name ∈ e.1, name.toList = type) ∧ e.2 v

/-! ## What is looked at -/

/-- A set of values that can be told by looking. -/
inductive ValueSet where
  | texts (valid : CStr → Bool)
  | numbers (valid : ℚ → Bool)
  | flags
  | times
  | lists
  | filledLists
  | objects
  | anything

/-- The values of the set. -/
def ValueSet.Has : ValueSet → Json → Prop
  | texts valid, v => ∃ t, v = .str t ∧ valid t = true
  | numbers valid, v => ∃ q, v = .num q ∧ valid q = true
  | flags, v => ∃ b, v = .bool b
  | times, v => (∃ t, v = .str t) ∨ ∃ q, v = .num q
  | lists, v => ∃ l, v = .arr l
  | filledLists, v => ∃ l, v = .arr l ∧ l ≠ []
  | objects, v => ∃ m, v = .obj m
  | anything, _ => True

/-- What is looked at for the names of types. -/
def valueSets : List (List String × ValueSet) :=
  [(["string", "anyURI", "anyuri", "ID", "imsi", "iccid", "ipv4Address", "ipv6Address"], .texts fun _ => true),
    (["token"], .texts isValidToken), (["ncname"], .texts isValidNcname), (["base64"], .texts isValidBase64),
    (["integer", "enum"], .numbers fun _ => true), (["positiveInteger"], .numbers (0 < ·)),
    (["nonNegInteger", "unsignedInt", "unsignedLong"], .numbers (0 ≤ ·)), (["float"], .numbers fun _ => true),
    (["boolean"], .flags), (["timestamp", "dateTime"], .texts isValidTimestamp), (["absRelTimestamp"], .times),
    (["duration"], .texts isValidDuration), (["date"], .texts isValidDate), (["time"], .texts isValidTime),
    (["list"], .lists), (["listNE"], .filledLists), (["complex", "dict"], .objects),
    (["schedule", "geoJsonCoordinate"], .texts fun _ => true), (["jsonLike", "any", "void"], .anything)]

/-- What is looked at for a type; none where there is no such type. -/
def valueSet (type : CStr) : Option ValueSet :=
  (valueSets.find? fun e => e.1.any fun name => name.toList = type).map Prod.snd

/-- The value looks like one of the type. -/
def LooksLike (type : CStr) (v : Json) : Prop := ∃ S ∈ valueSet type, S.Has v

/-! ### `sdt_validate_attr_type` -/

theorem require_iff {ok : Bool} {msg : String} : require ok msg = .ok () ↔ ok = true := by
  unfold require
  cases ok <;> simp

section Values

variable {v : Json} {kind text : String}

theorem requireText_iff {valid : CStr → Bool} : requireText valid kind text v = .ok () ↔ (ValueSet.texts valid).Has v := by
  unfold requireText require
  cases v with
  | str t => cases ht : valid t <;> simp [Json.isString, Json.valuestring, ValueSet.Has, bind, Except.bind, ht]
  | _ => simp [Json.isString, ValueSet.Has, bind, Except.bind]

theorem requireNumber_iff {valid : ℚ → Bool} :
    requireNumber valid kind text v = .ok () ↔ (ValueSet.numbers valid).Has v := by
  unfold requireNumber require
  cases v with
  | num q => cases hq : valid q <;> simp [Json.isNumber, ValueSet.Has, bind, Except.bind, hq]
  | _ => simp [Json.isNumber, ValueSet.Has, bind, Except.bind]

theorem require_isString_iff : require v.isString kind = .ok () ↔ (ValueSet.texts fun _ => true).Has v := by
  rw [require_iff]
  cases v <;> simp [Json.isString, ValueSet.Has]

theorem require_isNumber_iff : require v.isNumber kind = .ok () ↔ (ValueSet.numbers fun _ => true).Has v := by
  rw [require_iff]
  cases v <;> simp [Json.isNumber, ValueSet.Has]

theorem require_isBool_iff : require v.isBool kind = .ok () ↔ ValueSet.flags.Has v := by
  rw [require_iff]
  cases v <;> simp [Json.isBool, ValueSet.Has]

theorem require_times_iff : require (v.isString || v.isNumber) kind = .ok () ↔ ValueSet.times.Has v := by
  rw [require_iff]
  cases v <;> simp [Json.isString, Json.isNumber, ValueSet.Has]

theorem require_isArray_iff : require v.isArray kind = .ok () ↔ ValueSet.lists.Has v := by
  rw [require_iff]
  cases v <;> simp [Json.isArray, ValueSet.Has]

theorem require_filled_iff :
    (do require v.isArray kind; require (!v.items.isEmpty) text) = .ok () ↔ ValueSet.filledLists.Has v := by
  unfold require
  cases v with
  | arr l => cases l <;> simp [Json.isArray, Json.items, ValueSet.Has, bind, Except.bind]
  | _ => simp [Json.isArray, ValueSet.Has, bind, Except.bind]

theorem require_isObject_iff : require v.isObject kind = .ok () ↔ ValueSet.objects.Has v := by
  rw [require_iff]
  cases v <;> simp [Json.isObject, ValueSet.Has]

/-- One branch over the names of types. -/
theorem ofTypes_cons_iff {type : CStr} {names : List String} {S : ValueSet} {rest : List (List String × ValueSet)}
    {x y : Except Resp Unit} (hx : x = .ok () ↔ S.Has v)
    (hy : y = .ok () ↔ ∃ S ∈ (rest.find? fun e => e.1.any fun name => name.toList = type).map Prod.snd, S.Has v) :
    (if names.any fun name => name.toList = type then x else y) = .ok () ↔
      ∃ S' ∈ (((names, S) :: rest).find? fun e => e.1.any fun name => name.toList = type).map Prod.snd, S'.Has v := by
  rw [List.find?_cons]
  cases hn : names.any fun name => name.toList = type with
  | true => simpa using hx
  | false => simpa using hy

end Values

/-- `sdt_validate_attr_type` accepts what looks like a value of the type. -/
theorem sdtValidateAttrType_iff (type : CStr) (v : Json) : sdtValidateAttrType type v = .ok () ↔ LooksLike type v := by
  unfold LooksLike valueSet valueSets sdtValidateAttrType
  dsimp only
  refine ofTypes_cons_iff require_isString_iff <| ofTypes_cons_iff requireText_iff <| ofTypes_cons_iff requireText_iff <|
    ofTypes_cons_iff requireText_iff <| ofTypes_cons_iff require_isNumber_iff <| ofTypes_cons_iff requireNumber_iff <|
    ofTypes_cons_iff requireNumber_iff <| ofTypes_cons_iff require_isNumber_iff <| ofTypes_cons_iff require_isBool_iff <|
    ofTypes_cons_iff requireText_iff <| ofTypes_cons_iff require_times_iff <| ofTypes_cons_iff requireText_iff <|
    ofTypes_cons_iff requireText_iff <| ofTypes_cons_iff requireText_iff <| ofTypes_cons_iff require_isArray_iff <|
    ofTypes_cons_iff require_filled_iff <| ofTypes_cons_iff require_isObject_iff <|
    ofTypes_cons_iff require_isString_iff <| ofTypes_cons_iff ?_ ?_
  · simp [ValueSet.Has]
  · simp

/-! ### The values of a type look like it -/

theorem IsText.has {format : CStr → Prop} {valid : CStr → Bool} {v : Json} (h : IsText format v)
    (hvalid : ∀ t, format t → valid t = true) : (ValueSet.texts valid).Has v := by
  obtain ⟨t, rfl, ht⟩ := h
  exact ⟨t, rfl, hvalid t ht⟩

theorem IsWhole.has {range : Int → Prop} {valid : ℚ → Bool} {v : Json} (h : IsWhole range v)
    (hvalid : ∀ n : Int, range n → valid n = true) : (ValueSet.numbers valid).Has v := by
  obtain ⟨n, rfl, hn⟩ := h
  exact ⟨n, rfl, hvalid n hn⟩

/-- The check takes every value of the type. -/
theorem looksLike_of_hasType {type : CStr} {v : Json} (h : HasType type v) : LooksLike type v := by
  obtain ⟨e, he, ⟨name, hname, rfl⟩, hv⟩ := h
  have hnonneg : ∀ n : Int, 0 ≤ n → decide ((0 : ℚ) ≤ (n : ℚ)) = true := fun n hn => by simpa using hn
  simp only [typeMeanings, List.mem_cons, List.not_mem_nil, or_false] at he
  rcases he with rfl | rfl | rfl | rfl | rfl | rfl | rfl | rfl | rfl | rfl | rfl | rfl | rfl | rfl | rfl | rfl | rfl | rfl |
    rfl | rfl | rfl | rfl | rfl | rfl <;> simp only [List.mem_cons, List.not_mem_nil, or_false] at hname
  · rcases hname with rfl | rfl | rfl | rfl | rfl | rfl <;> exact ⟨_, rfl, hv.has fun _ _ => rfl⟩
  · subst hname
    exact ⟨_, rfl, hv.has fun _ _ => rfl⟩
  · subst hname
    exact ⟨_, rfl, hv.has fun _ _ => rfl⟩
  · subst hname
    exact ⟨_, rfl, hv.has fun _ _ => rfl⟩
  · subst hname
    exact ⟨_, rfl, hv.has fun _ _ => rfl⟩
  · subst hname
    exact ⟨_, rfl, hv.has fun _ => Format.isValidToken_of_token⟩
  · subst hname
    exact ⟨_, rfl, hv.has fun _ => Format.isValidNcname_of_ncname⟩
  · subst hname
    exact ⟨_, rfl, hv.has fun _ => Format.isValidBase64_of_base64⟩
  · rcases hname with rfl | rfl <;> exact ⟨_, rfl, hv.has fun _ _ => rfl⟩
  · subst hname
    exact ⟨_, rfl, hv.has fun n hn => by simpa using hn⟩
  · subst hname
    exact ⟨_, rfl, hv.has hnonneg⟩
  · subst hname
    exact ⟨_, rfl, hv.has fun n hn => hnonneg n hn.1⟩
  · subst hname
    exact ⟨_, rfl, hv.has fun n hn => hnonneg n hn.1⟩
  · subst hname
    obtain ⟨q, rfl⟩ := hv
    exact ⟨_, rfl, q, rfl, rfl⟩
  · subst hname
    exact ⟨_, rfl, hv⟩
  · rcases hname with rfl | rfl <;> exact ⟨_, rfl, hv.has fun _ => Format.isValidTimestamp_of_timestamp⟩
  · subst hname
    refine ⟨_, rfl, hv.imp ?_ ?_⟩
    · exact fun ⟨t, ht, _⟩ => ⟨t, ht⟩
    · exact fun ⟨n, hn, _⟩ => ⟨n, hn⟩
  · subst hname
    exact ⟨_, rfl, hv.has fun _ => Format.isValidDuration_of_duration⟩
  · subst hname
    exact ⟨_, rfl, hv.has fun _ => Format.isValidDate_of_date⟩
  · subst hname
    exact ⟨_, rfl, hv.has fun _ => Format.isValidTime_of_time⟩
  · subst hname
    exact ⟨_, rfl, hv⟩
  · subst hname
    exact ⟨_, rfl, hv⟩
  · rcases hname with rfl | rfl <;> exact ⟨_, rfl, hv⟩
  · rcases hname with rfl | rfl | rfl <;> exact ⟨_, rfl, trivial⟩

end TinyIoT
