/-
Filter criteria as the query gives them: `parse_qs` turns the texts of numbers into numbers, and
`validate_filter_criteria` takes every key up in `FC_TAG_TABLE` and checks its value by the type it has there. The two
bounds of the numbers are exchanged, an item that is no number passes, a timestamp may have blanks in it and anything
behind it, and one known resource type in front of a list speaks for the others.
-/
import TinyIoT.Resource.Sdt
import TinyIoT.Lib.Scan

namespace TinyIoT

/-! ## The table -/

/-- `FcValueType`. -/
inductive FcValueType where
  | timestamp | nonNegInt | posInt | enum | string | intArray | stringArray | boolean
  deriving DecidableEq, Repr

/-- `FC_TAG_TABLE`. -/
def fcTagTable : List (String × FcValueType) :=
  [("fu", .enum), ("crb", .timestamp), ("cra", .timestamp), ("ms", .timestamp), ("us", .timestamp), ("exb", .timestamp),
    ("exa", .timestamp), ("sts", .posInt), ("stb", .nonNegInt), ("sza", .nonNegInt), ("szb", .posInt),
    ("lbl", .stringArray), ("clbl", .stringArray), ("palb", .stringArray), ("lbq", .string), ("ty", .intArray),
    ("chty", .intArray), ("pty", .intArray), ("cty", .string), ("ops", .enum), ("fo", .enum), ("cfs", .enum),
    ("lim", .nonNegInt), ("lvl", .posInt), ("ofst", .posInt), ("cfq", .string), ("arp", .string), ("gq", .string),
    ("smf", .string), ("rn", .string), ("ri", .string), ("pi", .string), ("cr", .string), ("or", .string),
    ("apn", .string), ("api", .string), ("aei", .string), ("rr", .boolean), ("nl", .string), ("poa", .string),
    ("mni", .nonNegInt), ("mbs", .nonNegInt), ("mia", .nonNegInt), ("cni", .nonNegInt), ("cbs", .nonNegInt),
    ("disr", .boolean), ("con", .string), ("dlc", .posInt), ("cnd", .string), ("lnk", .string)]

/-- The type a key has in the table. -/
def fcType (key : CStr) : Option FcValueType := (fcTagTable.find? fun e => e.1.toList = key).map (·.2)

/-- An item of the criteria: its key and its value. -/
abbrev FcItem := CStr × Json

/-! ## `parse_qs` -/

/-- `cJSON_GetObjectItem`: the first item whose key is the name, but for the case of its letters. -/
def getFcItem (qs : List FcItem) (name : CStr) : Option FcItem := qs.find? fun e => sameKey e.1 name

/-- The first item of that name is changed. -/
def setFcItem (f : FcItem → FcItem) (name : CStr) : List FcItem → List FcItem
  | [] => []
  | e :: qs => if sameKey e.1 name then f e :: qs else e :: setFcItem f name qs

/-- The text of an `int`. -/
def parseIntText (s : CStr) : Option Int :=
  (Decimal.strtol s).bind fun n => if intMin ≤ n ∧ n ≤ intMax then some n else none

/-- An element of a list of numbers. -/
def parseElement : Json → Option Json
  | .str s => (parseIntText s).map Json.int
  | j => some j

/-- The value of a key of that type; `cJSON_ReplaceItemInObject` gives the item the name it was looked up by. -/
def parseValue (name : CStr) : FcValueType → FcItem → Option FcItem
  | .nonNegInt, (_, .str s) | .posInt, (_, .str s) | .enum, (_, .str s) | .intArray, (_, .str s) =>
    (parseIntText s).map fun n => (name, Json.int n)
  | .intArray, (key, .arr l) => (l.mapM parseElement).map fun l => (key, .arr l)
  | .stringArray, (_, .str s) => some (name, .arr [.str s])
  | _, e => some e

/-- One turn of the loop over the table. -/
def parseTag (qs : List FcItem) (tag : String × FcValueType) : Option (List FcItem) :=
  match getFcItem qs tag.1.toList with
  | none => some (if tag.1 = "fo" then qs ++ [(tag.1.toList, Json.int 1)] else qs)
  | some e => (parseValue tag.1.toList tag.2 e).map fun e => setFcItem (fun _ => e) tag.1.toList qs

/-- `parse_qs`: the criteria, where it returns true. -/
def parseQs (qs : List FcItem) : Option (List FcItem) := do
  let qs ← fcTagTable.foldlM parseTag qs
  -- "rcn" and "drt" stand outside the table; an absent one is not added
  [("rcn", FcValueType.enum), ("drt", .enum)].foldlM parseTag qs

/-! ## `validate_filter_criteria` -/

/-- `VALID_TYPES`. -/
def validTypes : List Int :=
  [0, 1, 2, 3, 4, 5, 9, 13, 14, 15, 16, 17, 23, 24, 28, 29, 30, 48, 58, 20058, 20059, 60, 63, 10001, 10002, 10003, 10004,
    10005, 10009, 10028, 10029]

/-- The loop over the elements of "ty"; the flag is set before the loop only. -/
def checkTypes : Bool → List Json → Bool
  | _, [] => true
  | isIn, j :: l =>
    if j.isNumber then
      let isIn := isIn || validTypes.contains j.valueint
      if isIn then checkTypes isIn l else false
    else false

/-- `cJSON_GetNumberValue`: NaN for anything but a number. -/
def numberValue : Json → Option ℚ
  | .num v => some v
  | _ => none

/-- The text behind a separator, where there is one. -/
def afterSeparator : CStr → CStr
  | ',' :: s => s
  | '.' :: s => s
  | s => s

/-- The check of a timestamp. -/
def readsTimestamp (s : CStr) : Bool :=
  match Scan.fields [4, 2, 2] s with
  | some ('T' :: t) =>
    match Scan.fields [2, 2, 2] t with
    | some rest => s.length - rest.length = 15 && ((afterSeparator rest).takeWhile Char.isDigit).length ≤ 6
    | none => false
  | _ => false

/-- The names of the lists of resource types. -/
def typeKeys : List CStr := ["ty".toList, "chty".toList, "pty".toList]

/-- One turn of the loop of `isFCAttrValid`; no result where a string that is missing is read. -/
def checkFcItem (e : FcItem) : Option Bool :=
  if e.1 = "fo".toList then some (e.2.isNumber && 0 ≤ e.2.valueint && e.2.valueint ≤ 3)
  else if typeKeys.contains e.1 then some (checkTypes false e.2.items)
  else match fcType e.1 with
    | some .timestamp => e.2.valuestring.map readsTimestamp
    -- a comparison with NaN fails
    | some .nonNegInt => some ((numberValue e.2).all (0 < ·))
    | some .posInt => some ((numberValue e.2).all (0 ≤ ·))
    | _ => some true

/-- `isFCAttrValid`. -/
def isFCAttrValid : List FcItem → Option Bool
  | [] => some true
  | e :: fc =>
    match checkFcItem e with
    | none => none
    | some false => some false
    | some true => isFCAttrValid fc

/-- `isValidFcAttr`. -/
def isValidFcAttr (key : CStr) : Bool := fcTagTable.any fun e => e.1.toList = key

/-- What `validate_filter_criteria` returns: `RSC_OK`, or a bad request with its text. -/
inductive FcVerdict where
  | ok
  | badRequest (text : CStr)
  deriving DecidableEq

/-- `validate_filter_criteria`. -/
def validateFilterCriteria (fc : List FcItem) : Option FcVerdict :=
  match fc.find? fun e => !isValidFcAttr e.1 with
  | some e => some (.badRequest ("attr `".toList ++ e.1 ++ "` is not valid(or supported)".toList))
  | none => (isFCAttrValid fc).map fun valid =>
    if valid then .ok else .badRequest "Invalid Filter Criteria".toList

/-! ## What is declared -/

/-- Nothing, or at most six digits behind a separator. -/
def IsFraction (s : CStr) : Prop :=
  s = [] ∨ ∃ x ds, s = x :: ds ∧ (x = ',' ∨ x = '.') ∧ ds.length ≤ 6 ∧ ∀ c ∈ ds, c.isDigit = true

/-- `yyyyMMddThhmmss`, and a fraction. -/
def IsTimestamp (s : CStr) : Prop :=
  ∃ date time frac, s = date ++ 'T' :: (time ++ frac) ∧ date.length = 8 ∧ time.length = 6 ∧
    (∀ c ∈ date ++ time, c.isDigit = true) ∧ IsFraction frac

/-- The number of a resource type. -/
def KnownType (j : Json) : Prop := ∃ n ∈ validTypes, j = Json.int n

/-- The elements of a list, or the single value. -/
def Json.elements : Json → List Json
  | .arr l => l
  | j => [j]

/-- The value has the type its key is declared with. -/
structure ValidFcItem (e : FcItem) : Prop where
  known : fcType e.1 ≠ none
  fo : e.1 = "fo".toList → ∃ v, e.2 = .num v ∧ 0 ≤ v ∧ v ≤ 3
  timestamp : fcType e.1 = some .timestamp → ∃ s, e.2 = .str s ∧ IsTimestamp s
  nonNegInt : fcType e.1 = some .nonNegInt → ∃ v, e.2 = .num v ∧ 0 ≤ v
  posInt : fcType e.1 = some .posInt → ∃ v, e.2 = .num v ∧ 0 < v
  types : e.1 ∈ typeKeys → ∀ j ∈ e.2.elements, KnownType j

/-! ## Where the check goes another way -/

/-- The fields are read in fifteen characters, and no more than six digits follow. -/
def Scanned (s : CStr) : Prop :=
  ∃ t rest, Scan.fields [4, 2, 2] s = some ('T' :: t) ∧ Scan.fields [2, 2, 2] t = some rest ∧
    s.length = rest.length + 15 ∧ ((afterSeparator rest).takeWhile Char.isDigit).length ≤ 6

/-- Items that are not as declared and pass. -/
inductive LetThrough : FcItem → Prop where
  /-- A fraction is cut off. -/
  | fraction {v : ℚ} (h : -1 < v ∧ v < 0 ∨ 3 < v ∧ v < 4) : LetThrough ("fo".toList, .num v)
  /-- Zero for a positive number. -/
  | zero {key : CStr} (h : fcType key = some .posInt) : LetThrough (key, .num 0)
  /-- No number at all. -/
  | notNumber {key : CStr} {j : Json} (h : fcType key = some .posInt ∨ fcType key = some .nonNegInt)
      (hj : j.isNumber = false) : LetThrough (key, j)
  /-- Blanks or signs in a timestamp, or something else behind it. -/
  | loose {key s : CStr} (h : fcType key = some .timestamp) (hs : Scanned s)
      (hloose : ¬ Scan.Plain (s.take 15) ∨ ¬ IsFraction (s.drop 15)) : LetThrough (key, .str s)
  /-- A single value is not looked at. -/
  | single {key : CStr} {j : Json} (h : key ∈ typeKeys) (hj : j.items = []) (hone : j.elements ≠ []) (hk : ¬ KnownType j) :
      LetThrough (key, j)
  /-- Numbers behind a known type. -/
  | behind {key : CStr} {j first : Json} {rest : List Json} (h : key ∈ typeKeys) (hj : j.items = first :: rest)
      (hfirst : first.valueint ∈ validTypes) (hnum : ∀ x ∈ first :: rest, x.isNumber = true)
      (hk : ∃ x ∈ j.elements, ¬ KnownType x) : LetThrough (key, j)

/-- Items that are as declared and do not pass: zero for a number that is not to be negative. -/
inductive KeptOut : FcItem → Prop where
  | zero {key : CStr} (h : fcType key = some .nonNegInt) : KeptOut (key, .num 0)

/-- Items that are not as declared, and do not pass. -/
def FcRefused (e : FcItem) : Prop := ¬ ValidFcItem e ∧ ¬ LetThrough e

/-- A timestamp that is no string. -/
def MissingString (e : FcItem) : Prop := fcType e.1 = some .timestamp ∧ e.2.isString = false

/-- No missing string is read: a key is unknown, or an item in front of it does not pass. -/
def StringsRead (fc : List FcItem) : Prop :=
  (∃ e ∈ fc, fcType e.1 = none) ∨
    ∀ pre e post, fc = pre ++ e :: post → MissingString e → ∃ x ∈ pre, KeptOut x ∨ FcRefused x

/-- What is let through and what is kept out do not count: there is neither, or both, or an item is refused anyway. -/
def CriteriaClear (fc : List FcItem) : Prop :=
  StringsRead fc ∧ ((∃ e ∈ fc, FcRefused e) ∨ ((∃ e ∈ fc, LetThrough e) ↔ ∃ e ∈ fc, KeptOut e))

/-! ## Timestamps -/

section Timestamp

variable {s : CStr}

theorem afterSeparator_fraction (h : IsFraction s) : ((afterSeparator s).takeWhile Char.isDigit).length ≤ 6 := by
  rcases h with rfl | ⟨x, ds, rfl, rfl | rfl, hlen, -⟩
  · decide
  · exact (List.takeWhile_prefix _).length_le.trans hlen
  · exact (List.takeWhile_prefix _).length_le.trans hlen

theorem readsTimestamp_iff (s : CStr) : readsTimestamp s = true ↔ Scanned s := by
  unfold readsTimestamp Scanned
  constructor
  · intro h
    split at h
    · rename_i t ht
      split at h
      · rename_i rest hrest
        simp only [Bool.and_eq_true, decide_eq_true_eq] at h
        exact ⟨t, rest, ht, hrest, by omega, h.2⟩
      · cases h
    · cases h
  · rintro ⟨t, rest, ht, hrest, hlen, hfrac⟩
    simp only [ht, hrest, Bool.and_eq_true, decide_eq_true_eq]
    exact ⟨by omega, hfrac⟩

/-- A timestamp is read. -/
theorem scanned_of_isTimestamp (h : IsTimestamp s) : Scanned s := by
  obtain ⟨date, time, frac, rfl, hdate, htime, hdigits, hfrac⟩ := h
  refine ⟨time ++ frac, frac, ?_, ?_, ?_, afterSeparator_fraction hfrac⟩
  · exact Scan.fields_digits hdate (by decide) (fun c hc => hdigits c (List.mem_append_left _ hc)) _
  · exact Scan.fields_digits htime (by decide) (fun c hc => hdigits c (List.mem_append_right _ hc)) _
  · simp only [List.length_append, List.length_cons]
    omega

/-- A text that is read is a timestamp exactly where it has no blank and no sign, and ends with its fraction. -/
theorem isTimestamp_iff_of_scanned (h : Scanned s) :
    IsTimestamp s ↔ Scan.Plain (s.take 15) ∧ IsFraction (s.drop 15) := by
  constructor
  · rintro ⟨date, time, frac, rfl, hdate, htime, hdigits, hfrac⟩
    have hsplit : date ++ 'T' :: (time ++ frac) = (date ++ 'T' :: time) ++ frac := by simp
    have hlen : (date ++ 'T' :: time).length = 15 := by
      simp only [List.length_append, List.length_cons]
      omega
    rw [hsplit, List.take_left' hlen, List.drop_left' hlen]
    refine ⟨fun c hc => ?_, hfrac⟩
    rcases List.mem_append.mp hc with hc | hc
    · exact Scan.plain_of_isDigit (hdigits c (List.mem_append_left _ hc))
    · rcases List.mem_cons.mp hc with rfl | hc
      · decide
      · exact Scan.plain_of_isDigit (hdigits c (List.mem_append_right _ hc))
  · rintro ⟨hplain, hfrac⟩
    obtain ⟨t, rest, ht, hrest, hlen, -⟩ := h
    obtain ⟨date, hdate, hd⟩ := Scan.fields_split ht
    obtain ⟨time, htime, htm⟩ := Scan.fields_split hrest
    have hs : s = (date ++ 'T' :: time) ++ rest := by
      rw [hdate, htime]
      simp
    have hhead : (date ++ 'T' :: time).length = 15 := by
      have := congrArg List.length hs
      rw [List.length_append] at this
      omega
    rw [hs, List.take_left' hhead] at hplain
    rw [hs, List.drop_left' hhead] at hfrac
    obtain ⟨hd₁, hd₂⟩ := hd fun c hc => hplain c (List.mem_append_left _ hc)
    obtain ⟨ht₁, ht₂⟩ := htm fun c hc => hplain c (List.mem_append_right _ (List.mem_cons_of_mem _ hc))
    -- fifteen characters are only there if each field has its width
    simp only [List.length_append, List.length_cons] at hhead
    have hsum₁ : [4, 2, 2].sum = 8 := rfl
    have hsum₂ : [2, 2, 2].sum = 6 := rfl
    refine ⟨date, time, rest, by rw [hs]; simp, by omega, by omega, fun c hc => ?_, hfrac⟩
    rcases List.mem_append.mp hc with hc | hc
    · exact hd₂ c hc
    · exact ht₂ c hc

end Timestamp

/-! ## Numbers and types -/

/-- A quotient that is cut off is 0 to 3. -/
theorem tdiv_range {n d : Int} (hd : 0 < d) : 0 ≤ n.tdiv d ∧ n.tdiv d ≤ 3 ↔ -d < n ∧ n < 4 * d := by
  rcases le_total 0 n with hn | hn
  · rw [Int.tdiv_eq_ediv_of_nonneg hn]
    have h₀ : 0 ≤ n / d := Int.ediv_nonneg hn hd.le
    have h₁ : n / d < 4 ↔ n < 4 * d := Int.ediv_lt_iff_lt_mul hd
    omega
  · obtain ⟨m, rfl⟩ : ∃ m, n = -m := ⟨-n, by omega⟩
    rw [Int.neg_tdiv, Int.tdiv_eq_ediv_of_nonneg (by omega)]
    have h₀ : 0 ≤ m / d := Int.ediv_nonneg (by omega) hd.le
    have h₁ : m / d < 1 ↔ m < 1 * d := Int.ediv_lt_iff_lt_mul hd
    omega

/-- A number reads as 0 to 3. -/
theorem valueint_range (v : ℚ) : 0 ≤ (Json.num v).valueint ∧ (Json.num v).valueint ≤ 3 ↔ -1 < v ∧ v < 4 := by
  have hden : (0 : Int) < v.den := Int.natCast_pos.mpr v.den_pos
  have hclamp : 0 ≤ (Json.num v).valueint ∧ (Json.num v).valueint ≤ 3 ↔
      0 ≤ v.num.tdiv v.den ∧ v.num.tdiv v.den ≤ 3 := by
    show 0 ≤ max intMin (min intMax (v.num.tdiv v.den)) ∧ max intMin (min intMax (v.num.tdiv v.den)) ≤ 3 ↔ _
    unfold intMin intMax
    omega
  rw [hclamp, tdiv_range hden, Rat.lt_iff (-1) v, Rat.lt_iff v 4]
  simp

/-- The loop over the elements, once a known type has been seen. -/
theorem checkTypes_seen (l : List Json) : checkTypes true l = true ↔ ∀ j ∈ l, j.isNumber = true := by
  induction l with
  | nil => simp [checkTypes]
  | cons j l ih =>
    unfold checkTypes
    cases hj : j.isNumber with
    | false => simp [hj]
    | true =>
      rw [if_pos rfl, List.forall_mem_cons]
      simp [ih, hj]

/-- The first element alone is looked up. -/
theorem checkTypes_first (j : Json) (l : List Json) :
    checkTypes false (j :: l) = true ↔ j.valueint ∈ validTypes ∧ ∀ x ∈ j :: l, x.isNumber = true := by
  unfold checkTypes
  cases hj : j.isNumber with
  | false => simp [hj]
  | true =>
    rw [if_pos rfl, List.forall_mem_cons]
    by_cases hk : j.valueint ∈ validTypes
    · simp [hk, hj, checkTypes_seen]
    · simp [hk]

theorem KnownType.number {j : Json} (h : KnownType j) : j.isNumber = true ∧ j.valueint ∈ validTypes := by
  obtain ⟨n, hn, rfl⟩ := h
  have hrange : ∀ n ∈ validTypes, intMin ≤ n ∧ n ≤ intMax := by decide
  obtain ⟨h₀, h₁⟩ := hrange n hn
  refine ⟨rfl, ?_⟩
  rwa [Json.valueint_int h₀ h₁]

/-! ## Items -/

section Items

variable {e : FcItem} {key : CStr} {j : Json}

theorem fcType_typeKeys : ∀ k ∈ typeKeys, fcType k = some .intArray ∧ k ≠ "fo".toList := by decide

theorem fcType_fo : fcType "fo".toList = some .enum := by decide

/-- An item whose type has no check of its own. -/
theorem validFcItem_iff_fo : ValidFcItem ("fo".toList, j) ↔ ∃ v, j = .num v ∧ 0 ≤ v ∧ v ≤ 3 := by
  constructor
  · exact fun h => h.fo rfl
  · intro h
    have hfo := fcType_fo
    refine ⟨?_, fun _ => h, fun ht => ?_, fun ht => ?_, fun ht => ?_, fun ht => absurd ht (by dsimp only; decide)⟩
    all_goals dsimp only at *
    · rw [hfo]
      simp
    all_goals rw [hfo] at ht
    all_goals cases ht

theorem validFcItem_iff_types (h : key ∈ typeKeys) : ValidFcItem (key, j) ↔ ∀ x ∈ j.elements, KnownType x := by
  obtain ⟨htype, hfo⟩ := fcType_typeKeys key h
  constructor
  · exact fun hv => hv.types h
  · intro hx
    refine ⟨?_, fun hf => absurd hf hfo, fun ht => ?_, fun ht => ?_, fun ht => ?_, fun _ => hx⟩
    all_goals dsimp only at *
    · rw [htype]
      simp
    all_goals rw [htype] at ht
    all_goals cases ht

/-- The other items are checked by their type. -/
theorem validFcItem_iff_other {t : FcValueType} (ht : fcType key = some t) (hfo : key ≠ "fo".toList)
    (hty : key ∉ typeKeys) : ValidFcItem (key, j) ↔
      (t = .timestamp → ∃ s, j = .str s ∧ IsTimestamp s) ∧ (t = .nonNegInt → ∃ v, j = .num v ∧ 0 ≤ v) ∧
        (t = .posInt → ∃ v, j = .num v ∧ 0 < v) := by
  have hinj : ∀ u, fcType key = some u ↔ t = u := fun u => by rw [ht, Option.some.injEq]
  constructor
  · intro h
    exact ⟨fun he => h.timestamp ((hinj _).mpr he), fun he => h.nonNegInt ((hinj _).mpr he),
      fun he => h.posInt ((hinj _).mpr he)⟩
  · rintro ⟨h₁, h₂, h₃⟩
    refine ⟨?_, fun hf => absurd hf hfo, fun hu => h₁ ((hinj _).mp hu), fun hu => h₂ ((hinj _).mp hu),
      fun hu => h₃ ((hinj _).mp hu), fun hf => absurd hf hty⟩
    dsimp only
    rw [ht]
    simp

/-- What is let through is not as declared. -/
theorem LetThrough.not_valid (h : LetThrough e) : ¬ ValidFcItem e := by
  intro hv
  cases h with
  | fraction h =>
    obtain ⟨w, hw, h₀, h₁⟩ := hv.fo rfl
    cases hw
    rcases h with h | h
    · exact absurd h₀ (not_le.mpr h.2)
    · exact absurd h₁ (not_le.mpr h.1)
  | zero h =>
    obtain ⟨w, hw, h₀⟩ := hv.posInt h
    cases hw
    exact absurd h₀ (lt_irrefl _)
  | notNumber h hj =>
    rcases h with h | h
    · obtain ⟨w, rfl, -⟩ := hv.posInt h
      cases hj
    · obtain ⟨w, rfl, -⟩ := hv.nonNegInt h
      cases hj
  | loose h hs hloose =>
    obtain ⟨s, hw, ht⟩ := hv.timestamp h
    cases hw
    obtain ⟨h₁, h₂⟩ := (isTimestamp_iff_of_scanned hs).mp ht
    rcases hloose with h' | h'
    · exact h' h₁
    · exact h' h₂
  | @single key j h hj hone hk =>
    have helems := hv.types h
    cases j with
    | arr l =>
      obtain rfl : l = [] := hj
      exact hone rfl
    | _ => exact hk (helems _ List.mem_cons_self)
  | behind h hj hfirst hnum hk =>
    obtain ⟨x, hx, hn⟩ := hk
    exact hn (hv.types h x hx)

theorem KeptOut.valid (h : KeptOut e) : ValidFcItem e := by
  cases h with
  | @zero key h =>
    have hfo : key ≠ "fo".toList := by
      rintro rfl
      rw [fcType_fo] at h
      cases h
    have hty : key ∉ typeKeys := by
      intro hk
      rw [(fcType_typeKeys key hk).1] at h
      cases h
    rw [validFcItem_iff_other h hfo hty]
    exact ⟨nofun, fun _ => ⟨0, rfl, le_refl _⟩, nofun⟩

theorem checkFcItem_fo : checkFcItem ("fo".toList, j) = some true ↔ ∃ v, j = .num v ∧ -1 < v ∧ v < 4 := by
  unfold checkFcItem
  rw [if_pos rfl]
  simp only [Option.some.injEq, Bool.and_eq_true, decide_eq_true_eq, and_assoc]
  cases j with
  | num v =>
    rw [valueint_range]
    simp [Json.isNumber]
  | _ => simp [Json.isNumber]

theorem checkFcItem_types (h : key ∈ typeKeys) : checkFcItem (key, j) = some (checkTypes false j.items) := by
  unfold checkFcItem
  rw [if_neg (fcType_typeKeys key h).2, if_pos (List.contains_iff_mem.mpr h)]

/-- Keys of the other types are none of those that are looked at by name. -/
theorem key_of_type {t : FcValueType} (h : fcType key = some t) (henum : t ≠ .enum) (harr : t ≠ .intArray) :
    key ≠ "fo".toList ∧ key ∉ typeKeys := by
  refine ⟨?_, fun hk => ?_⟩
  · rintro rfl
    rw [fcType_fo] at h
    exact henum (Option.some.inj h).symm
  · rw [(fcType_typeKeys key hk).1] at h
    exact harr (Option.some.inj h).symm

theorem checkFcItem_timestamp (h : fcType key = some .timestamp) :
    checkFcItem (key, j) = j.valuestring.map readsTimestamp := by
  obtain ⟨hfo, hty⟩ := key_of_type h (by decide) (by decide)
  unfold checkFcItem
  rw [if_neg hfo, if_neg (by simpa using hty)]
  dsimp only
  rw [h]

theorem checkFcItem_nonNegInt (h : fcType key = some .nonNegInt) :
    checkFcItem (key, j) = some ((numberValue j).all (0 < ·)) := by
  obtain ⟨hfo, hty⟩ := key_of_type h (by decide) (by decide)
  unfold checkFcItem
  rw [if_neg hfo, if_neg (by simpa using hty)]
  dsimp only
  rw [h]

theorem checkFcItem_posInt (h : fcType key = some .posInt) :
    checkFcItem (key, j) = some ((numberValue j).all (0 ≤ ·)) := by
  obtain ⟨hfo, hty⟩ := key_of_type h (by decide) (by decide)
  unfold checkFcItem
  rw [if_neg hfo, if_neg (by simpa using hty)]
  dsimp only
  rw [h]

/-- An item of a type that is not checked. -/
theorem checkFcItem_free {t : FcValueType} (h : fcType key = some t) (hfo : key ≠ "fo".toList) (hty : key ∉ typeKeys)
    (ht : t ≠ .timestamp ∧ t ≠ .nonNegInt ∧ t ≠ .posInt) : checkFcItem (key, j) = some true := by
  unfold checkFcItem
  rw [if_neg hfo, if_neg (by simpa using hty)]
  dsimp only
  rw [h]
  cases t with
  | timestamp => exact absurd rfl ht.1
  | nonNegInt => exact absurd rfl ht.2.1
  | posInt => exact absurd rfl ht.2.2
  | _ => rfl

theorem letThrough_fo_iff : LetThrough ("fo".toList, j) ↔ ∃ v, j = .num v ∧ (-1 < v ∧ v < 0 ∨ 3 < v ∧ v < 4) := by
  constructor
  · intro h
    cases h with
    | fraction h => exact ⟨_, rfl, h⟩
    | zero h =>
      rw [fcType_fo] at h
      cases h
    | notNumber h hj =>
      rw [fcType_fo] at h
      rcases h with h | h <;> cases h
    | loose h hs hloose =>
      rw [fcType_fo] at h
      cases h
    | single h hj hone hk => exact absurd h (by decide)
    | behind h hj hfirst hnum hk => exact absurd h (by decide)
  · rintro ⟨v, rfl, h⟩
    exact .fraction h

/-- What is let through under a key that has another type than "fo". -/
theorem LetThrough.elim {t : FcValueType} (ht : fcType key = some t) (henum : t ≠ .enum) (h : LetThrough (key, j)) :
    (t = .posInt ∧ (j = .num 0 ∨ j.isNumber = false)) ∨ (t = .nonNegInt ∧ j.isNumber = false) ∨
      (t = .timestamp ∧ ∃ s, j = .str s ∧ Scanned s ∧ (¬ Scan.Plain (s.take 15) ∨ ¬ IsFraction (s.drop 15))) ∨
      (key ∈ typeKeys ∧ ((j.items = [] ∧ j.elements ≠ [] ∧ ¬ KnownType j) ∨
        ∃ first rest, j.items = first :: rest ∧ first.valueint ∈ validTypes ∧ (∀ x ∈ first :: rest, x.isNumber = true) ∧
          ∃ x ∈ j.elements, ¬ KnownType x)) := by
  have hinj : ∀ u, fcType key = some u → t = u := fun u hu => Option.some.inj (ht.symm.trans hu)
  cases h with
  | fraction h =>
    rw [fcType_fo] at ht
    exact absurd (Option.some.inj ht).symm henum
  | zero h => exact .inl ⟨hinj _ h, .inl rfl⟩
  | notNumber h hj =>
    rcases h with h | h
    · exact .inl ⟨hinj _ h, .inr hj⟩
    · exact .inr (.inl ⟨hinj _ h, hj⟩)
  | loose h hs hloose => exact .inr (.inr (.inl ⟨hinj _ h, _, rfl, hs, hloose⟩))
  | single h hj hone hk => exact .inr (.inr (.inr ⟨h, .inl ⟨hj, hone, hk⟩⟩))
  | behind h hj hfirst hnum hk => exact .inr (.inr (.inr ⟨h, .inr ⟨_, _, hj, hfirst, hnum, hk⟩⟩))

theorem KeptOut.elim (h : KeptOut (key, j)) : fcType key = some .nonNegInt ∧ j = .num 0 := by
  cases h with
  | zero h => exact ⟨h, rfl⟩

/-- A list of types passes where it is as declared or is let through. -/
theorem checkTypes_iff (h : key ∈ typeKeys) :
    checkTypes false j.items = true ↔ (∀ x ∈ j.elements, KnownType x) ∨ LetThrough (key, j) := by
  cases hitems : j.items with
  | nil =>
    refine iff_of_true rfl ?_
    by_cases hone : j.elements = []
    · rw [hone]
      exact .inl (by simp)
    · by_cases hk : KnownType j
      · refine .inl fun x hx => ?_
        cases j with
        | arr l =>
          obtain rfl : l = [] := hitems
          exact absurd rfl hone
        | _ =>
          rw [List.mem_singleton.mp hx]
          exact hk
      · exact .inr (.single h hitems hone hk)
  | cons first rest =>
    rw [checkTypes_first]
    constructor
    · rintro ⟨hfirst, hnum⟩
      by_cases hk : ∀ x ∈ j.elements, KnownType x
      · exact .inl hk
      · simp only [not_forall] at hk
        obtain ⟨x, hx, hn⟩ := hk
        exact .inr (.behind h hitems hfirst hnum ⟨x, hx, hn⟩)
    · rintro (hk | hl)
      · have helems : j.elements = first :: rest := by
          cases j with
          | arr l => exact hitems
          | obj m => exact absurd (hk (.obj m) List.mem_cons_self).number.1 (by simp [Json.isNumber])
          | _ => cases hitems
        rw [helems] at hk
        exact ⟨(hk first List.mem_cons_self).number.2, fun x hx => (hk x hx).number.1⟩
      · rcases hl.elim (fcType_typeKeys key h).1 (by decide) with ⟨ht, -⟩ | ⟨ht, -⟩ | ⟨ht, -⟩ | ⟨-, h' | h'⟩
        · cases ht
        · cases ht
        · cases ht
        · rw [hitems] at h'
          cases h'.1
        · obtain ⟨f, r, hj, hfirst, hnum, -⟩ := h'
          rw [hitems] at hj
          cases hj
          exact ⟨hfirst, hnum⟩

/-- A timestamp passes where it is as declared or is let through. -/
theorem checkFcItem_iff_timestamp {s : CStr} (h : fcType key = some .timestamp) :
    checkFcItem (key, .str s) = some true ↔ IsTimestamp s ∨ LetThrough (key, .str s) := by
  rw [checkFcItem_timestamp h]
  show some (readsTimestamp s) = some true ↔ _
  rw [Option.some.injEq, readsTimestamp_iff]
  constructor
  · intro hs
    by_cases hp : Scan.Plain (s.take 15) ∧ IsFraction (s.drop 15)
    · exact .inl ((isTimestamp_iff_of_scanned hs).mpr hp)
    · exact .inr (.loose h hs (not_and_or.mp hp))
  · rintro (ht | hl)
    · exact scanned_of_isTimestamp ht
    · rcases hl.elim h (by decide) with ⟨ht, -⟩ | ⟨ht, -⟩ | ⟨-, s', hs', hscan, -⟩ | ⟨hk, -⟩
      · cases ht
      · cases ht
      · cases hs'
        exact hscan
      · exact absurd hk (key_of_type h (by decide) (by decide)).2

/-- An item that has its string passes where it is as declared and not kept out, or is let through. -/
theorem checkFcItem_iff (hknown : fcType e.1 ≠ none) (hm : ¬ MissingString e) :
    checkFcItem e = some true ↔ ValidFcItem e ∧ ¬ KeptOut e ∨ LetThrough e := by
  obtain ⟨key, j⟩ := e
  by_cases hfo : key = "fo".toList
  · subst hfo
    have hkept : ¬ KeptOut ("fo".toList, j) := fun h => by
      have := h.elim.1
      rw [fcType_fo] at this
      cases this
    rw [checkFcItem_fo, validFcItem_iff_fo, letThrough_fo_iff, and_iff_left hkept]
    constructor
    · rintro ⟨v, rfl, h₀, h₁⟩
      rcases lt_or_ge v 0 with hv | hv
      · exact .inr ⟨v, rfl, .inl ⟨h₀, hv⟩⟩
      · rcases lt_or_ge 3 v with hv' | hv'
        · exact .inr ⟨v, rfl, .inr ⟨hv', h₁⟩⟩
        · exact .inl ⟨v, rfl, hv, hv'⟩
    · rintro (⟨v, rfl, h₀, h₁⟩ | ⟨v, rfl, ⟨h₀, h₁⟩ | ⟨h₀, h₁⟩⟩)
      · exact ⟨v, rfl, by linarith, by linarith⟩
      · exact ⟨v, rfl, h₀, by linarith⟩
      · exact ⟨v, rfl, by linarith, h₁⟩
  · by_cases hty : key ∈ typeKeys
    · have hkept : ¬ KeptOut (key, j) := fun h => by
        have := h.elim.1
        rw [(fcType_typeKeys key hty).1] at this
        cases this
      rw [checkFcItem_types hty, validFcItem_iff_types hty, and_iff_left hkept, Option.some.injEq]
      exact checkTypes_iff hty
    · obtain ⟨t, ht⟩ := Option.ne_none_iff_exists'.mp hknown
      dsimp only at ht
      have hvalid : ValidFcItem (key, j) ↔ _ := validFcItem_iff_other ht hfo hty
      by_cases hkept : KeptOut (key, j)
      · -- zero is read as no number that may be taken
        obtain ⟨h, rfl⟩ := hkept.elim
        rw [checkFcItem_nonNegInt h]
        refine iff_of_false (by simp [numberValue]) ?_
        rintro (⟨-, hn⟩ | hl)
        · exact hn hkept
        · exact hl.not_valid hkept.valid
      · rw [and_iff_left hkept, hvalid]
        cases t with
        | timestamp =>
          have hstr : ∃ s, j = .str s := by
            cases j with
            | str s => exact ⟨s, rfl⟩
            | _ => exact absurd ⟨ht, rfl⟩ hm
          obtain ⟨s, rfl⟩ := hstr
          rw [checkFcItem_iff_timestamp ht]
          refine or_congr ⟨fun h => ⟨fun _ => ⟨s, rfl, h⟩, nofun, nofun⟩, ?_⟩ Iff.rfl
          rintro ⟨h, -, -⟩
          obtain ⟨s', hs', h'⟩ := h rfl
          cases hs'
          exact h'
        | nonNegInt =>
          rw [checkFcItem_nonNegInt ht, Option.some.injEq]
          cases j with
          | num v =>
            have hne : v ≠ 0 := by
              rintro rfl
              exact hkept (.zero ht)
            have hlet : ¬ LetThrough (key, .num v) := fun h => by
              rcases h.elim ht (by decide) with ⟨h, -⟩ | ⟨-, h⟩ | ⟨h, -⟩ | ⟨h, -⟩
              · cases h
              · cases h
              · cases h
              · exact hty h
            rw [or_iff_left hlet]
            simp only [numberValue, Option.all_some, decide_eq_true_eq]
            constructor
            · exact fun h => ⟨nofun, fun _ => ⟨v, rfl, h.le⟩, nofun⟩
            · rintro ⟨-, h, -⟩
              obtain ⟨w, hw, h₀⟩ := h trivial
              cases hw
              exact lt_of_le_of_ne h₀ hne.symm
          | _ => exact iff_of_true rfl (.inr (.notNumber (.inr ht) rfl))
        | posInt =>
          rw [checkFcItem_posInt ht, Option.some.injEq]
          cases j with
          | num v =>
            simp only [numberValue, Option.all_some, decide_eq_true_eq]
            constructor
            · intro h
              rcases h.lt_or_eq with h | rfl
              · exact .inl ⟨nofun, nofun, fun _ => ⟨v, rfl, h⟩⟩
              · exact .inr (.zero ht)
            · rintro (⟨-, -, h⟩ | h)
              · obtain ⟨w, hw, h₀⟩ := h trivial
                cases hw
                exact h₀.le
              · rcases h.elim ht (by decide) with ⟨-, h | h⟩ | ⟨h, -⟩ | ⟨h, -⟩ | ⟨h, -⟩
                · cases h
                  exact le_refl _
                · cases h
                · cases h
                · cases h
                · exact absurd h hty
          | _ => exact iff_of_true rfl (.inr (.notNumber (.inl ht) rfl))
        | _ =>
          rw [checkFcItem_free ht hfo hty ⟨by decide, by decide, by decide⟩]
          exact iff_of_true rfl (.inl ⟨nofun, nofun, nofun⟩)

/-- A missing string is read, and only there no result is had. -/
theorem checkFcItem_eq_none_iff : checkFcItem e = none ↔ MissingString e := by
  obtain ⟨key, j⟩ := e
  constructor
  · intro h
    unfold checkFcItem at h
    split at h
    · cases h
    · split at h
      · cases h
      · split at h
        · rename_i ht
          refine ⟨ht, ?_⟩
          cases j with
          | str s => cases h
          | _ => rfl
        all_goals cases h
  · rintro ⟨ht, hs⟩
    dsimp only at ht hs
    rw [checkFcItem_timestamp ht]
    cases j with
    | str s => cases hs
    | _ => rfl

theorem LetThrough.fcType_ne_none (h : LetThrough e) : fcType e.1 ≠ none := by
  cases h with
  | fraction h => exact fun hn => by rw [fcType_fo] at hn; cases hn
  | zero h => exact fun hn => by rw [h] at hn; cases hn
  | notNumber h hj => exact fun hn => by rcases h with h | h <;> rw [h] at hn <;> cases hn
  | loose h hs hloose => exact fun hn => by rw [h] at hn; cases hn
  | single h hj hone hk => exact fun hn => by rw [(fcType_typeKeys _ h).1] at hn; cases hn
  | behind h hj hfirst hnum hk => exact fun hn => by rw [(fcType_typeKeys _ h).1] at hn; cases hn

theorem MissingString.refused (h : MissingString e) : FcRefused e := by
  obtain ⟨key, j⟩ := e
  obtain ⟨ht, hs⟩ := h
  dsimp only at ht hs
  refine ⟨fun hv => ?_, fun hl => ?_⟩
  · obtain ⟨s, rfl, -⟩ := hv.timestamp ht
    cases hs
  · rcases hl.elim ht (by decide) with ⟨h, -⟩ | ⟨h, -⟩ | ⟨-, s, rfl, -⟩ | ⟨h, -⟩
    · cases h
    · cases h
    · cases hs
    · exact (key_of_type ht (by decide) (by decide)).2 h

/-- An item passes where it is neither kept out nor refused. -/
theorem checkFcItem_iff_refused (hknown : fcType e.1 ≠ none) :
    checkFcItem e = some true ↔ ¬ KeptOut e ∧ ¬ FcRefused e := by
  by_cases hm : MissingString e
  · rw [checkFcItem_eq_none_iff.mpr hm]
    exact iff_of_false nofun fun h => h.2 hm.refused
  · rw [checkFcItem_iff hknown hm]
    unfold FcRefused
    constructor
    · rintro (⟨hv, hk⟩ | hl)
      · exact ⟨hk, fun h => h.1 hv⟩
      · exact ⟨fun h => hl.not_valid h.valid, fun h => h.2 hl⟩
    · rintro ⟨hk, hr⟩
      by_cases hv : ValidFcItem e
      · exact .inl ⟨hv, hk⟩
      · exact .inr (by_contra fun hl => hr ⟨hv, hl⟩)

end Items

/-! ## The criteria -/

section Criteria

variable {fc : List FcItem} {e : FcItem}

theorem isValidFcAttr_iff (key : CStr) : isValidFcAttr key = true ↔ fcType key ≠ none := by
  unfold isValidFcAttr fcType
  rw [Ne, Option.map_eq_none_iff, List.find?_eq_none]
  simp [List.any_eq_true]

theorem isFCAttrValid_true_iff : isFCAttrValid fc = some true ↔ ∀ e ∈ fc, checkFcItem e = some true := by
  induction fc with
  | nil => simp [isFCAttrValid]
  | cons e fc ih =>
    unfold isFCAttrValid
    rw [List.forall_mem_cons]
    cases checkFcItem e with
    | none => simp
    | some b =>
      cases b with
      | false => simp
      | true => simpa using ih

/-- A missing string is read where all in front of it passes. -/
theorem isFCAttrValid_none_iff : isFCAttrValid fc = none ↔
    ∃ pre e post, fc = pre ++ e :: post ∧ MissingString e ∧ ∀ x ∈ pre, checkFcItem x = some true := by
  induction fc with
  | nil => simp [isFCAttrValid]
  | cons a fc ih =>
    have hstep : isFCAttrValid (a :: fc) = none ↔
        checkFcItem a = none ∨ checkFcItem a = some true ∧ isFCAttrValid fc = none := by
      rw [isFCAttrValid]
      cases checkFcItem a with
      | none => simp
      | some b => cases b <;> simp
    rw [hstep, checkFcItem_eq_none_iff, ih]
    constructor
    · rintro (hm | ⟨ha, pre, e, post, rfl, he, hpre⟩)
      · exact ⟨[], a, fc, rfl, hm, by simp⟩
      · exact ⟨a :: pre, e, post, rfl, he, List.forall_mem_cons.mpr ⟨ha, hpre⟩⟩
    · rintro ⟨pre, e, post, heq, he, hpre⟩
      cases pre with
      | nil =>
        cases heq
        exact .inl he
      | cons x pre =>
        cases heq
        obtain ⟨hx, hpre⟩ := List.forall_mem_cons.mp hpre
        exact .inr ⟨hx, pre, e, post, rfl, he, hpre⟩

/-- No item in front of a missing string is kept out or refused exactly where it is read. -/
theorem stringsRead_iff (hknown : ∀ e ∈ fc, fcType e.1 ≠ none) : StringsRead fc ↔ isFCAttrValid fc ≠ none := by
  have hpass := fun e he => checkFcItem_iff_refused (hknown e he)
  rw [Ne, isFCAttrValid_none_iff]
  constructor
  · rintro (⟨e, he, hnone⟩ | hread)
    · exact absurd hnone (hknown e he)
    · rintro ⟨pre, e, post, rfl, hm, hpre⟩
      obtain ⟨x, hx, hbad⟩ := hread pre e post rfl hm
      have hx' := hpre x hx
      obtain ⟨hk, hr⟩ := (hpass x (List.mem_append_left _ hx)).mp hx'
      exact hbad.elim hk hr
  · intro hread
    refine .inr fun pre e post hfc hm => by_contra fun hno => hread ⟨pre, e, post, hfc, hm, fun x hx => ?_⟩
    exact (hpass x (by rw [hfc]; exact List.mem_append_left _ hx)).mpr
      ⟨fun h => hno ⟨x, hx, .inl h⟩, fun h => hno ⟨x, hx, .inr h⟩⟩

/-- Of known keys the items decide. -/
theorem validate_known (hknown : ∀ e ∈ fc, fcType e.1 ≠ none) :
    (validateFilterCriteria fc = some .ok ↔ isFCAttrValid fc = some true) ∧
      ((∃ verdict, validateFilterCriteria fc = some verdict) ↔ isFCAttrValid fc ≠ none) := by
  have hfind : (fc.find? fun e => !isValidFcAttr e.1) = none := by
    rw [List.find?_eq_none]
    intro e he
    simp [(isValidFcAttr_iff e.1).mpr (hknown e he)]
  unfold validateFilterCriteria
  rw [hfind]
  dsimp only
  generalize "Invalid Filter Criteria".toList = text
  cases isFCAttrValid fc with
  | none => simp
  | some b => cases b <;> simp

/-- Criteria, those that `parse_qs` gives among them, are checked without a missing string being read, and pass exactly
where every item is as declared, if and only if no missing string is reached, and an item is refused, or what is let through
and what is kept out are both there or neither. -/
theorem criteria_checked_iff (fc : List FcItem) :
    ((∃ verdict, validateFilterCriteria fc = some verdict) ∧
      (validateFilterCriteria fc = some .ok ↔ ∀ e ∈ fc, ValidFcItem e)) ↔ CriteriaClear fc := by
  unfold CriteriaClear
  by_cases hknown : ∀ e ∈ fc, fcType e.1 ≠ none
  · obtain ⟨hok, hsome⟩ := validate_known hknown
    rw [stringsRead_iff hknown, hok, hsome, isFCAttrValid_true_iff]
    refine and_congr_right fun _ => ?_
    have hpass := fun e he => checkFcItem_iff_refused (hknown e he)
    by_cases href : ∃ e ∈ fc, FcRefused e
    · -- an item that is refused: neither side accepts
      obtain ⟨e, he, hr⟩ := href
      refine iff_of_true (iff_of_false (fun h => ?_) fun h => hr.1 (h e he)) (.inl ⟨e, he, hr⟩)
      exact ((hpass e he).mp (h e he)).2 hr
    · have hall : ∀ e ∈ fc, ¬ FcRefused e := fun e he hr => href ⟨e, he, hr⟩
      have hacc : (∀ e ∈ fc, checkFcItem e = some true) ↔ ¬ ∃ e ∈ fc, KeptOut e := by
        constructor
        · rintro h ⟨e, he, hk⟩
          exact ((hpass e he).mp (h e he)).1 hk
        · intro h e he
          exact (hpass e he).mpr ⟨fun hk => h ⟨e, he, hk⟩, hall e he⟩
      have hval : (∀ e ∈ fc, ValidFcItem e) ↔ ¬ ∃ e ∈ fc, LetThrough e := by
        constructor
        · rintro h ⟨e, he, hl⟩
          exact hl.not_valid (h e he)
        · intro h e he
          by_contra hv
          exact hall e he ⟨hv, fun hl => h ⟨e, he, hl⟩⟩
      rw [hacc, hval, or_iff_right href, not_iff_not]
      exact ⟨Iff.symm, Iff.symm⟩
  · -- a key that is not in the table
    simp only [not_forall] at hknown
    obtain ⟨e, he, hn⟩ := hknown
    have hunknown : fcType e.1 = none := not_not.mp hn
    have hfind : ∃ e, (fc.find? fun e => !isValidFcAttr e.1) = some e := by
      refine Option.isSome_iff_exists.mp (List.find?_isSome.mpr ⟨e, he, ?_⟩)
      have := mt (isValidFcAttr_iff e.1).mp hn
      simpa using this
    obtain ⟨e', hfind⟩ := hfind
    have hrefused : FcRefused e := ⟨fun h => hn h.known, fun h => h.fcType_ne_none hunknown⟩
    unfold validateFilterCriteria
    rw [hfind]
    refine iff_of_true ⟨⟨_, rfl⟩, iff_of_false (by simp) fun h => hn (h e he).known⟩
      ⟨.inl ⟨e, he, hunknown⟩, .inl ⟨e, he, hrefused⟩⟩

end Criteria

/-- A limit of zero is not negative, and is refused. -/
theorem criteria_limitZero : ¬ ∀ qs fc, parseQs qs = some fc →
    (∃ verdict, validateFilterCriteria fc = some verdict) ∧
      (validateFilterCriteria fc = some .ok ↔ ∀ e ∈ fc, ValidFcItem e) := by
  intro h
  have hparse : parseQs [("lim".toList, .str "0".toList)] = some [("lim".toList, Json.int 0), ("fo".toList, Json.int 1)] := by
    rfl
  have hlim : ValidFcItem ("lim".toList, Json.int 0) := KeptOut.valid (.zero (by decide))
  have hfo : ValidFcItem ("fo".toList, Json.int 1) := validFcItem_iff_fo.mpr ⟨1, rfl, by norm_num, by norm_num⟩
  have hok := (h _ _ hparse).2.mpr fun e he => by
    rcases List.mem_cons.mp he with rfl | he
    · exact hlim
    · rw [List.mem_singleton.mp he]
      exact hfo
  exact absurd hok (by decide)

end TinyIoT
