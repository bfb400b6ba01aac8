/-
The query of a request: a path with percent-encoded pairs behind it, read by `uri_unescape` and `qs_to_json`. The uri is
unescaped as a whole before it is split, '+' means a space behind the first escape sequence and a separator before it, and
the pairs are put together as a JSON text in a buffer of 256 bytes.
-/
import TinyIoT.Http.Headers
import TinyIoT.Http.JsonReader

namespace TinyIoT

open JsonText (Value)

/-! ## `qs_to_json` -/

/-- The text of a pair in the buffer; a value with '+' is a list of its tokens. -/
def pairText (key value : CStr) : CStr :=
  if '+' ∈ value then
    (quoted key ++ [':', '[', '"'] ++ ((value.splitOn '+').filter (· ≠ [])).flatMap (· ++ ['"', ',', '"'])).dropLast.dropLast ++
      [']', ',']
  else quoted key ++ ':' :: quoted value ++ [',']

/-- The loop over the query: where the key and the value begin, the characters from the last delimiter on, and the text. -/
structure QueryScan where
  key : Option CStr
  value : Option CStr
  piece : CStr
  text : CStr

namespace QueryScan

/-- A pair is written as soon as there is a key and a value. -/
def flush (q : QueryScan) : QueryScan :=
  match q.key, q.value with
  | some key, some value => { q with key := none, value := none, text := q.text ++ pairText key value }
  | _, _ => q

/-- One turn of the loop; the last one is at the end of the string. -/
def turn (q : QueryScan) : Option Char → QueryScan
  | none => { q with value := some q.piece, piece := [] }.flush
  | some c =>
    if c = '=' then { q with key := some q.piece, piece := [] }.flush
    else if c = '&' then { q with value := some q.piece, piece := [] }.flush
    else { q with piece := q.piece ++ [c] }.flush

/-- The turns at the characters of a text. -/
def turns (q : QueryScan) (s : CStr) : QueryScan := s.foldl (fun q c => q.turn (some c)) q

end QueryScan

/-- The JSON text of a query; none where the buffer is too small. The last character is overwritten. -/
def queryText (qs : CStr) : Option CStr :=
  let q := ((QueryScan.mk none none [] ['\x7b']).turns qs).turn none
  if q.text.length < 256 then some (q.text.dropLast ++ ['\x7d']) else none

/-- `qs_to_json`. -/
def qsToJson (qs : CStr) : Option Value := (queryText qs).bind cjsonParse

/-! ## Queries -/

/-- A value: a string, or a list of two strings or more. -/
inductive QueryValue where
  | one (value : CStr)
  | many (first second : CStr) (rest : List CStr)

/-- A part of a query between two '&'. -/
inductive QuerySegment where
  | pair (key : CStr) (value : QueryValue)
  | bare (text : CStr)

/-- A byte that is not a control character. -/
def isPrintable (c : Char) : Bool := ' ' ≤ c && c.toNat < 256 && c.toNat ≠ 127

/-- The characters that percent-encoding leaves as they are. -/
def isUnreserved (c : Char) : Bool := c.isAlphanum || c = '-' || c = '.' || c = '_' || c = '~'

def hexDigitOf (n : Nat) : Char := Char.ofNat (if n < 10 then 48 + n else 55 + n)

def percentEncode (s : CStr) : CStr :=
  s.flatMap fun c => if isUnreserved c then [c] else ['%', hexDigitOf (c.toNat / 16), hexDigitOf (c.toNat % 16)]

namespace QueryValue

/-- The strings of a value. -/
def parts : QueryValue → List CStr
  | one v => [v]
  | many a b rest => a :: b :: rest

/-- The strings joined by '+', each written by `f`. -/
def write (f : CStr → CStr) (v : QueryValue) : CStr := ['+'].intercalate (v.parts.map f)

/-- What the value is in the JSON object. -/
def json : QueryValue → Value
  | one v => .str v
  | many a b rest => .arr ((a :: b :: rest).map .str)

/-- The value in the JSON text. -/
def text : QueryValue → CStr
  | one v => quoted v
  | many a b rest => '[' :: ([','].intercalate ((a :: b :: rest).map quoted) ++ [']'])

end QueryValue

namespace QuerySegment

def isPair : QuerySegment → Bool
  | pair _ _ => true
  | bare _ => false

/-- The strings of a segment. -/
def strings : QuerySegment → List CStr
  | pair key value => key :: value.parts
  | bare text => [text]

/-- The segment, with its strings written by `f`. -/
def write (f : CStr → CStr) : QuerySegment → CStr
  | pair key value => f key ++ '=' :: value.write f
  | bare text => f text

/-- What the segment adds to the object. -/
def members : QuerySegment → List (CStr × Value)
  | pair key value => [(key, value.json)]
  | bare _ => []

/-- What the segment adds to the JSON text, with a comma behind it. -/
def text : QuerySegment → CStr
  | pair key value => quoted key ++ ':' :: value.text ++ [',']
  | bare _ => []

end QuerySegment

/-- A query, with its strings written by `f`. -/
def writeQuery (f : CStr → CStr) (segs : List QuerySegment) : CStr := ['&'].intercalate (segs.map (QuerySegment.write f))

/-- A path with a query behind it. -/
def queryUri (path : CStr) (segs : List QuerySegment) : CStr := path ++ '?' :: writeQuery percentEncode segs

/-- A path, and strings that can be encoded. -/
structure QueryGiven (path : CStr) (segs : List QuerySegment) : Prop where
  path : ∀ c ∈ path, isPrintable c = true ∧ c ≠ ' ' ∧ c ≠ '?'
  strings : ∀ g ∈ segs, ∀ s ∈ g.strings, ∀ c ∈ s, isPrintable c = true

/-- Parsing gives back the path, the pairs and nothing else. -/
def GivesBack (path : CStr) (segs : List QuerySegment) : Prop :=
  ∀ (l : RequestLine) (s : CStr), l.uri = queryUri path segs → ∃ qs,
    parseHttpRequest (l.print ++ s) =
      (readMessage ('\n' :: s)).map (fun m => ⟨httpParseOperation l.method, path, some qs, l.prot, m⟩) ∧
    qsToJson qs = some (.obj (segs.flatMap QuerySegment.members))

/-! ## What survives -/

/-- A string that neither ends a key or a value nor needs an escape sequence in the JSON text. -/
def SafeString (s : CStr) : Prop := ∀ c ∈ s, c ≠ '&' ∧ c ≠ '=' ∧ c ≠ '"' ∧ c ≠ '\\'

/-- The strings of a value are told apart again. -/
def QueryValue.Safe (v : QueryValue) : Prop :=
  (∀ s ∈ v.parts, SafeString s ∧ '+' ∉ s) ∧ (1 < v.parts.length → ∀ s ∈ v.parts, s ≠ [])

/-- A pair is safe, and a bare segment holds no '='. -/
def QuerySegment.Safe : QuerySegment → Prop
  | .pair key value => SafeString key ∧ value.Safe
  | .bare text => '=' ∉ text

/-- The queries that are read as they are written. -/
structure QueryReadable (path : CStr) (segs : List QuerySegment) : Prop where
  /-- The path is unescaped with the rest. -/
  literal : '%' ∉ path
  safe : ∀ g ∈ segs, g.Safe
  /-- A bare segment is taken for the value of the next key. -/
  pairsFirst : segs.Pairwise fun g g' => g'.isPair = true → g.isPair = true
  pair : ∃ g ∈ segs, g.isPair = true
  /-- Behind an escape sequence a '+' is a space. -/
  joined : '+' ∉ (queryUri path segs).dropWhile (· ≠ '%')
  short : (segs.flatMap QuerySegment.text).length < 255

/-! ## Unescaping -/

section Unescape

variable {s t u : CStr} {c : Char}

/-- A digit of an escape sequence has the value it was made for. -/
theorem hexValue_hexDigitOf {n : Nat} (h : n < 16) : hexValue (hexDigitOf n) = n ∧ isUnreserved (hexDigitOf n) = true := by
  have hall : ∀ n : Fin 16, hexValue (hexDigitOf n) = n ∧ isUnreserved (hexDigitOf n) = true := by decide
  exact hall ⟨n, h⟩

/-- `uri_unescape` where there are no spaces and every '+' is ahead of the first '%'. -/
def unescapeAll : CStr → CStr
  | [] => []
  | '%' :: a :: b :: s => Char.ofNat ((hexValue a * 16 + hexValue b) % 256) :: unescapeAll s
  | c :: s => c :: unescapeAll s

theorem unescapeAll_cons (h : c ≠ '%') (s : CStr) : unescapeAll (c :: s) = c :: unescapeAll s := by
  rw [unescapeAll]
  rintro a b s' rfl
  exact absurd rfl h

theorem unescapeAll_append (h : '%' ∉ s) (t : CStr) : unescapeAll (s ++ t) = s ++ unescapeAll t := by
  induction s with
  | nil => rfl
  | cons c s ih =>
    rw [List.cons_append, unescapeAll_cons (fun hc => h (hc ▸ List.mem_cons_self)), ih fun hm => h (List.mem_cons_of_mem _ hm)]
    rfl

/-- What is encoded is read back, whatever comes behind it. -/
theorem unescapeAll_percentEncode (h : ∀ c ∈ s, isPrintable c = true) (t : CStr) :
    unescapeAll (percentEncode s ++ t) = s ++ unescapeAll t := by
  induction s with
  | nil => rfl
  | cons c s ih =>
    have hs := ih fun c hc => h c (List.mem_cons_of_mem _ hc)
    have hcons : percentEncode (c :: s) ++ t = (if isUnreserved c then [c] else
        ['%', hexDigitOf (c.toNat / 16), hexDigitOf (c.toNat % 16)]) ++ (percentEncode s ++ t) := by
      unfold percentEncode
      rw [List.flatMap_cons, List.append_assoc]
    rw [hcons]
    by_cases hc : isUnreserved c = true
    · rw [if_pos hc]
      refine (unescapeAll_cons ?_ _).trans (congrArg (c :: ·) hs)
      rintro rfl
      cases hc
    · have hlt : c.toNat < 256 := by
        have := h c List.mem_cons_self
        unfold isPrintable at this
        simp only [Bool.and_eq_true, decide_eq_true_eq] at this
        exact this.1.2
      rw [if_neg hc]
      show Char.ofNat ((hexValue (hexDigitOf (c.toNat / 16)) * 16 + hexValue (hexDigitOf (c.toNat % 16))) % 256) ::
        unescapeAll (percentEncode s ++ t) = c :: (s ++ unescapeAll t)
      rw [hs, (hexValue_hexDigitOf (by omega)).1, (hexValue_hexDigitOf (by omega)).1,
        show (c.toNat / 16 * 16 + c.toNat % 16) % 256 = c.toNat by omega, Char.ofNat_toNat]

/-- The characters of an encoded string. -/
theorem mem_percentEncode (h : ∀ c ∈ s, isPrintable c = true) (hc : c ∈ percentEncode s) : isUnreserved c = true ∨ c = '%' := by
  obtain ⟨d, hd, hc⟩ := List.mem_flatMap.mp hc
  split at hc
  · rename_i hun
    exact .inl (List.mem_singleton.mp hc ▸ hun)
  · have hlt : d.toNat < 256 := by
      have := h d hd
      unfold isPrintable at this
      simp only [Bool.and_eq_true, decide_eq_true_eq] at this
      exact this.1.2
    simp only [List.mem_cons, List.not_mem_nil, or_false] at hc
    rcases hc with rfl | rfl | rfl
    · exact .inr rfl
    · exact .inl (hexValue_hexDigitOf (by omega)).2
    · exact .inl (hexValue_hexDigitOf (by omega)).2

theorem unescapeRest_eq (h : ∀ c ∈ s, isSpace c = false ∧ c ≠ '+') : unescapeRest s = unescapeAll s := by
  induction s using unescapeAll.induct with
  | case1 => rfl
  | case2 a b s ih =>
    show _ :: unescapeRest s = _ :: unescapeAll s
    rw [ih fun c hc => h c (by simp [hc])]
  | case3 c s hne ih =>
    obtain ⟨hspace, hplus⟩ := h c List.mem_cons_self
    rw [unescapeRest.eq_4 c s hplus hne, unescapeAll.eq_3 c s hne, ih fun c hc => h c (List.mem_cons_of_mem _ hc), hspace,
      if_neg (by decide)]

/-- A uri without spaces, where '+' is ahead of every escape sequence. -/
theorem uriUnescape_eq (hspace : ∀ c ∈ u, isSpace c = false) (hplus : '+' ∉ u.dropWhile (· ≠ '%')) :
    uriUnescape u = cutNul (unescapeAll u) := by
  have hwhile : ∀ v : CStr, (∀ c ∈ v, isSpace c = false) →
      v.takeWhile (fun c => !isSpace c && c ≠ '%') = v.takeWhile (· ≠ '%') ∧
      v.dropWhile (fun c => !isSpace c && c ≠ '%') = v.dropWhile (· ≠ '%') := by
    intro v hv
    induction v with
    | nil => exact ⟨rfl, rfl⟩
    | cons c v ih =>
      obtain ⟨ih₁, ih₂⟩ := ih fun c hc => hv c (List.mem_cons_of_mem _ hc)
      rw [List.takeWhile_cons, List.takeWhile_cons, List.dropWhile_cons, List.dropWhile_cons, hv c List.mem_cons_self, ih₁, ih₂]
      exact ⟨rfl, rfl⟩
  obtain ⟨htake, hdrop⟩ := hwhile u hspace
  unfold uriUnescape
  rw [htake, hdrop, unescapeRest_eq]
  · have hout : '%' ∉ u.takeWhile (· ≠ '%') := fun hm => by simpa using List.mem_takeWhile_imp hm
    rw [← unescapeAll_append hout, List.takeWhile_append_dropWhile]
  · intro c hc
    exact ⟨hspace c ((List.dropWhile_suffix _).subset hc), fun he => hplus (he ▸ hc)⟩

/-- Parts are read back one by one. -/
theorem unescapeAll_intercalate {α : Type} {sep : Char} (hsep : sep ≠ '%') {f g : α → CStr} {l : List α}
    (h : ∀ a ∈ l, ∀ t, unescapeAll (f a ++ t) = g a ++ unescapeAll t) (t : CStr) :
    unescapeAll ([sep].intercalate (l.map f) ++ t) = [sep].intercalate (l.map g) ++ unescapeAll t := by
  induction l with
  | nil => rfl
  | cons a l ih =>
    have hl := ih fun a ha => h a (List.mem_cons_of_mem _ ha)
    cases l with
    | nil =>
      simp only [List.map_cons, List.map_nil, List.intercalate_singleton]
      exact h a List.mem_cons_self t
    | cons b l =>
      simp only [List.map_cons, List.intercalate_cons_cons, List.append_assoc, List.singleton_append] at hl ⊢
      rw [h a List.mem_cons_self, List.cons_append, List.cons_append, unescapeAll_cons hsep, hl]

theorem unescapeAll_segment {g : QuerySegment} (h : ∀ s ∈ g.strings, ∀ c ∈ s, isPrintable c = true) (t : CStr) :
    unescapeAll (g.write percentEncode ++ t) = g.write id ++ unescapeAll t := by
  cases g with
  | pair key value =>
    have hkey : ∀ c ∈ key, isPrintable c = true := h key List.mem_cons_self
    have hvalue : unescapeAll (value.write percentEncode ++ t) = value.write id ++ unescapeAll t :=
      unescapeAll_intercalate (by decide) (fun s hs => unescapeAll_percentEncode (h s (List.mem_cons_of_mem _ hs))) t
    show unescapeAll (percentEncode key ++ '=' :: value.write percentEncode ++ t) = key ++ '=' :: value.write id ++ unescapeAll t
    rw [List.append_assoc, unescapeAll_percentEncode hkey, List.cons_append, unescapeAll_cons (by decide), hvalue]
    simp
  | bare text => exact unescapeAll_percentEncode (h text List.mem_cons_self) t

variable {path : CStr} {segs : List QuerySegment}

/-- A character of joined texts is the separator, or one of a text. -/
theorem mem_intercalate {sep : Char} {l : List CStr} (h : c ∈ [sep].intercalate l) : c = sep ∨ ∃ s ∈ l, c ∈ s := by
  induction l with
  | nil => cases h
  | cons a l ih =>
    cases l with
    | nil =>
      rw [List.intercalate_singleton] at h
      exact .inr ⟨a, List.mem_cons_self, h⟩
    | cons b l =>
      rw [List.intercalate_cons_cons, List.append_assoc, List.singleton_append, List.mem_append, List.mem_cons] at h
      rcases h with h | rfl | h
      · exact .inr ⟨a, List.mem_cons_self, h⟩
      · exact .inl rfl
      · exact (ih h).imp_right fun ⟨s, hs, hc⟩ => ⟨s, List.mem_cons_of_mem _ hs, hc⟩

/-- A character of a query is a delimiter, or one of its strings. -/
theorem mem_writeQuery {f : CStr → CStr} (hc : c ∈ writeQuery f segs) :
    c ∈ ['=', '+', '&'] ∨ ∃ g ∈ segs, ∃ s ∈ g.strings, c ∈ f s := by
  rcases mem_intercalate hc with rfl | ⟨l, hl, hm⟩
  · exact .inl (by simp)
  · obtain ⟨g, hg, rfl⟩ := List.mem_map.mp hl
    cases g with
    | bare text => exact .inr ⟨_, hg, text, List.mem_cons_self, hm⟩
    | pair key value =>
      rcases List.mem_append.mp hm with hm | hm
      · exact .inr ⟨_, hg, key, List.mem_cons_self, hm⟩
      · rcases List.mem_cons.mp hm with rfl | hm
        · exact .inl (by simp)
        · rcases mem_intercalate hm with rfl | ⟨l, hl, hm⟩
          · exact .inl (by simp)
          · obtain ⟨s, hs, rfl⟩ := List.mem_map.mp hl
            exact .inr ⟨_, hg, s, List.mem_cons_of_mem _ hs, hm⟩

theorem isSpace_of_le (h : ' ' ≤ c) (hne : c ≠ ' ') : isSpace c = false := by
  have hlate : ¬c ≤ '\r' := by
    intro hle
    have hlow : 32 ≤ c.toNat := UInt32.le_iff_toNat_le.mp h
    have hhigh : c.toNat ≤ 13 := UInt32.le_iff_toNat_le.mp hle
    omega
  unfold isSpace
  simp [hne, hlate]

theorem isSpace_of_isUnreserved (h : isUnreserved c = true) : isSpace c = false := by
  unfold isUnreserved at h
  simp only [Bool.or_eq_true, decide_eq_true_eq] at h
  rcases h with (((h | rfl) | rfl) | rfl) | rfl
  · have hvisible := JsonText.visible_of_isAlphanum h
    unfold JsonText.visible at hvisible
    simp only [Bool.and_eq_true, decide_eq_true_eq] at hvisible
    refine isSpace_of_le hvisible.1 ?_
    rintro rfl
    cases h
  all_goals rfl

/-- The uri of a readable query is read as it was before it was encoded. -/
theorem uriUnescape_queryUri (hg : QueryGiven path segs) (hliteral : '%' ∉ path)
    (hjoined : '+' ∉ (queryUri path segs).dropWhile (· ≠ '%')) :
    uriUnescape (queryUri path segs) = cutNul (path ++ '?' :: writeQuery id segs) := by
  rw [uriUnescape_eq ?_ hjoined]
  · have hquery := unescapeAll_intercalate (show '&' ≠ '%' by decide)
      (fun g hg' => unescapeAll_segment (hg.strings g hg')) []
    simp only [List.append_nil] at hquery
    unfold queryUri
    rw [unescapeAll_append hliteral, unescapeAll_cons (by decide)]
    refine congrArg (fun q => cutNul (path ++ '?' :: q)) (hquery.trans (List.append_nil _))
  · intro c hc
    rcases List.mem_append.mp hc with hc | hc
    · obtain ⟨hprint, hne, -⟩ := hg.path c hc
      unfold isPrintable at hprint
      simp only [Bool.and_eq_true, decide_eq_true_eq] at hprint
      exact isSpace_of_le hprint.1.1 hne
    · rcases List.mem_cons.mp hc with rfl | hc
      · rfl
      · rcases mem_writeQuery hc with hc | ⟨g, hgs, s, hs, hc⟩
        · simp only [List.mem_cons, List.not_mem_nil, or_false] at hc
          rcases hc with rfl | rfl | rfl <;> rfl
        · rcases mem_percentEncode (hg.strings g hgs s hs) hc with hc | rfl
          · exact isSpace_of_isUnreserved hc
          · rfl

end Unescape

/-! ## The loop over the query -/

section Scan

variable {key value s text : CStr} {v : Option CStr} {g : QuerySegment} {segs : List QuerySegment}

theorem QueryScan.turns_append (q : QueryScan) (s t : CStr) : q.turns (s ++ t) = (q.turns s).turns t := List.foldl_append

/-- Characters between two delimiters. -/
theorem QueryScan.turns_piece {q : QueryScan} (hq : q.key = none ∨ q.value = none) (h : ∀ c ∈ s, c ≠ '=' ∧ c ≠ '&') :
    q.turns s = { q with piece := q.piece ++ s } := by
  induction s generalizing q with
  | nil => simp [QueryScan.turns]
  | cons c s ih =>
    obtain ⟨heq, hamp⟩ := h c List.mem_cons_self
    have hflush : ({ q with piece := q.piece ++ [c] } : QueryScan).flush = { q with piece := q.piece ++ [c] } := by
      unfold QueryScan.flush
      rcases hq with hq | hq
      · rw [show ({ q with piece := q.piece ++ [c] } : QueryScan).key = none from hq]
      · rw [show ({ q with piece := q.piece ++ [c] } : QueryScan).value = none from hq]
        cases q.key <;> rfl
    have hturn : q.turn (some c) = { q with piece := q.piece ++ [c] } := by
      dsimp only [QueryScan.turn]
      rw [if_neg heq, if_neg hamp, hflush]
    have hrest := ih (q := { q with piece := q.piece ++ [c] }) hq fun c hc => h c (List.mem_cons_of_mem _ hc)
    show (q.turn (some c)).turns s = _
    rw [hturn, hrest]
    simp

/-- A pair up to the delimiter behind it. -/
theorem QueryScan.turns_pair (hkey : ∀ c ∈ key, c ≠ '=' ∧ c ≠ '&') (hvalue : ∀ c ∈ value, c ≠ '=' ∧ c ≠ '&') :
    ((QueryScan.mk none none [] text).turns (key ++ '=' :: value)).turn none = ⟨none, none, [], text ++ pairText key value⟩ ∧
      ((QueryScan.mk none none [] text).turns (key ++ '=' :: value)).turn (some '&') =
        ⟨none, none, [], text ++ pairText key value⟩ := by
  have hread : (QueryScan.mk none none [] text).turns (key ++ '=' :: value) = ⟨some key, none, value, text⟩ := by
    rw [QueryScan.turns_append, QueryScan.turns_piece (.inl rfl) hkey]
    show (QueryScan.mk (some key) none [] text).turns value = _
    rw [QueryScan.turns_piece (.inr rfl) hvalue]
    rfl
  rw [hread]
  exact ⟨rfl, rfl⟩

/-- Without '=' there is no key, and nothing is written. -/
theorem QueryScan.turns_bare {q : QueryScan} (hq : q.key = none) (h : '=' ∉ s) :
    (q.turns s).key = none ∧ (q.turns s).text = q.text := by
  induction s generalizing q with
  | nil => exact ⟨hq, rfl⟩
  | cons c s ih =>
    have hne : c ≠ '=' := fun he => h (he ▸ List.mem_cons_self)
    have hflush : ∀ q : QueryScan, q.key = none → q.flush.key = none ∧ q.flush.text = q.text := by
      intro q hq
      unfold QueryScan.flush
      rw [hq]
      exact ⟨hq, rfl⟩
    have hturn : (q.turn (some c)).key = none ∧ (q.turn (some c)).text = q.text := by
      dsimp only [QueryScan.turn]
      rw [if_neg hne]
      split
      · exact hflush _ hq
      · exact hflush _ hq
    obtain ⟨hk, ht⟩ := ih hturn.1 fun hm => h (List.mem_cons_of_mem _ hm)
    exact ⟨hk, ht.trans hturn.2⟩

theorem QueryScan.text_turn_none {q : QueryScan} (hq : q.key = none) : (q.turn none).text = q.text := by
  unfold QueryScan.turn QueryScan.flush
  rw [show ({ q with value := some q.piece, piece := [] } : QueryScan).key = none from hq]

/-- The quotes between the tokens of a list, with two characters too many behind the last one. -/
theorem tokens_quoted {l : List CStr} (hl : l ≠ []) :
    '"' :: l.flatMap (· ++ ['"', ',', '"']) = [','].intercalate (l.map quoted) ++ [',', '"'] := by
  induction l with
  | nil => exact absurd rfl hl
  | cons a l ih =>
    cases l with
    | nil =>
      simp only [List.flatMap_cons, List.flatMap_nil, List.map_cons, List.map_nil, List.intercalate_singleton]
      simp [quoted]
    | cons b l =>
      have hrest := ih (List.cons_ne_nil _ _)
      rw [List.flatMap_cons, List.map_cons, List.map_cons, List.intercalate_cons_cons, ← List.map_cons, List.append_assoc,
        List.append_assoc, ← hrest]
      simp [quoted]

/-- The value of a pair in the query, and what is written for it. -/
theorem pairText_safe {value : QueryValue} (h : value.Safe) (key : CStr) :
    (∀ c ∈ value.write id, c ≠ '=' ∧ c ≠ '&') ∧
      pairText key (value.write id) = quoted key ++ ':' :: value.text ++ [','] := by
  obtain ⟨hsafe, hne⟩ := h
  cases value with
  | one v =>
    have hwrite : (QueryValue.one v).write id = v := List.intercalate_singleton
    obtain ⟨hv, hplus⟩ := hsafe v List.mem_cons_self
    rw [hwrite]
    refine ⟨fun c hc => ⟨(hv c hc).2.1, (hv c hc).1⟩, ?_⟩
    unfold pairText
    rw [if_neg hplus]
    rfl
  | many a b rest =>
    have hwrite : (QueryValue.many a b rest).write id = ['+'].intercalate (a :: b :: rest) :=
      congrArg (['+'].intercalate ·) (List.map_id _)
    have hsplit : (['+'].intercalate (a :: b :: rest)).splitOn '+' = a :: b :: rest :=
      List.splitOn_intercalate '+' (fun s hs => (hsafe s hs).2) (List.cons_ne_nil _ _)
    have hnonempty : (a :: b :: rest).filter (· ≠ []) = a :: b :: rest :=
      List.filter_eq_self.mpr fun s hs => decide_eq_true (hne (by simp [QueryValue.parts]) s hs)
    rw [hwrite]
    refine ⟨fun c hc => ?_, ?_⟩
    · rcases mem_intercalate hc with rfl | ⟨s, hs, hc⟩
      · decide
      · exact ⟨((hsafe s hs).1 c hc).2.1, ((hsafe s hs).1 c hc).1⟩
    · have hmem : '+' ∈ ['+'].intercalate (a :: b :: rest) := by
        rw [List.intercalate_cons_cons]
        simp
      have htokens := tokens_quoted (l := a :: b :: rest) (List.cons_ne_nil _ _)
      unfold pairText
      rw [if_pos hmem, hsplit, hnonempty]
      have hlist : quoted key ++ [':', '[', '"'] ++ (a :: b :: rest).flatMap (· ++ ['"', ',', '"']) =
          (quoted key ++ ':' :: '[' :: [','].intercalate ((a :: b :: rest).map quoted)) ++ [',', '"'] := by
        have hquote : ∀ t : CStr, quoted key ++ [':', '[', '"'] ++ t = quoted key ++ ([':', '['] ++ '"' :: t) := fun t => by simp
        rw [hquote, htokens]
        simp
      rw [hlist, show ([',', '"'] : CStr) = [','] ++ ['"'] from rfl, ← List.append_assoc, List.dropLast_concat, List.dropLast_concat]
      simp [QueryValue.text]

theorem writeQuery_singleton (f : CStr → CStr) (g : QuerySegment) : writeQuery f [g] = g.write f := List.intercalate_singleton

theorem writeQuery_cons_cons (f : CStr → CStr) (g g' : QuerySegment) (segs : List QuerySegment) :
    writeQuery f (g :: g' :: segs) = g.write f ++ '&' :: writeQuery f (g' :: segs) := by
  unfold writeQuery
  simp only [List.map_cons, List.intercalate_cons_cons, List.append_assoc, List.singleton_append]

/-- A query without pairs holds no '='. -/
theorem not_mem_writeQuery (h : ∀ g ∈ segs, g.Safe ∧ g.isPair = false) : '=' ∉ writeQuery id segs := by
  induction segs with
  | nil => exact List.not_mem_nil
  | cons g segs ih =>
    have hg : '=' ∉ g.write id := by
      obtain ⟨hsafe, hbare⟩ := h g List.mem_cons_self
      cases g with
      | pair key value => cases hbare
      | bare text => exact hsafe
    cases segs with
    | nil => exact (writeQuery_singleton id g).symm ▸ hg
    | cons g' segs =>
      rw [writeQuery_cons_cons, List.mem_append, List.mem_cons]
      rintro (hm | hm | hm)
      · exact hg hm
      · cases hm
      · exact ih (fun g hg => h g (List.mem_cons_of_mem _ hg)) hm

/-- The loop writes the pairs of a query, where no bare segment comes before one. -/
theorem text_turns (hsafe : ∀ g ∈ segs, g.Safe) (hfirst : segs.Pairwise fun g g' => g'.isPair = true → g.isPair = true)
    (text : CStr) : (((QueryScan.mk none none [] text).turns (writeQuery id segs)).turn none).text =
      text ++ segs.flatMap QuerySegment.text := by
  induction segs generalizing text with
  | nil => simp [writeQuery, QueryScan.turns, QueryScan.turn, QueryScan.flush]
  | cons g segs ih =>
    rw [List.pairwise_cons] at hfirst
    have hrest := ih (fun g hg => hsafe g (List.mem_cons_of_mem _ hg)) hfirst.2
    cases g with
    | bare t =>
      -- no pairs are left
      have hbare : ∀ g ∈ QuerySegment.bare t :: segs, g.Safe ∧ g.isPair = false := by
        intro g hg
        refine ⟨hsafe g hg, ?_⟩
        rcases List.mem_cons.mp hg with rfl | hg
        · rfl
        · rw [Bool.eq_false_iff]
          exact fun hp => by cases hfirst.1 g hg hp
      have htexts : (QuerySegment.bare t :: segs).flatMap QuerySegment.text = [] := by
        refine List.flatMap_eq_nil_iff.mpr fun g hg => ?_
        cases g with
        | pair key value => cases (hbare _ hg).2
        | bare text => rfl
      obtain ⟨hk, ht⟩ := QueryScan.turns_bare (q := ⟨none, none, [], text⟩) rfl (not_mem_writeQuery hbare)
      rw [QueryScan.text_turn_none hk, ht, htexts, List.append_nil]
    | pair key value =>
      obtain ⟨hkey, hvalue⟩ := hsafe _ List.mem_cons_self
      obtain ⟨hchars, htext⟩ := pairText_safe hvalue key
      have hpair : ((QueryScan.mk none none [] text).turns (key ++ '=' :: value.write id)).turn none = _ ∧ _ :=
        QueryScan.turns_pair (fun c hc => ⟨(hkey c hc).2.1, (hkey c hc).1⟩) hchars
      rw [htext] at hpair
      cases segs with
      | nil =>
        rw [writeQuery_singleton]
        show (((QueryScan.mk none none [] text).turns (key ++ '=' :: value.write id)).turn none).text = _
        rw [hpair.1]
        simp [QuerySegment.text]
      | cons g' segs =>
        rw [writeQuery_cons_cons, QueryScan.turns_append]
        show ((((QueryScan.mk none none [] text).turns (key ++ '=' :: value.write id)).turn (some '&')).turns _ |>.turn none).text = _
        rw [hpair.2, hrest]
        simp [QuerySegment.text]

end Scan

/-! ## The JSON text -/

section Parse

variable {key : CStr} {value : QueryValue} {segs : List QuerySegment} {turns nest : Nat}

/-- A string of a query that needs no escape sequence is plain. -/
theorem plainString_of_safe {s : CStr} (hsafe : SafeString s) (h : ∀ c ∈ s, isPrintable c = true) : PlainString s := by
  intro c hc
  refine ⟨(hsafe c hc).2.2.1, (hsafe c hc).2.2.2, ?_⟩
  rintro rfl
  cases h _ hc

/-- The loop over an array of plain strings. -/
theorem cjsonParseArray_quoted {l : List CStr} (hl : l ≠ []) (h : ∀ s ∈ l, PlainString s) (hn : l.length < turns) (t : CStr) :
    cjsonParseArray turns nest ([','].intercalate (l.map quoted) ++ ']' :: t) = some (l.map .str, t) := by
  induction l generalizing turns with
  | nil => exact absurd rfl hl
  | cons a l ih =>
    obtain ⟨n, rfl⟩ : ∃ n, turns = n + 2 := ⟨turns - 2, by simp only [List.length_cons] at hn; omega⟩
    have ha := h a List.mem_cons_self
    rw [cjsonParseArray.eq_def]
    dsimp only
    cases l with
    | nil =>
      simp only [List.map_cons, List.map_nil, List.intercalate_singleton]
      rw [show skipWhitespace (quoted a ++ ']' :: t) = quoted a ++ ']' :: t from skipWhitespace_cons (by decide) _,
        cjsonParseValue_quoted ha, Option.bind_some, skipWhitespace_cons (by decide)]
      rfl
    | cons b l =>
      have hrest := @ih (n + 1) (List.cons_ne_nil _ _) (fun s hs => h s (List.mem_cons_of_mem _ hs))
        (by simp only [List.length_cons] at hn ⊢; omega)
      have htext : [','].intercalate ((a :: b :: l).map quoted) ++ ']' :: t =
          quoted a ++ ',' :: ([','].intercalate ((b :: l).map quoted) ++ ']' :: t) := by
        simp only [List.map_cons, List.intercalate_cons_cons, List.append_assoc, List.singleton_append]
        rfl
      rw [htext, show skipWhitespace (quoted a ++ _) = quoted a ++ _ from skipWhitespace_cons (by decide) _,
        cjsonParseValue_quoted ha, Option.bind_some, skipWhitespace_cons (by decide)]
      show (cjsonParseArray (n + 1) nest ([','].intercalate ((b :: l).map quoted) ++ ']' :: t)).map _ = _
      rw [hrest]
      rfl

theorem cjsonParseValue_text (h : ∀ s ∈ value.parts, PlainString s) (hn : value.parts.length + 1 < turns)
    (hd : nest < nestingLimit) (t : CStr) : cjsonParseValue turns nest (value.text ++ t) = some (value.json, t) := by
  obtain ⟨n, rfl⟩ : ∃ n, turns = n + 1 := ⟨turns - 1, by omega⟩
  cases value with
  | one v => exact cjsonParseValue_quoted (h v List.mem_cons_self) t
  | many a b rest =>
    have hlist := @cjsonParseArray_quoted n (nest + 1) (a :: b :: rest) (List.cons_ne_nil _ _) h
      (by have : (QueryValue.many a b rest).parts.length = (a :: b :: rest).length := rfl; omega) t
    have htext : (QueryValue.many a b rest).text ++ t = '[' :: ([','].intercalate ((a :: b :: rest).map quoted) ++ ']' :: t) := by
      simp [QueryValue.text]
    have hword : leadingWord ('[' :: ([','].intercalate ((a :: b :: rest).map quoted) ++ ']' :: t)) = none := rfl
    have hfull : (skipWhitespace ([','].intercalate ((a :: b :: rest).map quoted) ++ ']' :: t)).head? = some '"' := rfl
    rw [htext, cjsonParseValue.eq_def]
    dsimp only
    rw [hword]
    show (if nestingLimit ≤ nest then none
      else if (skipWhitespace ([','].intercalate ((a :: b :: rest).map quoted) ++ ']' :: t)).head? = some ']' then _ else
      (cjsonParseArray n (nest + 1) ([','].intercalate ((a :: b :: rest).map quoted) ++ ']' :: t)).map _) = _
    rw [if_neg (by omega), hfull, if_neg (by decide), hlist]
    rfl

/-- One member, with what is behind its value. -/
theorem cjsonParseObject_member (hkey : PlainString key) (h : ∀ s ∈ value.parts, PlainString s)
    (hn : value.parts.length + 1 < turns) (hd : nest < nestingLimit) (t : CStr) :
    cjsonParseObject (turns + 1) nest (quoted key ++ ':' :: value.text ++ t) =
      match skipWhitespace t with
      | ',' :: t => (cjsonParseObject turns nest t).map fun r => ((key, value.json) :: r.1, r.2)
      | '}' :: t => some ([(key, value.json)], t)
      | _ => none := by
  have hvalue : skipWhitespace (value.text ++ t) = value.text ++ t := by
    cases value with
    | one v => exact skipWhitespace_cons (by decide) _
    | many a b rest => exact skipWhitespace_cons (by decide) _
  rw [cjsonParseObject.eq_def]
  dsimp only
  rw [List.append_assoc, List.cons_append, show skipWhitespace (quoted key ++ _) = quoted key ++ _ from skipWhitespace_cons (by decide) _,
    cjsonParseString_quoted hkey, Option.bind_some, skipWhitespace_cons (by decide)]
  show (cjsonParseValue turns nest (skipWhitespace (value.text ++ t))).bind _ = _
  rw [hvalue, cjsonParseValue_text h hn hd]
  rfl

/-- The text of a value has more characters than the value has parts. -/
theorem parts_le_text (value : QueryValue) : value.parts.length ≤ value.text.length := by
  have hjoined : ∀ l : List CStr, l.length ≤ ([','].intercalate (l.map quoted)).length := by
    intro l
    induction l with
    | nil => exact Nat.zero_le _
    | cons a l ih =>
      cases l with
      | nil => simp [quoted]
      | cons b l =>
        simp only [List.map_cons, List.intercalate_cons_cons, List.length_append, List.length_cons, List.length_nil] at ih ⊢
        omega
  cases value with
  | one v => simp [QueryValue.parts, QueryValue.text, quoted]
  | many a b rest =>
    have := hjoined (a :: b :: rest)
    simp only [QueryValue.parts, QueryValue.text, List.length_cons, List.length_append, List.length_nil] at this ⊢
    omega

/-- The loop over the object. -/
theorem cjsonParseObject_query (h : ∀ g ∈ segs, g.isPair = true → ∀ s ∈ g.strings, PlainString s)
    (hpair : ∃ g ∈ segs, g.isPair = true) (hn : (segs.flatMap QuerySegment.text).length < turns)
    (hd : nest < nestingLimit) : cjsonParseObject turns nest ((segs.flatMap QuerySegment.text).dropLast ++ ['\x7d']) =
      some (segs.flatMap QuerySegment.members, []) := by
  induction segs generalizing turns with
  | nil =>
    obtain ⟨g, hg, -⟩ := hpair
    cases hg
  | cons g segs ih =>
    have hsegs : ∀ g ∈ segs, g.isPair = true → ∀ s ∈ g.strings, PlainString s := fun g hg => h g (List.mem_cons_of_mem _ hg)
    rw [List.flatMap_cons, List.length_append] at hn
    cases g with
    | bare text =>
      obtain ⟨g, hg, hgp⟩ := hpair
      have hg' : g ∈ segs := by
        rcases List.mem_cons.mp hg with rfl | hg
        · cases hgp
        · exact hg
      exact ih hsegs ⟨g, hg', hgp⟩ (by simpa [QuerySegment.text] using hn)
    | pair key value =>
      obtain ⟨n, rfl⟩ : ∃ n, turns = n + 1 := ⟨turns - 1, by omega⟩
      have hstrings := h _ List.mem_cons_self rfl
      have hlen : (QuerySegment.pair key value).text.length = key.length + value.text.length + 4 := by
        simp only [QuerySegment.text, quoted, List.length_append, List.length_cons, List.length_nil]
        omega
      have hparts := parts_le_text value
      have hmember := cjsonParseObject_member (hstrings key List.mem_cons_self)
        (fun s hs => hstrings s (List.mem_cons_of_mem _ hs)) (by omega : value.parts.length + 1 < n) hd
      by_cases hmore : ∃ g ∈ segs, g.isPair = true
      · have hne : segs.flatMap QuerySegment.text ≠ [] := by
          obtain ⟨g, hg, hgp⟩ := hmore
          intro hnil
          have htext := List.flatMap_eq_nil_iff.mp hnil g hg
          cases g with
          | pair key value => cases htext
          | bare text => cases hgp
        have htext : ((QuerySegment.pair key value :: segs).flatMap QuerySegment.text).dropLast ++ ['\x7d'] =
            quoted key ++ ':' :: value.text ++ (',' :: ((segs.flatMap QuerySegment.text).dropLast ++ ['\x7d'])) := by
          rw [List.flatMap_cons, List.dropLast_append_of_ne_nil hne]
          simp [QuerySegment.text]
        rw [htext, hmember, skipWhitespace_cons (by decide)]
        show (cjsonParseObject n nest ((segs.flatMap QuerySegment.text).dropLast ++ ['\x7d'])).map _ = _
        rw [ih hsegs hmore (by omega)]
        rfl
      · have hnil : ∀ g ∈ segs, g.text = [] ∧ g.members = [] := by
          intro g hg
          cases g with
          | pair key value => exact absurd ⟨_, hg, rfl⟩ hmore
          | bare text => exact ⟨rfl, rfl⟩
        have htext : ((QuerySegment.pair key value :: segs).flatMap QuerySegment.text).dropLast ++ ['\x7d'] =
            quoted key ++ ':' :: value.text ++ ['\x7d'] := by
          rw [List.flatMap_cons, List.flatMap_eq_nil_iff.mpr fun g hg => (hnil g hg).1, List.append_nil]
          show (quoted key ++ ':' :: value.text ++ [',']).dropLast ++ _ = _
          rw [List.dropLast_concat]
        rw [htext, hmember, skipWhitespace_cons (by decide), List.flatMap_cons,
          List.flatMap_eq_nil_iff.mpr fun g hg => (hnil g hg).2]
        rfl

theorem head_of_cjsonParseObject {s : CStr} {r : List (CStr × Value) × CStr} (h : cjsonParseObject turns nest s = some r) :
    (skipWhitespace s).head? = some '"' := by
  cases turns with
  | zero =>
    rw [cjsonParseObject.eq_def] at h
    cases h
  | succ n =>
    rw [cjsonParseObject.eq_def] at h
    obtain ⟨k, hk, -⟩ := Option.bind_eq_some_iff.mp h
    unfold cjsonParseString at hk
    split at hk
    · rename_i heq
      rw [heq]
      rfl
    · cases hk

/-- The JSON text of a readable query is parsed as its pairs. -/
theorem cjsonParse_query (h : ∀ g ∈ segs, g.isPair = true → ∀ s ∈ g.strings, PlainString s) (hpair : ∃ g ∈ segs, g.isPair = true) :
    cjsonParse ('\x7b' :: ((segs.flatMap QuerySegment.text).dropLast ++ ['\x7d'])) =
      some (.obj (segs.flatMap QuerySegment.members)) := by
  generalize ht : (segs.flatMap QuerySegment.text).dropLast ++ ['\x7d'] = t
  have hlen : (segs.flatMap QuerySegment.text).length < 2 * t.length + 3 := by
    rw [← ht, List.length_append, List.length_dropLast, List.length_singleton]
    omega
  have hobject := @cjsonParseObject_query segs _ 1 h hpair hlen (by decide)
  rw [ht] at hobject
  have hfull := head_of_cjsonParseObject hobject
  have hbom : skipBom ('\x7b' :: t) = '\x7b' :: t := by
    unfold skipBom
    rw [if_neg]
    rintro ⟨-, hb⟩
    rw [List.take_succ_cons] at hb
    cases (List.cons.inj hb).1
  have hword : leadingWord ('\x7b' :: t) = none := rfl
  unfold cjsonParse
  rw [hbom, skipWhitespace_cons (by decide), List.length_cons, cjsonParseValue.eq_def]
  dsimp only
  rw [hword]
  show ((if nestingLimit ≤ 0 then none else if (skipWhitespace t).head? = some '\x7d' then _
    else (cjsonParseObject (2 * t.length + 3) 1 t).map _) : Option _).map _ = _
  rw [if_neg (by decide), hfull, if_neg (by decide), hobject]
  rfl

end Parse

/-! ## The round trip -/

/-- A query that meets the condition is given back as it was, with its path. -/
theorem query_given_back {path : CStr} {segs : List QuerySegment} (hg : QueryGiven path segs) (h : QueryReadable path segs) :
    GivesBack path segs := by
  intro l s hl
  have hchars : ∀ c ∈ path ++ '?' :: writeQuery id segs, decide (c ≠ Char.ofNat 0) = true := by
    intro c hc
    rw [decide_eq_true_eq]
    rintro rfl
    rcases List.mem_append.mp hc with hc | hc
    · cases (hg.path _ hc).1
    · rcases List.mem_cons.mp hc with hc | hc
      · cases hc
      · rcases mem_writeQuery hc with hc | ⟨g, hgs, s, hs, hc⟩
        · simp at hc
        · cases hg.strings g hgs s hs _ hc
  have huri : uriUnescape l.uri = path ++ '?' :: writeQuery id segs := by
    rw [hl, uriUnescape_queryUri hg h.literal h.joined]
    exact List.takeWhile_eq_self_iff.mpr hchars
  have hpath : ∀ c ∈ path, decide (c ≠ '?') = true := fun c hc => decide_eq_true (hg.path c hc).2.2
  refine ⟨writeQuery id segs, ?_, ?_⟩
  · rw [parseHttpRequest_print, huri, List.takeWhile_append_of_pos hpath, List.dropWhile_append_of_pos hpath,
      List.takeWhile_cons_of_neg (by decide), List.dropWhile_cons_of_neg (by decide), List.append_nil]
    rfl
  · have htext := text_turns h.safe h.pairsFirst ['\x7b']
    have hne : segs.flatMap QuerySegment.text ≠ [] := by
      obtain ⟨g, hgs, hgp⟩ := h.pair
      intro hnil
      have htext := List.flatMap_eq_nil_iff.mp hnil g hgs
      cases g with
      | pair key value => cases htext
      | bare text => cases hgp
    have hshort := h.short
    have hplain : ∀ g ∈ segs, g.isPair = true → ∀ s ∈ g.strings, PlainString s := by
      intro g hgs hgp s hs
      refine plainString_of_safe ?_ (hg.strings g hgs s hs)
      cases g with
      | bare text => cases hgp
      | pair key value =>
        obtain ⟨hkey, hvalue⟩ := h.safe _ hgs
        rcases List.mem_cons.mp hs with rfl | hs
        · exact hkey
        · exact (hvalue.1 s hs).1
    unfold qsToJson queryText
    dsimp only
    rw [htext, if_pos (by rw [List.length_append, List.length_singleton]; omega), Option.bind_some,
      List.dropLast_append_of_ne_nil hne]
    exact cjsonParse_query hplain h.pair

/-! ## Two queries -/

/-- A list ahead of the first escape sequence, a value with a space, and a bare segment at the end. -/
def labelQuery : List QuerySegment :=
  [.pair "lbl".toList (.many "a".toList "b".toList []), .pair "cra".toList (.one "2024 01".toList), .bare "x".toList]

def basePath : CStr := "/TinyIoT".toList

theorem labelQuery_given : QueryGiven basePath labelQuery where
  path := Tokens.forall_mem_of_all (by decide)
  strings g hg s hs c hc := by
    have hall : (labelQuery.all fun g => g.strings.all fun s => s.all isPrintable) = true := by decide
    exact List.all_eq_true.mp (List.all_eq_true.mp (List.all_eq_true.mp hall g hg) s hs) c hc

theorem labelQuery_readable : QueryReadable basePath labelQuery where
  literal := by decide
  safe g hg := by
    have hsafe : ∀ s ∈ ["lbl".toList, "cra".toList, "2024 01".toList, "a".toList, "b".toList], SafeString s ∧ '+' ∉ s := by
      intro s hs
      have hall : (["lbl".toList, "cra".toList, "2024 01".toList, "a".toList, "b".toList].all fun s =>
        s.all fun c => c ≠ '&' && c ≠ '=' && c ≠ '"' && c ≠ '\\' && c ≠ '+') = true := by decide
      have hs := List.all_eq_true.mp (List.all_eq_true.mp hall s hs)
      simp only [Bool.and_eq_true, decide_eq_true_eq] at hs
      exact ⟨fun c hc => by simpa [and_assoc] using (hs c hc).1, fun hm => (hs _ hm).2 rfl⟩
    simp only [labelQuery, List.mem_cons, List.not_mem_nil, or_false] at hg
    rcases hg with rfl | rfl | rfl
    · refine ⟨(hsafe _ (by simp)).1, fun s hs => ?_, fun _ s hs => ?_⟩
      · simp only [QueryValue.parts, List.mem_cons, List.not_mem_nil, or_false] at hs
        rcases hs with rfl | rfl
        · exact hsafe _ (by simp)
        · exact hsafe _ (by simp)
      · simp only [QueryValue.parts, List.mem_cons, List.not_mem_nil, or_false] at hs
        rcases hs with rfl | rfl <;> decide
    · refine ⟨(hsafe _ (by simp)).1, fun s hs => ?_, fun hlen => absurd hlen (by decide)⟩
      obtain rfl := List.mem_singleton.mp hs
      exact hsafe _ (by simp)
    · show '=' ∉ "x".toList
      decide
  pairsFirst := by simp [labelQuery, QuerySegment.isPair]
  pair := ⟨_, List.mem_cons_self, rfl⟩
  joined := by decide
  short := by decide

theorem query_given_back_labels : QueryGiven basePath labelQuery ∧ QueryReadable basePath labelQuery ∧
    GivesBack basePath labelQuery :=
  ⟨labelQuery_given, labelQuery_readable, query_given_back labelQuery_given labelQuery_readable⟩

/-- A value with an encoded '='. -/
def equationQuery : List QuerySegment := [.pair "lbl".toList (.one "a=b".toList)]

/-- The request line with it. -/
def getEquation : RequestLine where
  method := "GET".toList
  uri := "/TinyIoT?lbl=a%3Db".toList
  prot := "HTTP/1.1".toList
  ne_nil := by decide
  words := Tokens.forall_mem_of_all (by decide)

/-- A header with a value. -/
def hostHeader : HeaderLine where
  name := "Host".toList
  text := " tinyiot".toList
  ne_nil := by decide
  token := Tokens.forall_mem_of_all (by decide)
  oneLine := Tokens.forall_mem_of_all (by decide)

/-- The names of the members of an object. -/
def objectKeys : Value → List CStr
  | .obj members => members.map Prod.fst
  | _ => []

/-- The '=' in the value is taken for the end of another key. -/
theorem query_cut_at_equation : ¬ ∀ path segs, QueryGiven path segs → GivesBack path segs := by
  intro h
  have hgiven : QueryGiven basePath equationQuery := by
    refine ⟨Tokens.forall_mem_of_all (by decide), fun g hg s hs c hc => ?_⟩
    have hall : (equationQuery.all fun g => g.strings.all fun s => s.all isPrintable) = true := by decide
    exact List.all_eq_true.mp (List.all_eq_true.mp (List.all_eq_true.mp hall g hg) s hs) c hc
  obtain ⟨qs, hparse, hjson⟩ := h basePath equationQuery hgiven getEquation (printBody [hostHeader] []) (by decide)
  have hqs : (parseHttpRequest (getEquation.print ++ printBody [hostHeader] [])).map HttpRequest.qs =
      some (some "lbl=a=b".toList) := by decide
  rw [hparse, Option.map_map] at hqs
  obtain ⟨m, -, hm⟩ := Option.map_eq_some_iff.mp hqs
  have hkeys : (qsToJson "lbl=a=b".toList).map objectKeys = some ["a".toList] := by decide
  rw [← Option.some.inj hm, hjson] at hkeys
  revert hkeys
  decide

end TinyIoT
