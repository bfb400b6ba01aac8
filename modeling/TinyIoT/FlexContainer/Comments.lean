/-
The comments that `remove_json_comments` takes out of a flexContainer definition. Inside a string literal the scan goes on
to the next quote that has no backslash in front of it; a literal that ends with an escaped backslash is not seen to end,
and from there to the next literal of that kind what is text and what is string are exchanged.
-/
import TinyIoT.Resource.Sdt

namespace TinyIoT

/-! ## The scan -/

/-- The loop over a comment that ends with its line: the character in front of what is left, and what is left. -/
def skipLine : Option Char → CStr → Option Char × CStr
  | prev, [] => (prev, [])
  | prev, c :: s => if c = '\n' then (prev, c :: s) else skipLine (some c) s

/-- The loop over a comment that has an end of its own. -/
def skipBlock : Option Char → CStr → Option Char × CStr
  | prev, [] => (prev, [])
  | prev, c :: s => if c = '*' && s.head? = some '/' then (prev, c :: s) else skipBlock (some c) s

/-- `src += 2`; no result where that is behind the end of the text. -/
def skipTwo : CStr → Option (Option Char × CStr)
  | _ :: c :: s => some (some c, s)
  | _ => none

/-- The end of a comment is skipped, unless the text has ended. -/
def closeBlock (r : Option Char × CStr) : Option (Option Char × CStr) := if r.2.isEmpty then some r else skipTwo r.2

/-- The loop of `remove_json_comments`, with the character in front; each turn takes something from the text. -/
def scanComments : Nat → Option Char → Bool → CStr → Option CStr
  | _, _, _, [] => some []
  | 0, _, _, _ :: _ => none
  | n + 1, prev, inString, c :: s =>
    if c = '"' && prev ≠ some '\\' then (scanComments n (some c) (!inString) s).map (c :: ·)
    else if !inString && ((c = '/' && s.head? = some '/') || c = '#') then
      scanComments n (skipLine prev (c :: s)).1 inString (skipLine prev (c :: s)).2
    else if !inString && c = '/' && s.head? = some '*' then
      (skipTwo (c :: s)).bind fun r => (closeBlock (skipBlock r.1 r.2)).bind fun r => scanComments n r.1 inString r.2
    else (scanComments n (some c) inString s).map (c :: ·)

/-- `remove_json_comments`. -/
def removeJsonComments (input : CStr) : Option CStr := scanComments input.length none false input

/-! ## Texts with comments -/

/-- A character of a literal, or an escape sequence by its first character. -/
inductive LitChar where
  | plain (c : Char) (h : c ≠ '"' ∧ c ≠ '\\')
  | escaped (c : Char)

def LitChar.print : LitChar → CStr
  | plain c _ => [c]
  | escaped c => ['\\', c]

/-- The end of a block comment is nowhere in its body. -/
def Unclosed : CStr → Prop
  | [] => True
  | c :: s => ¬ (c = '*' ∧ s.head? = some '/') ∧ Unclosed s

/-- A piece of a text: a character outside the literals, a literal, or a comment. -/
inductive Segment where
  | out (c : Char) (h : c ≠ '"' ∧ c ≠ '/' ∧ c ≠ '#' ∧ c ≠ '\\')
  | literal (s : List LitChar)
  | line (hash : Bool) (body : CStr) (h : '\n' ∉ body)
  | block (body : CStr) (h : Unclosed body)

/-- A comment that the end of the text ends. -/
inductive LastComment where
  | line (hash : Bool) (body : CStr) (h : '\n' ∉ body)
  | block (body : CStr) (h : Unclosed body)

/-- What begins a comment of one line. -/
def lineMark (hash : Bool) : CStr := if hash then ['#'] else ['/', '/']

/-- What a literal has between its quotes. -/
def contentOf (s : List LitChar) : CStr := s.flatMap LitChar.print

def Segment.print : Segment → CStr
  | out c _ => [c]
  | literal s => '"' :: (contentOf s ++ ['"'])
  | line hash body _ => lineMark hash ++ (body ++ ['\n'])
  | block body _ => '/' :: '*' :: (body ++ ['*', '/'])

/-- Without the comment; the line break behind it stays. -/
def Segment.kept : Segment → CStr
  | out c _ => [c]
  | literal s => '"' :: (contentOf s ++ ['"'])
  | line _ _ _ => ['\n']
  | block _ _ => []

def LastComment.print : LastComment → CStr
  | line hash body _ => lineMark hash ++ body
  | block body _ => '/' :: '*' :: body

/-- The text with its comments. -/
def commented (segments : List Segment) (last : Option LastComment) : CStr :=
  segments.flatMap Segment.print ++ last.elim [] LastComment.print

/-- The text without its comments. -/
def uncommented (segments : List Segment) : CStr := segments.flatMap Segment.kept

/-- The characters hold the beginning of a comment. -/
def Marked : CStr → Prop
  | [] => False
  | c :: s => c = '#' ∨ (c = '/' ∧ (s.head? = some '/' ∨ s.head? = some '*')) ∨ Marked s

/-- The literal has a backslash in front of its closing quote. -/
def EndsInBackslash (s : List LitChar) : Prop := (contentOf s).getLast? = some '\\'

instance (s : List LitChar) : Decidable (EndsInBackslash s) := inferInstanceAs (Decidable (_ = _))

/-- Where text and string are exchanged there is no comment, and no literal with the beginning of one in it. A literal that
ends in a backslash exchanges them. -/
def KeptApart (last : Option LastComment) : Bool → List Segment → Prop
  | swapped, [] => swapped = true → last = none
  | swapped, .out _ _ :: rest => KeptApart last swapped rest
  | swapped, .literal s :: rest =>
    (swapped = true → ¬ Marked (contentOf s)) ∧ KeptApart last (swapped ^^ decide (EndsInBackslash s)) rest
  | swapped, .line _ _ _ :: rest | swapped, .block _ _ :: rest => swapped = false ∧ KeptApart last swapped rest

/-! ## One turn of the scan -/

section Scan

variable {prev : Option Char} {inString : Bool} {c : Char} {s t : CStr} {n : Nat}

theorem skipLine_length (prev : Option Char) (s : CStr) : (skipLine prev s).2.length ≤ s.length := by
  induction s generalizing prev with
  | nil => exact Nat.le_refl _
  | cons c s ih =>
    unfold skipLine
    split
    · exact Nat.le_refl _
    · exact (ih (some c)).trans (Nat.le_succ _)

theorem skipBlock_length (prev : Option Char) (s : CStr) : (skipBlock prev s).2.length ≤ s.length := by
  induction s generalizing prev with
  | nil => exact Nat.le_refl _
  | cons c s ih =>
    unfold skipBlock
    split
    · exact Nat.le_refl _
    · exact (ih (some c)).trans (Nat.le_succ _)

/-- The loop over a comment of one line leaves a line break, or nothing. -/
theorem skipLine_rest (prev : Option Char) (s : CStr) : (skipLine prev s).2 = [] ∨ ∃ t, (skipLine prev s).2 = '\n' :: t := by
  induction s generalizing prev with
  | nil => exact .inl rfl
  | cons c s ih =>
    unfold skipLine
    split
    · rename_i hc
      subst hc
      exact .inr ⟨s, rfl⟩
    · exact ih (some c)

/-- The loop over a block comment leaves its end, or nothing. -/
theorem skipBlock_rest (prev : Option Char) (s : CStr) :
    (skipBlock prev s).2 = [] ∨ ∃ t, (skipBlock prev s).2 = '*' :: '/' :: t := by
  induction s generalizing prev with
  | nil => exact .inl rfl
  | cons c s ih =>
    unfold skipBlock
    split
    · rename_i hc
      simp only [Bool.and_eq_true, decide_eq_true_eq] at hc
      obtain ⟨rfl, hs⟩ := hc
      cases s with
      | nil => cases hs
      | cons d s =>
        cases hs
        exact .inr ⟨s, rfl⟩
    · exact ih (some c)

theorem skipLine_lt (hc : c ≠ '\n') : (skipLine prev (c :: s)).2.length ≤ s.length := by
  unfold skipLine
  rw [if_neg hc]
  exact skipLine_length _ _

/-- A block comment is skipped, with its end where it has one. -/
theorem closeBlock_skipBlock (prev : Option Char) (s : CStr) :
    ∃ r, closeBlock (skipBlock prev s) = some r ∧ r.2.length ≤ s.length ∧ (r.2 ≠ [] → r.1 = some '/') := by
  have hlen := skipBlock_length prev s
  unfold closeBlock
  rcases skipBlock_rest prev s with h | ⟨t, h⟩
  · rw [if_pos (by rw [h]; rfl)]
    exact ⟨_, rfl, hlen, fun hne => absurd h hne⟩
  · rw [h] at hlen ⊢
    rw [if_neg (by simp)]
    simp only [List.length_cons] at hlen
    exact ⟨_, rfl, by dsimp only; omega, fun _ => rfl⟩

/-- What the turns need is bounded by the text. -/
theorem scanComments_enough (n m : Nat) (hn : s.length ≤ n) (hm : s.length ≤ m) :
    scanComments n prev inString s = scanComments m prev inString s := by
  induction n generalizing m prev inString s with
  | zero =>
    obtain rfl : s = [] := List.eq_nil_of_length_eq_zero (by omega)
    cases m <;> rfl
  | succ n ih =>
    cases s with
    | nil => cases m <;> rfl
    | cons c s =>
      obtain ⟨m, rfl⟩ : ∃ k, m = k + 1 := ⟨m - 1, by rw [List.length_cons] at hm; omega⟩
      rw [List.length_cons] at hn hm
      have hnext : ∀ prev inString (t : CStr), t.length ≤ s.length →
          scanComments n prev inString t = scanComments m prev inString t :=
        fun _ _ t ht => ih m (by omega) (by omega)
      unfold scanComments
      split
      · rw [hnext _ _ s (Nat.le_refl _)]
      · split
        · rename_i hline
          have hc : c ≠ '\n' := by
            rintro rfl
            simp at hline
          exact hnext _ _ _ (skipLine_lt hc)
        · split
          · cases s with
            | nil => rfl
            | cons d s =>
              obtain ⟨r, hr, hlen, -⟩ := closeBlock_skipBlock (some d) s
              simp only [skipTwo, Option.bind_some, hr]
              exact hnext _ _ _ (hlen.trans (Nat.le_succ _))
          · rw [hnext _ _ s (Nat.le_refl _)]

/-- The scan of what is left. -/
def scanFrom (prev : Option Char) (inString : Bool) (s : CStr) : Option CStr := scanComments s.length prev inString s

@[simp] theorem scanFrom_nil : scanFrom prev inString [] = some [] := rfl

/-- A quote with no backslash in front. -/
theorem scanFrom_quote (h : prev ≠ some '\\') :
    scanFrom prev inString ('"' :: s) = (scanFrom (some '"') (!inString) s).map ('"' :: ·) := by
  unfold scanFrom
  rw [List.length_cons, scanComments, if_pos (by simp [h])]

/-- A character that is copied. -/
theorem scanFrom_char (hq : c = '"' → prev = some '\\')
    (hm : inString = true ∨ (c ≠ '#' ∧ (c = '/' → s.head? ≠ some '/' ∧ s.head? ≠ some '*'))) :
    scanFrom prev inString (c :: s) = (scanFrom (some c) inString s).map (c :: ·) := by
  unfold scanFrom
  rw [List.length_cons, scanComments]
  have h₁ : ¬ (decide (c = '"') && decide (prev ≠ some '\\')) = true := by
    simp only [Bool.and_eq_true, decide_eq_true_eq, not_and, not_not]
    exact hq
  have h₂ : ¬ (!inString && ((decide (c = '/') && decide (s.head? = some '/')) || decide (c = '#'))) = true := by
    rcases hm with rfl | ⟨hh, hs⟩
    · simp
    · simp only [Bool.and_eq_true, Bool.or_eq_true, decide_eq_true_eq, not_and, not_or]
      exact fun _ => ⟨fun hc => (hs hc).1, hh⟩
  have h₃ : ¬ (!inString && decide (c = '/') && decide (s.head? = some '*')) = true := by
    rcases hm with rfl | ⟨hh, hs⟩
    · simp
    · simp only [Bool.and_eq_true, decide_eq_true_eq, not_and]
      exact fun h => (hs h.2).2
  rw [if_neg h₁, if_neg h₂, if_neg h₃]

/-- A comment of one line. -/
theorem scanFrom_line (hc : c = '/' ∧ s.head? = some '/' ∨ c = '#') :
    scanFrom prev false (c :: s) = scanFrom (skipLine prev (c :: s)).1 false (skipLine prev (c :: s)).2 := by
  have hne : c ≠ '\n' ∧ c ≠ '"' := by
    rcases hc with ⟨rfl, -⟩ | rfl
    · decide
    · decide
  unfold scanFrom
  rw [List.length_cons, scanComments, if_neg (by simp [hne.2])]
  rw [if_pos (by simpa using hc)]
  exact scanComments_enough _ _ (skipLine_lt hne.1) (Nat.le_refl _)

/-- A block comment. -/
theorem scanFrom_block {r : Option Char × CStr} (hr : closeBlock (skipBlock (some '*') s) = some r) :
    scanFrom prev false ('/' :: '*' :: s) = scanFrom r.1 false r.2 := by
  obtain ⟨r', hr', hlen, -⟩ := closeBlock_skipBlock (some '*') s
  obtain rfl : r = r' := Option.some.inj (hr.symm.trans hr')
  unfold scanFrom
  rw [List.length_cons, scanComments, if_neg (by simp), if_neg (by simp), if_pos (by simp)]
  simp only [skipTwo, Option.bind_some, hr]
  exact scanComments_enough _ _ (hlen.trans (Nat.le_succ _)) (Nat.le_refl _)

/-- How the scan goes on, by what comes next. -/
theorem scanFrom_cases (prev : Option Char) (c : Char) (s : CStr) :
    (∃ st, scanFrom prev false (c :: s) = (scanFrom (some c) st s).map (c :: ·) ∧
        (c = '/' → s.head? ≠ some '/' ∧ s.head? ≠ some '*') ∧ c ≠ '#' ∧ (st = true → c = '"' ∧ prev ≠ some '\\')) ∨
      (∃ p t, scanFrom prev false (c :: s) = scanFrom p false t ∧ (t = [] ∨ ∃ u, t = '\n' :: u) ∧
        ((c = '/' ∧ s.head? = some '/') ∨ c = '#') ∧ t.length ≤ s.length) ∨
      ∃ p t, scanFrom prev false (c :: s) = scanFrom p false t ∧ c = '/' ∧ s.head? = some '*' ∧ t.length ≤ s.length := by
  by_cases hline : c = '/' ∧ s.head? = some '/' ∨ c = '#'
  · have hne : c ≠ '\n' := by
      rcases hline with ⟨rfl, -⟩ | rfl
      · decide
      · decide
    exact .inr (.inl ⟨_, _, scanFrom_line hline, skipLine_rest _ _, hline, skipLine_lt hne⟩)
  · by_cases hblock : c = '/' ∧ s.head? = some '*'
    · obtain ⟨rfl, hs⟩ := hblock
      cases s with
      | nil => cases hs
      | cons d s =>
        cases hs
        obtain ⟨r, hr, hlen, -⟩ := closeBlock_skipBlock (some '*') s
        exact .inr (.inr ⟨_, _, scanFrom_block hr, rfl, rfl, hlen.trans (Nat.le_succ _)⟩)
    · obtain ⟨hslash, hhash⟩ := not_or.mp hline
      have hc : c = '/' → s.head? ≠ some '/' ∧ s.head? ≠ some '*' :=
        fun h => ⟨fun hs => hslash ⟨h, hs⟩, fun hs => hblock ⟨h, hs⟩⟩
      by_cases hq : c = '"' ∧ prev ≠ some '\\'
      · obtain ⟨rfl, hp⟩ := hq
        exact .inl ⟨true, scanFrom_quote hp, hc, hhash, fun _ => ⟨rfl, hp⟩⟩
      · refine .inl ⟨false, scanFrom_char (fun h => ?_) (.inr ⟨hhash, hc⟩), hc, hhash, nofun⟩
        by_contra hp
        exact hq ⟨h, hp⟩

/-- The scan comes to an end. -/
theorem scanFrom_isSome (prev : Option Char) (inString : Bool) (s : CStr) : ∃ out, scanFrom prev inString s = some out := by
  induction hn : s.length using Nat.strongRecOn generalizing prev inString s with
  | _ n ih =>
    cases s with
    | nil => exact ⟨[], rfl⟩
    | cons c s =>
      have hstep : ∀ st, (∃ out, (scanFrom (some c) st s).map (c :: ·) = some out) := fun st => by
        obtain ⟨out, ho⟩ := ih s.length (by rw [← hn, List.length_cons]; omega) (some c) st s rfl
        exact ⟨c :: out, by rw [ho]; rfl⟩
      cases inString with
      | true =>
        by_cases hq : c = '"' ∧ prev ≠ some '\\'
        · obtain ⟨rfl, hp⟩ := hq
          rw [scanFrom_quote hp]
          exact hstep _
        · rw [scanFrom_char (fun h => by_contra fun hp => hq ⟨h, hp⟩) (.inl rfl)]
          exact hstep _
      | false =>
        rcases scanFrom_cases prev c s with ⟨st, h, -⟩ | ⟨p, t, h, -, -, hlen⟩ | ⟨p, t, h, -, -, hlen⟩
        · rw [h]
          exact hstep st
        all_goals
          rw [h]
          exact ih t.length (by rw [← hn, List.length_cons]; omega) p false t rfl

/-- Outside the strings the scan never copies the beginning of a block comment. -/
theorem scanFrom_ne_block (prev : Option Char) (s out : CStr) : scanFrom prev false s ≠ some ('/' :: '*' :: out) := by
  induction hn : s.length using Nat.strongRecOn generalizing prev s with
  | _ n ih =>
    cases s with
    | nil => simp
    | cons c s =>
      rcases scanFrom_cases prev c s with ⟨st, h, hc, -, hst⟩ | ⟨p, t, h, -, -, hlen⟩ | ⟨p, t, h, -, -, hlen⟩
      · rw [h]
        intro he
        obtain ⟨o, ho, hco⟩ := Option.map_eq_some_iff.mp he
        simp only [List.cons.injEq] at hco
        obtain ⟨rfl, rfl⟩ := hco
        obtain rfl : st = false := by
          cases st with
          | false => rfl
          | true => exact absurd (hst rfl).1 (by decide)
        obtain ⟨hslash, hstar⟩ := hc rfl
        -- what comes behind the slash is copied as it is, or is a line break behind a comment
        cases s with
        | nil => simp at ho
        | cons d s =>
          rcases scanFrom_cases (some '/') d s with ⟨st, h', -⟩ | ⟨p, t, h', ht, -⟩ | ⟨p, t, h', rfl, -⟩
          · rw [h'] at ho
            obtain ⟨o', -, ho'⟩ := Option.map_eq_some_iff.mp ho
            simp only [List.cons.injEq] at ho'
            exact hstar (by rw [← ho'.1]; rfl)
          · rw [h'] at ho
            rcases ht with rfl | ⟨u, rfl⟩
            · simp at ho
            · rw [scanFrom_char (fun h => absurd h (by decide)) (.inr ⟨by decide, fun h => absurd h (by decide)⟩)] at ho
              obtain ⟨o', -, ho'⟩ := Option.map_eq_some_iff.mp ho
              simp at ho'
          · exact hslash rfl
      all_goals
        rw [h]
        exact ih t.length (by rw [← hn, List.length_cons]; omega) p t rfl

end Scan

/-! ## Literals -/

section Literals

variable {prev : Option Char} {inString : Bool} {s t out : CStr}

/-- Every quote has a backslash in front. -/
def QuotesEscaped : Option Char → CStr → Prop
  | _, [] => True
  | prev, c :: s => (c = '"' → prev = some '\\') ∧ QuotesEscaped (some c) s

theorem quotesEscaped_content (prev : Option Char) (l : List LitChar) : QuotesEscaped prev (contentOf l) := by
  induction l generalizing prev with
  | nil => trivial
  | cons x l ih =>
    cases x with
    | plain c h => exact ⟨fun hc => absurd hc h.1, ih _⟩
    | escaped c => exact ⟨fun hc => absurd hc (by decide), fun _ => rfl, ih _⟩

/-- The character in front of what follows. -/
def lastOf (prev : Option Char) (t : CStr) : Option Char := t.getLast?.or prev

theorem lastOf_cons (prev : Option Char) (c : Char) (t : CStr) : lastOf prev (c :: t) = lastOf (some c) t := by
  unfold lastOf
  cases t with
  | nil => rfl
  | cons d t =>
    rw [List.getLast?_cons_cons]
    obtain ⟨x, hx⟩ : ∃ x, (d :: t).getLast? = some x := ⟨_, List.getLast?_eq_some_getLast (List.cons_ne_nil d t)⟩
    rw [hx]
    rfl

/-- What has no unescaped quote is copied inside a string, and outside where nothing in it begins a comment. -/
theorem scanFrom_copy (hq : QuotesEscaped prev t) (hm : inString = true ∨ ¬ Marked t) :
    scanFrom prev inString (t ++ '"' :: s) = (scanFrom (lastOf prev t) inString ('"' :: s)).map (t ++ ·) := by
  induction t generalizing prev with
  | nil => simp [lastOf]
  | cons c t ih =>
    obtain ⟨hc, hq⟩ := hq
    have hm' : inString = true ∨ ¬ Marked t := hm.imp id fun h hm => h (.inr (.inr hm))
    have hcopy : inString = true ∨ (c ≠ '#' ∧
        (c = '/' → (t ++ '"' :: s).head? ≠ some '/' ∧ (t ++ '"' :: s).head? ≠ some '*')) := by
      refine hm.imp id fun h => ⟨fun hh => h (.inl hh), fun hs => ?_⟩
      cases t with
      | nil => simp
      | cons d t =>
        exact ⟨fun hd => h (.inr (.inl ⟨hs, .inl hd⟩)), fun hd => h (.inr (.inl ⟨hs, .inr hd⟩))⟩
    rw [List.cons_append, scanFrom_char hc hcopy, ih hq hm', lastOf_cons, Option.map_map]
    rfl

/-- Outside a string what begins a comment is lost. -/
theorem scanFrom_marked (hq : QuotesEscaped prev t) (hm : Marked t) (s out : CStr) :
    scanFrom prev false (t ++ s) ≠ some (t ++ out) := by
  induction t generalizing prev with
  | nil => exact absurd hm id
  | cons c t ih =>
    obtain ⟨hc, hq⟩ := hq
    intro he
    rw [List.cons_append, List.cons_append] at he
    rcases scanFrom_cases prev c (t ++ s) with ⟨st, h, hslash, hhash, hst⟩ | ⟨p, u, h, hu, hline, -⟩ |
        ⟨p, u, h, rfl, hstar, -⟩
    · -- the character is copied, and the beginning of the comment comes later
      rw [h] at he
      obtain ⟨o, ho, hco⟩ := Option.map_eq_some_iff.mp he
      obtain rfl : o = t ++ out := (List.cons.inj hco).2
      have hst' : st = false := by
        cases st with
        | false => rfl
        | true => exact absurd (hc (hst rfl).1) (hst rfl).2
      rw [hst'] at ho
      refine ih hq ?_ ho
      rcases hm with hm | ⟨hs, hm⟩ | hm
      · exact absurd hm hhash
      · cases t with
        | nil => simp at hm
        | cons d t =>
          rcases hm with hm | hm
          · exact absurd hm (hslash hs).1
          · exact absurd hm (hslash hs).2
      · exact hm
    · -- a line break, or nothing, is left
      rw [h] at he
      rcases hu with rfl | ⟨u, rfl⟩
      · simp at he
      · rw [scanFrom_char (fun h => absurd h (by decide)) (.inr ⟨by decide, fun h => absurd h (by decide)⟩)] at he
        obtain ⟨o, -, ho⟩ := Option.map_eq_some_iff.mp he
        simp only [List.cons.injEq] at ho
        rcases hline with ⟨rfl, -⟩ | rfl
        · exact absurd ho.1 (by decide)
        · exact absurd ho.1 (by decide)
    · cases t with
      | nil => simp [Marked] at hm
      | cons d t =>
        obtain rfl : d = '*' := Option.some.inj hstar
        exact scanFrom_ne_block prev _ _ he

end Literals

/-! ## Texts -/

section Texts

variable {segments : List Segment} {last : Option LastComment} {prev : Option Char} {swapped : Bool}

/-- No text without comments begins like one. -/
theorem head_uncommented (segments : List Segment) {c : Char} (h : (uncommented segments).head? = some c) :
    c ≠ '/' ∧ c ≠ '#' := by
  induction segments with
  | nil => cases h
  | cons x segments ih =>
    unfold uncommented at h ih
    rw [List.flatMap_cons] at h
    cases x with
    | out d hd =>
      cases h
      exact ⟨hd.2.1, hd.2.2.1⟩
    | literal l =>
      cases h
      decide
    | line hash body hb =>
      cases h
      decide
    | block body hb => exact ih h

theorem skipLine_body {body : CStr} (hb : '\n' ∉ body) (s : CStr) (prev : Option Char) :
    skipLine prev (body ++ '\n' :: s) = (lastOf prev body, '\n' :: s) := by
  induction body generalizing prev with
  | nil => rfl
  | cons c body ih =>
    rw [List.mem_cons, not_or] at hb
    rw [List.cons_append, skipLine, if_neg (Ne.symm hb.1), ih hb.2, lastOf_cons]

theorem skipLine_end {body : CStr} (hb : '\n' ∉ body) (prev : Option Char) : (skipLine prev body).2 = [] := by
  induction body generalizing prev with
  | nil => rfl
  | cons c body ih =>
    rw [List.mem_cons, not_or] at hb
    rw [skipLine, if_neg (Ne.symm hb.1)]
    exact ih hb.2 _

theorem skipBlock_body {body : CStr} (hb : Unclosed body) (s : CStr) (prev : Option Char) :
    skipBlock prev (body ++ '*' :: '/' :: s) = (lastOf prev body, '*' :: '/' :: s) := by
  induction body generalizing prev with
  | nil => rfl
  | cons c body ih =>
    have hc : ¬ (decide (c = '*') && decide ((body ++ '*' :: '/' :: s).head? = some '/')) = true := by
      simp only [Bool.and_eq_true, decide_eq_true_eq]
      rintro ⟨hc, hs⟩
      cases body with
      | nil => cases hs
      | cons d body => exact hb.1 ⟨hc, hs⟩
    rw [List.cons_append, skipBlock, if_neg hc, ih hb.2, lastOf_cons]

theorem skipBlock_end {body : CStr} (hb : Unclosed body) (prev : Option Char) : (skipBlock prev body).2 = [] := by
  induction body generalizing prev with
  | nil => rfl
  | cons c body ih =>
    rw [skipBlock, if_neg (by simpa using hb.1)]
    exact ih hb.2 _

theorem map_cons_eq_some {x : Option CStr} {c : Char} {out : CStr} : x.map (c :: ·) = some (c :: out) ↔ x = some out := by
  cases x <;> simp

theorem map_append_eq_some {x : Option CStr} {t out : CStr} : x.map (t ++ ·) = some (t ++ out) ↔ x = some out := by
  cases x <;> simp

/-- A comment of one line, with the line break behind it. -/
theorem scanFrom_lineMark (hash : Bool) {body : CStr} (hb : '\n' ∉ body) (s : CStr) :
    scanFrom prev false (lineMark hash ++ (body ++ '\n' :: s)) = (scanFrom (some '\n') false s).map ('\n' :: ·) := by
  have hbreak : ∀ prev, scanFrom prev false ('\n' :: s) = (scanFrom (some '\n') false s).map ('\n' :: ·) := fun _ =>
    scanFrom_char (fun h => absurd h (by decide)) (.inr ⟨by decide, fun h => absurd h (by decide)⟩)
  cases hash with
  | true =>
    have hnone : '\n' ∉ '#' :: body := by simp [hb]
    have hskip := skipLine_body hnone s prev
    show scanFrom prev false ('#' :: (body ++ '\n' :: s)) = _
    rw [scanFrom_line (.inr rfl)]
    rw [List.cons_append] at hskip
    rw [hskip]
    exact hbreak _
  | false =>
    have hnone : '\n' ∉ '/' :: '/' :: body := by simp [hb]
    have hskip := skipLine_body hnone s prev
    show scanFrom prev false ('/' :: '/' :: (body ++ '\n' :: s)) = _
    rw [scanFrom_line (.inl ⟨rfl, rfl⟩)]
    rw [List.cons_append, List.cons_append] at hskip
    rw [hskip]
    exact hbreak _

/-- A comment that the text ends. -/
theorem scanFrom_last (x : LastComment) : scanFrom prev false x.print = some [] := by
  cases x with
  | line hash body hb =>
    cases hash with
    | true =>
      have hnone : '\n' ∉ '#' :: body := by simp [hb]
      have hskip := skipLine_end hnone prev
      show scanFrom prev false ('#' :: body) = _
      rw [scanFrom_line (.inr rfl), hskip]
      rfl
    | false =>
      have hnone : '\n' ∉ '/' :: '/' :: body := by simp [hb]
      have hskip := skipLine_end hnone prev
      show scanFrom prev false ('/' :: '/' :: body) = _
      rw [scanFrom_line (.inl ⟨rfl, rfl⟩), hskip]
      rfl
  | block body hb =>
    have hclose : closeBlock (skipBlock (some '*') body) = some (skipBlock (some '*') body) := by
      unfold closeBlock
      rw [if_pos (by rw [skipBlock_end hb]; rfl)]
    show scanFrom prev false ('/' :: '*' :: body) = _
    rw [scanFrom_block hclose, skipBlock_end hb]
    rfl

/-- A block comment, with its end. -/
theorem scanFrom_blockMark {body : CStr} (hb : Unclosed body) (s : CStr) :
    scanFrom prev false ('/' :: '*' :: (body ++ '*' :: '/' :: s)) = scanFrom (some '/') false s := by
  refine scanFrom_block (r := (some '/', s)) ?_
  rw [skipBlock_body hb]
  rfl

/-- Inside what is taken for a string a comment is copied. -/
theorem scanFrom_string {c : Char} (hc : c ≠ '"') (s : CStr) :
    scanFrom prev true (c :: s) = (scanFrom (some c) true s).map (c :: ·) :=
  scanFrom_char (fun h => absurd h hc) (.inl rfl)

/-- The closing quote of a literal: it is not seen behind a backslash. -/
theorem scanFrom_close (swapped : Bool) (l : List LitChar) (s : CStr) :
    scanFrom (lastOf (some '"') (contentOf l)) (!swapped) ('"' :: s) =
      (scanFrom (some '"') (swapped ^^ decide (EndsInBackslash l)) s).map ('"' :: ·) := by
  by_cases he : EndsInBackslash l
  · have hlast : lastOf (some '"') (contentOf l) = some '\\' := by
      unfold lastOf
      rw [show (contentOf l).getLast? = some '\\' from he]
      rfl
    rw [hlast, scanFrom_char (fun _ => rfl) (.inr ⟨by decide, fun h => absurd h (by decide)⟩), decide_eq_true he,
      Bool.xor_true]
  · have hlast : lastOf (some '"') (contentOf l) ≠ some '\\' := by
      unfold lastOf
      intro h
      cases hx : (contentOf l).getLast? with
      | none =>
        rw [hx] at h
        exact absurd h (by decide)
      | some x =>
        rw [hx] at h
        exact he (hx.trans h)
    rw [scanFrom_quote hlast, decide_eq_false he, Bool.not_not, Bool.xor_false]

theorem commented_cons (x : Segment) (segments : List Segment) (last : Option LastComment) :
    commented (x :: segments) last = x.print ++ commented segments last := by
  unfold commented
  rw [List.flatMap_cons, List.append_assoc]

theorem uncommented_cons (x : Segment) (segments : List Segment) :
    uncommented (x :: segments) = x.kept ++ uncommented segments := List.flatMap_cons

/-- A comment where text and string are exchanged stays. -/
theorem scanFrom_swapped_ne {c : Char} (hc : c = '/' ∨ c = '#') (s : CStr) (segments : List Segment) :
    scanFrom prev true (c :: s) ≠ some (uncommented segments) := by
  have hquote : c ≠ '"' := by
    rcases hc with rfl | rfl <;> decide
  rw [scanFrom_string hquote]
  intro he
  obtain ⟨o, -, ho⟩ := Option.map_eq_some_iff.mp he
  obtain ⟨h₁, h₂⟩ := head_uncommented segments (c := c) (by rw [← ho]; rfl)
  rcases hc with rfl | rfl
  · exact h₁ rfl
  · exact h₂ rfl

/-- The scan, from any place between two pieces of a text. -/
theorem scanFrom_iff (hprev : prev ≠ some '\\') :
    scanFrom prev swapped (commented segments last) = some (uncommented segments) ↔ KeptApart last swapped segments := by
  induction segments generalizing prev swapped with
  | nil =>
    show scanFrom prev swapped (last.elim [] LastComment.print) = some [] ↔ (swapped = true → last = none)
    cases last with
    | none => simp
    | some x =>
      cases swapped with
      | false => exact iff_of_true (scanFrom_last x) nofun
      | true =>
        refine iff_of_false ?_ (by simp)
        cases x with
        | line hash body hb =>
          cases hash with
          | true => exact scanFrom_swapped_ne (.inr rfl) _ []
          | false => exact scanFrom_swapped_ne (.inl rfl) _ []
        | block body hb => exact scanFrom_swapped_ne (.inl rfl) _ []
  | cons x segments ih =>
    rw [commented_cons, uncommented_cons]
    cases x with
    | out c hc =>
      obtain ⟨hquote, hslash, hhash, hback⟩ := hc
      show scanFrom prev swapped (c :: commented segments last) = some (c :: uncommented segments) ↔ _
      rw [scanFrom_char (fun h => absurd h hquote) (.inr ⟨hhash, fun h => absurd h hslash⟩), map_cons_eq_some]
      exact ih (by simpa using hback)
    | literal l =>
      have hprint : (Segment.literal l).print ++ commented segments last =
          '"' :: (contentOf l ++ '"' :: commented segments last) := by simp [Segment.print]
      have hkept : (Segment.literal l).kept ++ uncommented segments =
          '"' :: (contentOf l ++ '"' :: uncommented segments) := by simp [Segment.kept]
      rw [hprint, hkept, scanFrom_quote hprev, map_cons_eq_some]
      have hquotes := quotesEscaped_content (some '"') l
      show _ ↔ (swapped = true → ¬ Marked (contentOf l)) ∧ KeptApart last (swapped ^^ decide (EndsInBackslash l)) segments
      by_cases hm : swapped = true → ¬ Marked (contentOf l)
      · have hcopy : (!swapped) = true ∨ ¬ Marked (contentOf l) := by
          cases swapped with
          | false => exact .inl rfl
          | true => exact .inr (hm rfl)
        rw [scanFrom_copy hquotes hcopy, map_append_eq_some, scanFrom_close, map_cons_eq_some, and_iff_right hm]
        exact ih (by decide)
      · refine iff_of_false ?_ fun h => hm h.1
        simp only [not_forall, not_not] at hm
        obtain ⟨rfl, hmark⟩ := hm
        exact scanFrom_marked hquotes hmark _ _
    | line hash body hb =>
      show _ ↔ swapped = false ∧ KeptApart last swapped segments
      have hprint : (Segment.line hash body hb).print ++ commented segments last =
          lineMark hash ++ (body ++ '\n' :: commented segments last) := by simp [Segment.print]
      rw [hprint]
      cases swapped with
      | false =>
        show _ = some ('\n' :: uncommented segments) ↔ _
        rw [scanFrom_lineMark hash hb, map_cons_eq_some, and_iff_right rfl]
        exact ih (by decide)
      | true =>
        refine iff_of_false ?_ (by simp)
        cases hash with
        | true => exact scanFrom_swapped_ne (.inr rfl) _ (.line true body hb :: segments)
        | false => exact scanFrom_swapped_ne (.inl rfl) _ (.line false body hb :: segments)
    | block body hb =>
      show _ ↔ swapped = false ∧ KeptApart last swapped segments
      have hprint : (Segment.block body hb).print ++ commented segments last =
          '/' :: '*' :: (body ++ '*' :: '/' :: commented segments last) := by simp [Segment.print]
      rw [hprint]
      cases swapped with
      | false =>
        show _ = some (uncommented segments) ↔ _
        rw [scanFrom_blockMark hb, and_iff_right rfl]
        exact ih (by decide)
      | true =>
        refine iff_of_false ?_ (by simp)
        exact scanFrom_swapped_ne (.inl rfl) _ (.block body hb :: segments)

end Texts

/-- The scan of every text ends within it, and takes out of a text with comments the comments, and nothing else, exactly
where behind an odd number of literals that end in a backslash there is neither a comment nor a literal with the beginning
of one. -/
theorem comments_removed_iff (segments : List Segment) (last : Option LastComment) (s : CStr) :
    (∃ out, removeJsonComments s = some out) ∧
      (removeJsonComments (commented segments last) = some (uncommented segments) ↔ KeptApart last false segments) :=
  ⟨scanFrom_isSome none false s, scanFrom_iff (by decide)⟩

/-- A literal that is a backslash, and a comment behind it. -/
def backslashFirst : List Segment := [.literal [.escaped '\\'], .block [] trivial]

/-- The comment behind a backslash stays. -/
theorem comment_kept : ¬ ∀ segments last, removeJsonComments (commented segments last) = some (uncommented segments) := by
  intro h
  exact absurd (h backslashFirst none) (by decide)

end TinyIoT
