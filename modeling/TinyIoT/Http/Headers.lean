/-
Well-formed HTTP messages, and what the parsers make of them. A header without text behind its colon takes the next line
as its value, and a message without headers has the first token of its payload taken for the name of one.
-/
import TinyIoT.Http.Message

namespace TinyIoT

/-! ## Messages -/

/-- A header line: a name, and the text behind the colon. -/
structure HeaderLine where
  name : CStr
  text : CStr
  ne_nil : name ≠ []
  token : ∀ c ∈ name, keyDelim c = false
  oneLine : ∀ c ∈ text, lineDelim c = false

namespace HeaderLine

/-- The header it stands for. -/
def header (l : HeaderLine) : Header := ⟨l.name.map Char.toLower, l.text.dropWhile (· = ' ')⟩

/-- The line with its end. -/
def print (l : HeaderLine) : CStr := l.name ++ ':' :: (l.text ++ ['\r', '\n'])

end HeaderLine

/-- What follows the start line: the headers, an empty line and the payload. -/
def printBody (lines : List HeaderLine) (payload : CStr) : CStr :=
  lines.flatMap HeaderLine.print ++ '\r' :: '\n' :: payload

/-- What was read is what the message has. -/
structure HttpMessage.Reads (m : HttpMessage) (lines : List HeaderLine) (payload : CStr) : Prop where
  headers : m.headers = lines.map HeaderLine.header
  complete : m.dangling = false
  payload : m.payload = some payload
  within : m.overrun = false

/-- A request line: three words. -/
structure RequestLine where
  method : CStr
  uri : CStr
  prot : CStr
  ne_nil : method ≠ [] ∧ uri ≠ [] ∧ prot ≠ []
  words : ∀ c ∈ method ++ uri ++ prot, c ≠ ' ' ∧ c ≠ '\t' ∧ c ≠ '\r' ∧ c ≠ '\n'

def RequestLine.print (l : RequestLine) : CStr := l.method ++ ' ' :: (l.uri ++ ' ' :: (l.prot ++ ['\r', '\n']))

/-- A status line: the protocol, and the code with its text. -/
structure StatusLine where
  protocol : CStr
  status : CStr
  ne_nil : protocol ≠ [] ∧ status ≠ []
  word : ∀ c ∈ protocol, c ≠ ' '
  oneLine : ∀ c ∈ status, lineDelim c = false

def StatusLine.print (l : StatusLine) : CStr := l.protocol ++ ' ' :: (l.status ++ ['\r', '\n'])

/-! ## The loop over the headers -/

section Loop

variable {l : HeaderLine} {lines : List HeaderLine} {payload s : CStr} {turns : Nat} {r : HeaderRead}

theorem printBody_cons (l : HeaderLine) (lines : List HeaderLine) (payload : CStr) :
    printBody (l :: lines) payload = l.print ++ printBody lines payload := by
  unfold printBody
  rw [List.flatMap_cons, List.append_assoc]

/-- The name of a line. -/
theorem next_key (l : HeaderLine) (s : CStr) :
    Tokens.next keyDelim ('\n' :: (l.print ++ s)) = some ⟨l.name, some (l.text ++ '\r' :: '\n' :: s)⟩ := by
  have h := Tokens.next_skip (d := keyDelim) (p := ['\n']) (Tokens.forall_mem_of_all (by decide)) (l.print ++ s)
  rw [List.singleton_append] at h
  rw [h, HeaderLine.print]
  have hs : l.name ++ ':' :: (l.text ++ ['\r', '\n']) ++ s = l.name ++ ':' :: (l.text ++ '\r' :: '\n' :: s) := by simp
  rw [hs]
  exact Tokens.next_token l.token l.ne_nil rfl _

/-- The value of a line that has one. -/
theorem next_val (hne : l.text ≠ []) (s : CStr) :
    Tokens.next lineDelim (l.text ++ '\r' :: '\n' :: s) = some ⟨l.text, some ('\n' :: s)⟩ :=
  Tokens.next_token l.oneLine hne rfl _

/-- One turn over a line with a text. -/
theorem readHeaders_line (hne : l.text ≠ []) : readHeaders (turns + 1) ('\n' :: (l.print ++ s)) =
    if emptyLineNext ('\n' :: s) then some ⟨[l.header], false, '\n' :: s, false⟩
    else (readHeaders turns ('\n' :: s)).map fun r => { r with headers := l.header :: r.headers } := by
  rw [readHeaders, next_key]
  dsimp only [Tokens.Token.after, Option.getD_some]
  rw [next_val hne]
  dsimp only [Tokens.Token.after, Option.getD_some, Option.isNone_some, List.isEmpty_cons, Bool.or_self]
  unfold HeaderLine.header
  simp only [Bool.false_or]

theorem emptyLineNext_print (l : HeaderLine) (s : CStr) : emptyLineNext ('\n' :: (l.print ++ s)) = false := by
  obtain ⟨c, n, hn⟩ := List.exists_cons_of_ne_nil l.ne_nil
  have hc : c ≠ '\r' := by
    rintro rfl
    have := l.token '\r' (by rw [hn]; exact List.mem_cons_self)
    cases this
  unfold HeaderLine.print
  rw [hn]
  simp only [List.cons_append]
  unfold emptyLineNext
  split
  · rename_i h
    exact absurd (List.cons.inj (List.cons.inj h).2).1 hc
  · rfl

/-- The payload behind the empty line. -/
theorem readPayload_emptyLine (payload : CStr) : readPayload ('\n' :: '\r' :: '\n' :: payload) = (some payload, false) := by
  have h := Tokens.next_skip (d := fun c => decide (c = '\n')) (p := ['\n']) (Tokens.forall_mem_of_all (by decide)) ('\r' :: '\n' :: payload)
  have ht := Tokens.next_token (d := fun c => decide (c = '\n')) (t := ['\r']) (x := '\n')
    (Tokens.forall_mem_of_all (by decide)) (by simp) rfl payload
  rw [List.singleton_append] at h
  unfold readPayload
  rw [h]
  rw [List.singleton_append] at ht
  rw [ht]
  rfl

/-- Lines that all have a text are read, up to the empty line. -/
theorem readHeaders_lines (hne : lines ≠ []) (htext : ∀ l ∈ lines, l.text ≠ []) (hturns : lines.length ≤ turns) :
    readHeaders turns ('\n' :: printBody lines payload) =
      some ⟨lines.map HeaderLine.header, false, '\n' :: '\r' :: '\n' :: payload, false⟩ := by
  induction lines generalizing turns with
  | nil => exact absurd rfl hne
  | cons l lines ih =>
    obtain ⟨turns, rfl⟩ : ∃ n, turns = n + 1 := ⟨turns - 1, by rw [List.length_cons] at hturns; omega⟩
    rw [printBody_cons, readHeaders_line (htext l List.mem_cons_self)]
    cases lines with
    | nil => rfl
    | cons l' lines =>
      have hnext : emptyLineNext ('\n' :: printBody (l' :: lines) payload) = false := by
        unfold printBody
        rw [List.flatMap_cons, List.append_assoc]
        exact emptyLineNext_print l' _
      rw [if_neg (by rw [hnext]; decide), ih (by simp) (fun l hl => htext l (List.mem_cons_of_mem _ hl))
        (by rw [List.length_cons] at hturns; omega)]
      rfl

/-- The loop leaves a header or an empty node. -/
theorem readHeaders_ne_nil (h : readHeaders turns s = some r) (hd : r.dangling = false) : r.headers ≠ [] := by
  cases turns with
  | zero => cases h
  | succ turns =>
    unfold readHeaders at h
    split at h
    · cases h
      cases hd
    · split at h
      · cases h
      · dsimp only at h
        split at h
        · cases h
          exact List.cons_ne_nil _ _
        · obtain ⟨r', -, rfl⟩ := Option.map_eq_some_iff.mp h
          exact List.cons_ne_nil _ _

theorem readPayload_length_le {p : CStr} (h : (readPayload s).1 = some p) : p.length ≤ s.length := by
  unfold readPayload at h
  split at h
  · cases h
  · rename_i t ht
    have htext := Tokens.text_length_le ht
    split at h
    · cases h
      exact (Tokens.after_lt ht).le
    · rename_i c u htu
      cases h
      rw [htu, List.length_cons, List.length_cons] at htext
      omega
    · cases h
      exact htext

/-- What one turn adds to the list. -/
theorem readHeaders_turn {key val : Tokens.Token Char} (hk : Tokens.next keyDelim s = some key)
    (hv : Tokens.next lineDelim key.after = some val) (h : readHeaders (turns + 1) s = some r) :
    (r.headers = [⟨key.text.map Char.toLower, val.text.dropWhile (· = ' ')⟩] ∧ r.after = val.after) ∨
      ∃ r', readHeaders turns val.after = some r' ∧ r.dangling = r'.dangling ∧
        r.headers = ⟨key.text.map Char.toLower, val.text.dropWhile (· = ' ')⟩ :: r'.headers := by
  unfold readHeaders at h
  rw [hk] at h
  dsimp only at h
  rw [hv] at h
  dsimp only at h
  split at h
  · cases h
    exact .inl ⟨rfl, rfl⟩
  · obtain ⟨r', hr', rfl⟩ := Option.map_eq_some_iff.mp h
    exact .inr ⟨r', hr', rfl, rfl⟩

/-- The line that is taken for the value of a header without one. -/
theorem next_line (l : HeaderLine) (s : CStr) :
    Tokens.next lineDelim (l.print ++ s) = some ⟨l.name ++ ':' :: l.text, some ('\n' :: s)⟩ := by
  have hs : l.print ++ s = (l.name ++ ':' :: l.text) ++ '\r' :: '\n' :: s := by
    unfold HeaderLine.print
    simp
  rw [hs]
  refine Tokens.next_token ?_ (by simp) rfl _
  intro x hx
  rcases List.mem_append.mp hx with hx | hx
  · have := l.token x hx
    unfold keyDelim at this
    unfold lineDelim
    simp only [Bool.or_eq_false_iff] at this ⊢
    exact ⟨this.1.1.1.1, this.1.1.1.2⟩
  · rcases List.mem_cons.mp hx with rfl | hx
    · rfl
    · exact l.oneLine x hx

/-- Without a text behind the colon the line that follows is taken for the value. -/
theorem readHeaders_empty (ht : l.text = []) (h : readHeaders turns ('\n' :: printBody (l :: lines) payload) = some r)
    (hd : r.dangling = false) (hp : (readPayload r.after).1 = some payload) :
    r.headers ≠ (l :: lines).map HeaderLine.header := by
  intro hr
  cases turns with
  | zero => cases h
  | succ turns =>
    rw [printBody_cons] at h
    have hkey := next_key l (printBody lines payload)
    have hskip : ∀ s, Tokens.next lineDelim ('\r' :: '\n' :: s) = Tokens.next lineDelim s :=
      Tokens.next_skip (d := lineDelim) (p := ['\r', '\n']) (Tokens.forall_mem_of_all (by decide))
    rw [ht, List.nil_append] at hkey
    cases lines with
    | cons l' lines =>
      -- the name of the next line stands in the value
      obtain ⟨c, n, hn⟩ := List.exists_cons_of_ne_nil l'.ne_nil
      have hc : c ≠ ' ' := by
        rintro rfl
        have := l'.token ' ' (by rw [hn]; exact List.mem_cons_self)
        cases this
      have hval := next_line l' (printBody lines payload)
      rw [← printBody_cons, ← hskip] at hval
      have hhead : ⟨l.name.map Char.toLower, (l'.name ++ ':' :: l'.text).dropWhile (· = ' ')⟩ = l.header := by
        rcases readHeaders_turn hkey hval h with ⟨he, -⟩ | ⟨r', -, -, he⟩
        · rw [he] at hr
          exact (List.cons.inj hr).1
        · rw [he] at hr
          exact (List.cons.inj hr).1
      have hv := congrArg Header.value hhead
      unfold HeaderLine.header at hv
      rw [ht, hn] at hv
      simp [hc] at hv
    | nil =>
      -- the payload is read for the value
      have hs : printBody [] payload = '\r' :: '\n' :: payload := rfl
      rw [hs] at hkey h
      cases hval : Tokens.next lineDelim payload with
      | none =>
        unfold readHeaders at h
        rw [hkey] at h
        dsimp only [Tokens.Token.after, Option.getD_some] at h
        rw [hskip, hskip, hval] at h
        cases h
      | some val =>
        have hval' := hval
        rw [← hskip, ← hskip] at hval'
        rcases readHeaders_turn hkey hval' h with ⟨-, hafter⟩ | ⟨r', hr', hd', he⟩
        · have h₁ := readPayload_length_le hp
          have h₂ := Tokens.after_lt hval
          rw [hafter] at h₁
          omega
        · rw [he] at hr
          exact readHeaders_ne_nil hr' (hd' ▸ hd) (List.cons.inj hr).2

/-- What is read right has headers, and each of them a text. -/
theorem text_ne_nil_of_right (h : readHeaders turns ('\n' :: printBody lines payload) = some r) (hd : r.dangling = false)
    (hp : (readPayload r.after).1 = some payload) (hh : r.headers = lines.map HeaderLine.header) :
    lines ≠ [] ∧ ∀ l ∈ lines, l.text ≠ [] := by
  induction lines generalizing turns r with
  | nil => exact absurd hh (readHeaders_ne_nil h hd)
  | cons l lines ih =>
    refine ⟨List.cons_ne_nil _ _, ?_⟩
    by_cases ht : l.text = []
    · exact absurd hh (readHeaders_empty ht h hd hp)
    · cases lines with
      | nil =>
        intro x hx
        rwa [List.mem_singleton.mp hx]
      | cons l' lines =>
        cases turns with
        | zero => cases h
        | succ turns =>
          rw [printBody_cons, readHeaders_line ht, printBody_cons, emptyLineNext_print, if_neg (by decide),
            ← printBody_cons] at h
          obtain ⟨r', hr', rfl⟩ := Option.map_eq_some_iff.mp h
          have := ih hr' hd hp (List.cons.inj hh).2
          exact List.forall_mem_cons.mpr ⟨ht, this.2⟩

theorem length_le_printBody (lines : List HeaderLine) (payload : CStr) : lines.length ≤ (printBody lines payload).length := by
  induction lines with
  | nil => exact Nat.zero_le _
  | cons l lines ih =>
    rw [printBody_cons, List.length_append, List.length_cons]
    have : 0 < l.print.length := by
      unfold HeaderLine.print
      rw [List.length_append, List.length_cons]
      omega
    omega

/-- The length that the first header of that name gives. -/
def contentLength (headers : List Header) : Int :=
  ((headers.find? fun h => h.name.map Char.toLower = "content-length".toList.map Char.toLower).map
    fun h => atoi h.value).getD 0

theorem searchHeader_complete (headers : List Header) (name : CStr) : searchHeader headers false name =
    some ((headers.find? fun h => h.name.map Char.toLower = name.map Char.toLower).map Header.value) := by
  unfold searchHeader
  cases headers.find? fun h => h.name.map Char.toLower = name.map Char.toLower <;> rfl

/-- What is read of a message whose headers all have a text. -/
theorem readMessage_lines (hne : lines ≠ []) (htext : ∀ l ∈ lines, l.text ≠ []) :
    readMessage ('\n' :: printBody lines payload) = some ⟨lines.map HeaderLine.header, false, some payload,
      contentLength (lines.map HeaderLine.header), false⟩ := by
  have hlen := length_le_printBody lines payload
  have hturns : lines.length ≤ ('\n' :: printBody lines payload).length + 1 := by
    rw [List.length_cons]
    omega
  have hread : readHeaders _ ('\n' :: printBody lines payload) = _ := readHeaders_lines hne htext hturns
  unfold readMessage
  rw [hread, Option.bind_eq_bind, Option.bind_some, readPayload_emptyLine, searchHeader_complete]
  unfold contentLength
  simp only [Option.bind_eq_bind, Option.bind_some, Option.map_map, Function.comp_def]
  rfl

/-- Behind the start line: a message is read right exactly where it has headers and each of them has a text. -/
theorem readMessage_reads_iff (lines : List HeaderLine) (payload : CStr) :
    (∃ m, readMessage ('\n' :: printBody lines payload) = some m ∧ m.Reads lines payload) ↔
      lines ≠ [] ∧ ∀ l ∈ lines, l.text ≠ [] := by
  constructor
  · rintro ⟨m, hm, hr⟩
    unfold readMessage at hm
    simp only [Option.bind_eq_bind, Option.bind_eq_some_iff, Option.pure_def, Option.some.injEq] at hm
    obtain ⟨r, hread, size, -, rfl⟩ := hm
    exact text_ne_nil_of_right hread hr.complete hr.payload hr.headers
  · rintro ⟨hne, htext⟩
    exact ⟨_, readMessage_lines hne htext, rfl, rfl, rfl, rfl⟩

end Loop

/-! ## Requests and responses -/

variable {lines : List HeaderLine} {payload : CStr}

/-- The three words of a request line. -/
theorem RequestLine.tokens (l : RequestLine) (s : CStr) :
    Tokens.next (fun c => c = ' ' || c = '\t' || c = '\r' || c = '\n') (l.print ++ s) =
        some ⟨l.method, some (l.uri ++ ' ' :: (l.prot ++ '\r' :: '\n' :: s))⟩ ∧
      Tokens.next (fun c => c = ' ' || c = '\t') (l.uri ++ ' ' :: (l.prot ++ '\r' :: '\n' :: s)) =
        some ⟨l.uri, some (l.prot ++ '\r' :: '\n' :: s)⟩ ∧
      Tokens.next (fun c => c = ' ' || c = '\t' || c = '\r' || c = '\n') (l.prot ++ '\r' :: '\n' :: s) =
        some ⟨l.prot, some ('\n' :: s)⟩ := by
  have hword : ∀ c ∈ l.method ++ l.uri ++ l.prot,
      (decide (c = ' ') || decide (c = '\t') || decide (c = '\r') || decide (c = '\n')) = false ∧
        (decide (c = ' ') || decide (c = '\t')) = false := by
    intro c hc
    obtain ⟨h₁, h₂, h₃, h₄⟩ := l.words c hc
    simp [h₁, h₂, h₃, h₄]
  have hprint : l.print ++ s = l.method ++ ' ' :: (l.uri ++ ' ' :: (l.prot ++ '\r' :: '\n' :: s)) := by
    unfold RequestLine.print
    simp
  rw [hprint]
  refine ⟨?_, ?_, ?_⟩
  · exact Tokens.next_token (fun c hc => (hword c (by simp [hc])).1) l.ne_nil.1 rfl _
  · exact Tokens.next_token (fun c hc => (hword c (by simp [hc])).2) l.ne_nil.2.1 rfl _
  · exact Tokens.next_token (fun c hc => (hword c (by simp [hc])).1) l.ne_nil.2.2 rfl _

/-- The protocol and the rest of a status line. -/
theorem StatusLine.tokens (l : StatusLine) (s : CStr) :
    Tokens.next (fun c => c = ' ') (l.print ++ s) = some ⟨l.protocol, some (l.status ++ '\r' :: '\n' :: s)⟩ ∧
      Tokens.next lineDelim (l.status ++ '\r' :: '\n' :: s) = some ⟨l.status, some ('\n' :: s)⟩ := by
  have hprint : l.print ++ s = l.protocol ++ ' ' :: (l.status ++ '\r' :: '\n' :: s) := by
    unfold StatusLine.print
    simp
  rw [hprint]
  refine ⟨?_, ?_⟩
  · exact Tokens.next_token (fun c hc => decide_eq_false (l.word c hc)) l.ne_nil.1 rfl _
  · exact Tokens.next_token l.oneLine l.ne_nil.2 rfl _

/-- The start line of a request is read, and the message behind it. -/
theorem parseHttpRequest_print (l : RequestLine) (s : CStr) : parseHttpRequest (l.print ++ s) =
    (readMessage ('\n' :: s)).map fun m => ⟨httpParseOperation l.method, (uriUnescape l.uri).takeWhile (· ≠ '?'),
      ((uriUnescape l.uri).dropWhile (· ≠ '?')).tail?, l.prot, m⟩ := by
  obtain ⟨hmethod, huri, hprot⟩ := l.tokens s
  unfold parseHttpRequest
  rw [hmethod]
  simp only [Option.bind_eq_bind, Option.bind_some, Tokens.Token.after, Option.getD_some]
  rw [huri]
  simp only [Option.bind_some, Option.getD_some]
  rw [hprot]
  simp only [Option.bind_some, Option.getD_some]
  cases readMessage ('\n' :: s) <;> rfl

/-- The start line of a response. -/
theorem parseHttpResponse_print (l : StatusLine) (s : CStr) : parseHttpResponse (l.print ++ s) =
    (readMessage ('\n' :: s)).map fun m => ⟨l.protocol, atoi l.status, m⟩ := by
  obtain ⟨hprotocol, hstatus⟩ := l.tokens s
  unfold parseHttpResponse
  rw [hprotocol]
  simp only [Option.bind_eq_bind, Option.bind_some, Tokens.Token.after, Option.getD_some]
  rw [hstatus]
  simp only [Option.bind_some, Option.getD_some]
  cases readMessage ('\n' :: s) <;> rfl

/-- A well-formed message is read right exactly where it has headers and each of them has a text behind the colon. -/
theorem reads_iff_headers_given (lines : List HeaderLine) (payload : CStr) :
    (∀ l : RequestLine, (∃ r, parseHttpRequest (l.print ++ printBody lines payload) = some r ∧
      r.message.Reads lines payload) ↔ lines ≠ [] ∧ ∀ l ∈ lines, l.text ≠ []) ∧
    ∀ l : StatusLine, (∃ r, parseHttpResponse (l.print ++ printBody lines payload) = some r ∧
      r.message.Reads lines payload) ↔ lines ≠ [] ∧ ∀ l ∈ lines, l.text ≠ [] := by
  refine ⟨fun l => ?_, fun l => ?_⟩
  · rw [← readMessage_reads_iff lines payload, parseHttpRequest_print]
    simp only [Option.map_eq_some_iff]
    constructor
    · rintro ⟨r, ⟨m, hm, rfl⟩, hr⟩
      exact ⟨m, hm, hr⟩
    · rintro ⟨m, hm, hr⟩
      exact ⟨_, ⟨m, hm, rfl⟩, hr⟩
  · rw [← readMessage_reads_iff lines payload, parseHttpResponse_print]
    simp only [Option.map_eq_some_iff]
    constructor
    · rintro ⟨r, ⟨m, hm, rfl⟩, hr⟩
      exact ⟨m, hm, hr⟩
    · rintro ⟨m, hm, hr⟩
      exact ⟨_, ⟨m, hm, rfl⟩, hr⟩

/-- A request line. -/
def getCse : RequestLine where
  method := "GET".toList
  uri := "/TinyIoT".toList
  prot := "HTTP/1.1".toList
  ne_nil := by decide
  words := Tokens.forall_mem_of_all (by decide)

/-- A header without a value, not even a space. -/
def bareHeader : HeaderLine where
  name := "X-M2M-Origin".toList
  text := []
  ne_nil := by decide
  token := Tokens.forall_mem_of_all (by decide)
  oneLine := Tokens.forall_mem_of_all (by decide)

/-- The empty line is taken for the value, and there is none. -/
theorem not_reads_bareHeader : ¬ ∀ (l : RequestLine) lines payload,
    ∃ r, parseHttpRequest (l.print ++ printBody lines payload) = some r ∧ r.message.Reads lines payload := by
  intro h
  obtain ⟨r, hr, -⟩ := h getCse [bareHeader] []
  have hnone : (parseHttpRequest (getCse.print ++ printBody [bareHeader] [])).isNone = true := by decide
  rw [hr] at hnone
  cases hnone

end TinyIoT
