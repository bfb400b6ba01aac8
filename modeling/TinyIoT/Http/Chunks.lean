/-
A message that arrives in chunks. The first one is parsed as if it were all, and one more is read, as payload, where a
length is announced and no payload was found. So the head has to arrive whole, and of the payload counts what the first
chunk has, or else what the second one has; whatever comes later is not read.
-/
import TinyIoT.Http.Headers
import TinyIoT.Http.Payload

namespace TinyIoT

/-! ## Receiving -/

/-- The payload of a parsed message: what the next chunk has where a length is announced and there is none yet, and
normalised in each case. -/
def receivePayload (m : HttpMessage) (more : List CStr) : HttpMessage :=
  let payload := if 0 < m.payloadSize && (m.payload.getD []).isEmpty then some (cutNul (more.headD [])) else m.payload
  { m with payload := payload.map normalizePayload }

/-- A parser of messages, and what it leaves for the payload to be put in. -/
structure Reader (R : Type) where
  parse : CStr → Option R
  message : R → HttpMessage
  onMessage : (HttpMessage → HttpMessage) → R → R
  message_onMessage : ∀ f r, message (onMessage f r) = f (message r)

/-- The chunks that `recv` delivers: the first is parsed, and the next may be read as payload. -/
def Reader.receive {R : Type} (reader : Reader R) : List CStr → Option R
  | [] => none
  | first :: more => (reader.parse (cutNul first)).map (reader.onMessage (receivePayload · more))

/-- The reader of requests. -/
def requests : Reader HttpRequest where
  parse := parseHttpRequest
  message := HttpRequest.message
  onMessage := fun f r => { r with message := f r.message }
  message_onMessage := fun _ _ => rfl

/-- The reader of responses. -/
def responses : Reader HttpResponse where
  parse := parseHttpResponse
  message := HttpResponse.message
  onMessage := fun f r => { r with message := f r.message }
  message_onMessage := fun _ _ => rfl

/-- `respond`: the request that is passed to `handle_http_request`. -/
def respond : List CStr → Option HttpRequest := requests.receive

/-- `send_http_request`: the response that is read. -/
def receiveResponse : List CStr → Option HttpResponse := responses.receive

/-! ## A parse that went through does not depend on what follows -/

section Append

variable {s w : CStr} {turns : Nat} {r : HeaderRead} {m : HttpMessage}

theorem length_of_emptyLineNext (h : emptyLineNext s = true) : 3 ≤ s.length := by
  unfold emptyLineNext at h
  split at h
  · simp only [List.length_cons]
    omega
  · cases h

/-- The look behind a value needs three characters. -/
theorem emptyLineNext_append (h : 3 ≤ s.length) (w : CStr) : emptyLineNext (s ++ w) = emptyLineNext s := by
  obtain ⟨x, y, z, s, rfl⟩ : ∃ x y z s', s = x :: y :: z :: s' := by
    rcases s with _ | ⟨x, _ | ⟨y, _ | ⟨z, s⟩⟩⟩
    · simp at h
    · simp at h
    · simp at h
    · exact ⟨x, y, z, s, rfl⟩
  unfold emptyLineNext
  split
  · rename_i he
    simp only [List.cons_append, List.cons.injEq] at he
    obtain ⟨-, rfl, rfl, -⟩ := he
    rfl
  · rename_i he
    split
    · rename_i he'
      cases he'
      exact absurd rfl (he _ _)
    · rfl

/-- One turn of the loop over the headers. -/
theorem readHeaders_succ {key val : Tokens.Token Char} (hk : Tokens.next keyDelim s = some key)
    (hv : Tokens.next lineDelim key.after = some val) : readHeaders (turns + 1) s =
      if emptyLineNext val.after then
        some ⟨[⟨key.text.map Char.toLower, val.text.dropWhile (· = ' ')⟩], false, val.after,
          val.rest.isNone || val.after.isEmpty⟩
      else (readHeaders turns val.after).map fun r =>
        { r with headers := ⟨key.text.map Char.toLower, val.text.dropWhile (· = ' ')⟩ :: r.headers,
                 overrun := (val.rest.isNone || val.after.isEmpty) || r.overrun } := by
  rw [readHeaders, hk]
  dsimp only
  rw [hv]

/-- One turn, where there is text behind the value. -/
theorem readHeaders_some {key val k v : CStr} (hk : Tokens.next keyDelim s = some ⟨key, some k⟩)
    (hv : Tokens.next lineDelim k = some ⟨val, some v⟩) (hne : v ≠ []) : readHeaders (turns + 1) s =
      if emptyLineNext v then some ⟨[⟨key.map Char.toLower, val.dropWhile (· = ' ')⟩], false, v, false⟩
      else (readHeaders turns v).map fun r =>
        { r with headers := ⟨key.map Char.toLower, val.dropWhile (· = ' ')⟩ :: r.headers } := by
  obtain ⟨x, v, rfl⟩ := List.exists_cons_of_ne_nil hne
  exact readHeaders_succ hk hv

/-- At the end of the text the loop leaves an empty node. -/
theorem readHeaders_nil (h : readHeaders turns [] = some r) : r.dangling = true := by
  cases turns with
  | zero => cases h
  | succ turns =>
    cases h
    rfl

theorem readHeaders_after_le (h : readHeaders turns s = some r) : r.after.length ≤ s.length := by
  induction turns generalizing s r with
  | zero => cases h
  | succ turns ih =>
    cases hkey : Tokens.next keyDelim s with
    | none =>
      rw [readHeaders, hkey] at h
      cases h
      exact Nat.zero_le _
    | some key =>
      cases hval : Tokens.next lineDelim key.after with
      | none =>
        rw [readHeaders, hkey] at h
        dsimp only at h
        rw [hval] at h
        cases h
      | some val =>
        rw [readHeaders_succ hkey hval] at h
        have hk := Tokens.after_lt hkey
        have hv := Tokens.after_lt hval
        split at h
        · cases h
          dsimp only
          omega
        · obtain ⟨r', hr', rfl⟩ := Option.map_eq_some_iff.mp h
          have := ih hr'
          dsimp only
          omega

/-- The loop that found the empty line finds it again, and stops there. -/
theorem readHeaders_append (h : readHeaders turns s = some r) (hd : r.dangling = false) (w : CStr) :
    emptyLineNext r.after = true ∧ ∀ more, readHeaders (turns + more) (s ++ w) = some { r with after := r.after ++ w } := by
  induction turns generalizing s r with
  | zero => cases h
  | succ turns ih =>
    cases hkey : Tokens.next keyDelim s with
    | none =>
      rw [readHeaders, hkey] at h
      cases h
      cases hd
    | some key =>
      cases hval : Tokens.next lineDelim key.after with
      | none =>
        rw [readHeaders, hkey] at h
        dsimp only at h
        rw [hval] at h
        cases h
      | some val =>
        rw [readHeaders_succ hkey hval] at h
        have hafter : val.after ≠ [] := by
          intro he
          rw [he, if_neg (by decide)] at h
          obtain ⟨r', hr', rfl⟩ := Option.map_eq_some_iff.mp h
          rw [readHeaders_nil hr'] at hd
          cases hd
        have hk := Tokens.next_eq_some_after hkey (Tokens.after_ne_nil hval)
        have hv := Tokens.next_eq_some_after hval hafter
        have hturn : readHeaders (turns + 1) s = _ := readHeaders_some hk hv hafter
        have hturnLong : ∀ more, readHeaders (turns + more + 1) (s ++ w) = _ := fun more =>
          readHeaders_some (Tokens.next_append hk w) (Tokens.next_append hv w)
            (List.append_ne_nil_of_left_ne_nil hafter w)
        rw [← readHeaders_succ hkey hval, hturn] at h
        by_cases hempty : emptyLineNext val.after = true
        · rw [if_pos hempty] at h
          cases h
          refine ⟨hempty, fun more => ?_⟩
          rw [show turns + 1 + more = turns + more + 1 by omega, hturnLong,
            emptyLineNext_append (length_of_emptyLineNext hempty), if_pos hempty]
        · rw [if_neg hempty] at h
          obtain ⟨r', hr', rfl⟩ := Option.map_eq_some_iff.mp h
          obtain ⟨hfound, hmore⟩ := ih hr' hd
          have hlen : 3 ≤ val.after.length :=
            (length_of_emptyLineNext hfound).trans (readHeaders_after_le hr')
          refine ⟨hfound, fun more => ?_⟩
          rw [show turns + 1 + more = turns + more + 1 by omega, hturnLong, emptyLineNext_append hlen, if_neg hempty,
            hmore more]
          rfl

variable {lines : List HeaderLine} {payload : CStr}

theorem printBody_append (lines : List HeaderLine) (payload w : CStr) :
    printBody lines (payload ++ w) = printBody lines payload ++ w := by
  simp [printBody]

/-- What was read without an empty node has the whole head of the message. -/
theorem head_of_read (hne : lines ≠ []) (htext : ∀ l ∈ lines, l.text ≠ []) (h : readMessage s = some m)
    (hd : m.dangling = false) (hs : s ++ w = '\n' :: printBody lines payload) :
    ∃ p, s = '\n' :: printBody lines p ∧ p ++ w = payload := by
  unfold readMessage at h
  simp only [Option.bind_eq_bind, Option.bind_eq_some_iff, Option.pure_def, Option.some.injEq] at h
  obtain ⟨r, hread, size, -, rfl⟩ := h
  obtain ⟨hfound, hmore⟩ := readHeaders_append hread hd w
  have hfull : readHeaders (s.length + 1 + lines.length) ('\n' :: printBody lines payload) = _ :=
    readHeaders_lines hne htext (by omega)
  rw [← hs, hmore] at hfull
  have hafter : r.after ++ w = '\n' :: '\r' :: '\n' :: payload := congrArg HeaderRead.after (Option.some.inj hfull)
  have hlen := length_of_emptyLineNext hfound
  obtain ⟨p, hp⟩ : ∃ p, r.after = '\n' :: '\r' :: '\n' :: p := by
    rcases hr : r.after with _ | ⟨x, _ | ⟨y, _ | ⟨z, p⟩⟩⟩
    all_goals rw [hr] at hlen hafter
    all_goals simp at hlen hafter
    obtain ⟨rfl, rfl, rfl, -⟩ := hafter
    exact ⟨p, rfl⟩
  have hpayload : p ++ w = payload := by
    rw [hp] at hafter
    simpa using hafter
  refine ⟨p, List.append_cancel_right (hs.trans ?_), hpayload⟩
  rw [← hpayload, printBody_append, List.cons_append]

end Append

/-! ## Start lines -/

section Start

variable {s w : CStr} {lines : List HeaderLine} {payload : CStr}

/-- A request that was read without an empty node has the whole head. -/
theorem requestHead_of_read {r : HttpRequest} (l : RequestLine) (hne : lines ≠ []) (htext : ∀ l ∈ lines, l.text ≠ [])
    (h : parseHttpRequest s = some r) (hd : r.message.dangling = false)
    (hs : s ++ w = l.print ++ printBody lines payload) :
    ∃ p, s = l.print ++ printBody lines p ∧ p ++ w = payload := by
  unfold parseHttpRequest at h
  simp only [Option.bind_eq_bind, Option.bind_eq_some_iff, Option.pure_def, Option.some.injEq] at h
  obtain ⟨method, hmethod, uri, huri, prot, hprot, m, hm, rfl⟩ := h
  obtain ⟨hl₁, hl₂, hl₃⟩ := l.tokens (printBody lines payload)
  have hprotAfter : prot.after ≠ [] := by
    intro he
    rw [he] at hm
    cases hm
  -- the tokens of the first line are those of the whole message
  have h₁ := Tokens.next_append (Tokens.next_eq_some_after hmethod (Tokens.after_ne_nil huri)) w
  rw [hs, hl₁] at h₁
  have e₁ : _ = method.after ++ w := Option.some.inj (congrArg Tokens.Token.rest (Option.some.inj h₁))
  have h₂ := Tokens.next_append (Tokens.next_eq_some_after huri (Tokens.after_ne_nil hprot)) w
  rw [← e₁, hl₂] at h₂
  have e₂ : _ = uri.after ++ w := Option.some.inj (congrArg Tokens.Token.rest (Option.some.inj h₂))
  have h₃ := Tokens.next_append (Tokens.next_eq_some_after hprot hprotAfter) w
  rw [← e₂, hl₃] at h₃
  have e₃ : _ = prot.after ++ w := Option.some.inj (congrArg Tokens.Token.rest (Option.some.inj h₃))
  obtain ⟨p, -, hp⟩ := head_of_read hne htext hm hd e₃.symm
  refine ⟨p, List.append_cancel_right (hs.trans ?_), hp⟩
  rw [← hp, printBody_append, List.append_assoc]

/-- And a response. -/
theorem responseHead_of_read {r : HttpResponse} (l : StatusLine) (hne : lines ≠ []) (htext : ∀ l ∈ lines, l.text ≠ [])
    (h : parseHttpResponse s = some r) (hd : r.message.dangling = false)
    (hs : s ++ w = l.print ++ printBody lines payload) :
    ∃ p, s = l.print ++ printBody lines p ∧ p ++ w = payload := by
  unfold parseHttpResponse at h
  simp only [Option.bind_eq_bind, Option.bind_eq_some_iff, Option.pure_def, Option.some.injEq] at h
  obtain ⟨protocol, hprotocol, status, hstatus, m, hm, rfl⟩ := h
  obtain ⟨hl₁, hl₂⟩ := l.tokens (printBody lines payload)
  have hstatusAfter : status.after ≠ [] := by
    intro he
    rw [he] at hm
    cases hm
  have h₁ := Tokens.next_append (Tokens.next_eq_some_after hprotocol (Tokens.after_ne_nil hstatus)) w
  rw [hs, hl₁] at h₁
  have e₁ : _ = protocol.after ++ w := Option.some.inj (congrArg Tokens.Token.rest (Option.some.inj h₁))
  have h₂ := Tokens.next_append (Tokens.next_eq_some_after hstatus hstatusAfter) w
  rw [← e₁, hl₂] at h₂
  have e₂ : _ = status.after ++ w := Option.some.inj (congrArg Tokens.Token.rest (Option.some.inj h₂))
  obtain ⟨p, -, hp⟩ := head_of_read hne htext hm hd e₂.symm
  refine ⟨p, List.append_cancel_right (hs.trans ?_), hp⟩
  rw [← hp, printBody_append, List.append_assoc]

end Start

/-! ## Messages in chunks -/

/-- A message with the length of its payload arrives in chunks. -/
structure Arrives (start : CStr) (lines : List HeaderLine) (payload : CStr) (chunks : List CStr) : Prop where
  bytes : chunks.flatten = start ++ printBody lines payload
  nonempty : ∀ c ∈ chunks, c ≠ []
  text : ∀ c ∈ start ++ printBody lines [], c ≠ Char.ofNat 0
  announced : ∃ h ∈ lines.map HeaderLine.header, h.name = "content-length".toList
  size : contentLength (lines.map HeaderLine.header) = payload.length

/-- Each header has a text behind its colon. -/
def Given (lines : List HeaderLine) : Prop := ∀ l ∈ lines, l.text ≠ []

/-- The payload that is taken: what the first chunk has of it, or else the second chunk. -/
def taken (part : CStr) (more : List CStr) : CStr :=
  if (cutNul part).isEmpty then cutNul (more.headD []) else cutNul part

/-- What is taken for the payload leaves none of it out but line breaks, tabs and whatever else is dropped at the end; or it
is all dropped, where a NUL stands first in the payload. -/
def LosesNothing (payload part : CStr) : Prop :=
  (∃ rest, part ++ rest = cutNul payload ∧ ∀ c ∈ rest, isJsonValidChar c = false) ∨
    cutNul payload = [] ∧ ∀ c ∈ part, isJsonValidChar c = false

/-- The first chunk has the whole head, and what is taken for the payload loses nothing. -/
def ArrivesWhole (head payload : CStr) : List CStr → Prop
  | [] => False
  | first :: more => head <+: first ∧ LosesNothing payload (taken (first.drop head.length) more)

section Chunks

variable {start : CStr} {lines : List HeaderLine} {payload p first : CStr} {chunks more : List CStr} {headers : List Header}

theorem cutNul_append {s : CStr} (h : ∀ c ∈ s, c ≠ Char.ofNat 0) (t : CStr) : cutNul (s ++ t) = s ++ cutNul t := by
  unfold cutNul
  exact List.takeWhile_append_of_pos fun c hc => decide_eq_true (h c hc)

theorem cutNul_prefix (s : CStr) : cutNul s <+: s := List.takeWhile_prefix _

theorem taken_nil (p : CStr) : taken p [] = cutNul p := by
  unfold taken
  split
  · rename_i h
    rw [List.isEmpty_iff.mp h]
    rfl
  · rfl

theorem cutNul_prefix_append (s t : CStr) : cutNul s <+: cutNul (s ++ t) := by
  unfold cutNul
  rw [List.takeWhile_append]
  split
  · exact (List.takeWhile_prefix _).trans (List.prefix_append _ _)
  · exact List.prefix_rfl

theorem normalizePayload_eq_nil_iff (s : CStr) : normalizePayload s = [] ↔ ∀ c ∈ s, isJsonValidChar c = false := by
  unfold normalizePayload
  rw [List.filter_eq_nil_iff]
  simp only [Bool.not_eq_true]

/-- Of a payload in parts what is taken begins the payload, but where the payload begins with a NUL. -/
theorem taken_prefix (hp : p ++ more.flatten = payload) : taken p more <+: cutNul payload ∨ cutNul payload = [] := by
  obtain ⟨v, hv⟩ := cutNul_prefix p
  unfold taken
  by_cases hempty : (cutNul p).isEmpty = true
  · rw [if_pos hempty]
    cases p with
    | nil =>
      -- the first chunk has nothing of the payload
      left
      rw [← hp]
      cases more with
      | nil => exact List.nil_prefix
      | cons c more => exact cutNul_prefix_append c more.flatten
    | cons c p =>
      right
      rw [← hp]
      unfold cutNul at hempty ⊢
      rw [List.takeWhile_cons] at hempty
      rw [List.cons_append, List.takeWhile_cons]
      split at hempty
      · simp at hempty
      · rename_i hc
        rw [if_neg hc]
  · rw [if_neg hempty, ← hp]
    exact .inl (cutNul_prefix_append p more.flatten)

/-- What is taken is normalised to the payload exactly where it loses nothing. -/
theorem normalizePayload_taken_iff (hp : p ++ more.flatten = payload) :
    normalizePayload (taken p more) = normalizePayload (cutNul payload) ↔ LosesNothing payload (taken p more) := by
  unfold LosesNothing
  constructor
  · intro h
    rcases taken_prefix hp with ⟨rest, hrest⟩ | hnil
    · refine .inl ⟨rest, hrest, (normalizePayload_eq_nil_iff rest).mp ?_⟩
      rw [← hrest] at h
      unfold normalizePayload at h ⊢
      rw [List.filter_append] at h
      exact List.self_eq_append_right.mp h
    · refine .inr ⟨hnil, (normalizePayload_eq_nil_iff _).mp ?_⟩
      rw [h, hnil]
      rfl
  · rintro (⟨rest, hrest, hdropped⟩ | ⟨hnil, hdropped⟩)
    · rw [← hrest]
      unfold normalizePayload
      rw [List.filter_append, show rest.filter isJsonValidChar = [] from (normalizePayload_eq_nil_iff rest).mpr hdropped,
        List.append_nil]
    · rw [(normalizePayload_eq_nil_iff _).mpr hdropped, hnil]
      rfl

/-- What is received behind a head that is whole. -/
theorem receivePayload_head {size : Int} (hsize : size = payload.length) (hp : p ++ more.flatten = payload)
    (hne : ∀ c ∈ more, c ≠ []) : receivePayload ⟨headers, false, some (cutNul p), size, false⟩ more =
      ⟨headers, false, some (normalizePayload (taken p more)), size, false⟩ := by
  unfold receivePayload taken
  dsimp only [Option.getD_some]
  by_cases hempty : (cutNul p).isEmpty = true
  · rw [if_pos hempty]
    by_cases hpos : 0 < size
    · rw [if_pos (by rw [hempty, decide_eq_true hpos]; rfl)]
      rfl
    · -- nothing is announced, and nothing follows
      rw [if_neg (by simp [hpos])]
      have hnil : payload = [] := List.eq_nil_of_length_eq_zero (by omega)
      have hmore : more = [] := by
        cases more with
        | nil => rfl
        | cons c more =>
          have hc : c = [] := by
            have := hp.trans hnil
            simp only [List.append_eq_nil_iff, List.flatten_cons] at this
            exact this.2.1
          exact absurd hc (hne c List.mem_cons_self)
      rw [hmore, List.isEmpty_iff.mp hempty]
      rfl
  · rw [if_neg hempty, if_neg (by simp [hempty])]
    rfl

theorem Arrives.lines_ne_nil (h : Arrives start lines payload chunks) : lines ≠ [] := by
  obtain ⟨x, hx, -⟩ := h.announced
  rintro rfl
  cases hx

/-- The chunks, taken apart behind the first. -/
theorem Arrives.cons (h : Arrives start lines payload chunks) : ∃ first more, chunks = first :: more := by
  cases chunks with
  | nil =>
    obtain ⟨l, ls, hl⟩ := List.exists_cons_of_ne_nil h.lines_ne_nil
    have := h.bytes
    rw [hl, printBody_cons] at this
    unfold HeaderLine.print at this
    simp at this
  | cons first more => exact ⟨first, more, rfl⟩

/-- What a reader makes of a start line and of a message behind it. -/
structure Reader.Starts {R : Type} (reader : Reader R) (start : CStr) (made : HttpMessage → R) : Prop where
  message : ∀ m, reader.message (made m) = m
  onMessage : ∀ f m, reader.onMessage f (made m) = made (f m)
  parse : ∀ s, reader.parse (start ++ s) = (readMessage ('\n' :: s)).map made
  head : ∀ {lines payload s w r}, lines ≠ [] → Given lines → reader.parse s = some r →
    (reader.message r).dangling = false → s ++ w = start ++ printBody lines payload →
      ∃ p, s = start ++ printBody lines p ∧ p ++ w = payload

section Reader

variable {R : Type} {reader : Reader R} {made : HttpMessage → R}

/-- What is received where the first chunk has the head. -/
theorem receive_head (hr : reader.Starts start made) (h : Arrives start lines payload chunks) (htext : Given lines)
    (hfirst : first = start ++ printBody lines p) (hp : p ++ more.flatten = payload) (hne : ∀ c ∈ more, c ≠ []) :
    reader.receive (first :: more) = some (made ⟨lines.map HeaderLine.header, false,
      some (normalizePayload (taken p more)), contentLength (lines.map HeaderLine.header), false⟩) := by
  have hcut : cutNul first = start ++ printBody lines (cutNul p) := by
    have := cutNul_append h.text p
    rwa [List.append_assoc, ← printBody_append, List.nil_append, ← hfirst, List.append_assoc, ← printBody_append,
      List.nil_append] at this
  unfold Reader.receive
  dsimp only
  rw [hcut, hr.parse, readMessage_lines h.lines_ne_nil htext, Option.map_some, Option.map_some, hr.onMessage,
    receivePayload_head h.size hp hne]

/-- The message in one chunk. -/
theorem receive_one (hr : reader.Starts start made) (h : Arrives start lines payload chunks) (htext : Given lines) :
    reader.receive [chunks.flatten] = some (made ⟨lines.map HeaderLine.header, false,
      some (normalizePayload (cutNul payload)), contentLength (lines.map HeaderLine.header), false⟩) := by
  rw [← taken_nil payload]
  exact receive_head hr h htext h.bytes (by simp) (by simp)

/-- The same is received exactly where the head arrives whole and so does what is taken for the payload. -/
theorem receive_eq_iff (hr : reader.Starts start made) (h : Arrives start lines payload chunks) (htext : Given lines) :
    reader.receive chunks = reader.receive [chunks.flatten] ↔ ArrivesWhole (start ++ printBody lines []) payload chunks := by
  obtain ⟨first, more, rfl⟩ := h.cons
  have hbytes : first ++ more.flatten = start ++ printBody lines payload := h.bytes
  have hne : ∀ c ∈ more, c ≠ [] := fun c hc => h.nonempty c (List.mem_cons_of_mem _ hc)
  have hsplit : ∀ p, start ++ printBody lines p = start ++ printBody lines [] ++ p := fun p => by
    rw [List.append_assoc, ← printBody_append, List.nil_append]
  -- what a first chunk with the head gives
  have hwhole : ∀ p, first = start ++ printBody lines [] ++ p →
      (reader.receive (first :: more) = reader.receive [(first :: more).flatten] ↔
        LosesNothing payload (taken p more)) := by
    intro p hp
    have hpayload : p ++ more.flatten = payload := by
      have := hbytes
      rw [hp, hsplit payload, List.append_assoc] at this
      exact List.append_cancel_left this
    rw [receive_one hr h htext, receive_head hr h htext (hp.trans (hsplit p).symm) hpayload hne, Option.some.injEq,
      ← normalizePayload_taken_iff hpayload]
    constructor
    · intro he
      have := congrArg (fun m => HttpMessage.payload (reader.message m)) he
      simpa only [hr.message, Option.some.injEq] using this
    · intro he
      rw [he]
  unfold ArrivesWhole
  dsimp only
  constructor
  · intro he
    have hsome := he.trans (receive_one hr h htext)
    unfold Reader.receive at hsome
    obtain ⟨r, hparse, hr'⟩ := Option.map_eq_some_iff.mp hsome
    have hd : (reader.message r).dangling = false := by
      have := congrArg (fun m => HttpMessage.dangling (reader.message m)) hr'
      simp only [hr.message, reader.message_onMessage] at this
      exact this
    obtain ⟨w, hw⟩ := cutNul_prefix first
    have hall : cutNul first ++ (w ++ more.flatten) = start ++ printBody lines payload := by
      rw [← List.append_assoc, hw, hbytes]
    obtain ⟨p, hp, -⟩ := hr.head h.lines_ne_nil htext hparse hd hall
    have hfirst : first = start ++ printBody lines [] ++ (p ++ w) := by
      rw [← List.append_assoc, ← hsplit, ← hp, hw]
    refine ⟨⟨_, hfirst.symm⟩, ?_⟩
    rw [hfirst, List.drop_left]
    exact (hwhole _ hfirst).mp he
  · rintro ⟨⟨p, hp⟩, he⟩
    rw [← hp, List.drop_left] at he
    exact (hwhole p hp.symm).mpr he

end Reader

end Chunks

theorem requests_starts (l : RequestLine) : requests.Starts l.print fun m =>
    ⟨httpParseOperation l.method, (uriUnescape l.uri).takeWhile (· ≠ '?'),
      ((uriUnescape l.uri).dropWhile (· ≠ '?')).tail?, l.prot, m⟩ where
  message := fun _ => rfl
  onMessage := fun _ _ => rfl
  parse := parseHttpRequest_print l
  head := requestHead_of_read l

theorem responses_starts (l : StatusLine) : responses.Starts l.print fun m => ⟨l.protocol, atoi l.status, m⟩ where
  message := fun _ => rfl
  onMessage := fun _ _ => rfl
  parse := parseHttpResponse_print l
  head := responseHead_of_read l

/-- A message whose length is announced is received, however it is divided, as it is in one chunk where there is only one,
or where its headers all have a text, the first chunk has the whole head, and of the payload the first chunk has all that
is kept, or has nothing and the second chunk has; and where its headers all have a text, only there. -/
theorem received_iff_arrives_whole (lines : List HeaderLine) (payload : CStr) (chunks : List CStr) :
    (∀ l : RequestLine, Arrives l.print lines payload chunks →
      (chunks.length = 1 ∨ Given lines ∧ ArrivesWhole (l.print ++ printBody lines []) payload chunks →
        respond chunks = respond [chunks.flatten]) ∧
      (Given lines → respond chunks = respond [chunks.flatten] →
        ArrivesWhole (l.print ++ printBody lines []) payload chunks)) ∧
    ∀ l : StatusLine, Arrives l.print lines payload chunks →
      (chunks.length = 1 ∨ Given lines ∧ ArrivesWhole (l.print ++ printBody lines []) payload chunks →
        receiveResponse chunks = receiveResponse [chunks.flatten]) ∧
      (Given lines → receiveResponse chunks = receiveResponse [chunks.flatten] →
        ArrivesWhole (l.print ++ printBody lines []) payload chunks) := by
  have hone : chunks.length = 1 → chunks = [chunks.flatten] := by
    intro h
    obtain ⟨c, rfl⟩ := List.length_eq_one_iff.mp h
    simp
  refine ⟨fun l h => ⟨?_, fun htext => (receive_eq_iff (requests_starts l) h htext).mp⟩,
    fun l h => ⟨?_, fun htext => (receive_eq_iff (responses_starts l) h htext).mp⟩⟩
  · rintro (hc | ⟨htext, hwhole⟩)
    · rw [← hone hc]
    · exact (receive_eq_iff (requests_starts l) h htext).mpr hwhole
  · rintro (hc | ⟨htext, hwhole⟩)
    · rw [← hone hc]
    · exact (receive_eq_iff (responses_starts l) h htext).mpr hwhole

/-- The creation of a resource. -/
def postCse : RequestLine where
  method := "POST".toList
  uri := "/TinyIoT".toList
  prot := "HTTP/1.1".toList
  ne_nil := by decide
  words := Tokens.forall_mem_of_all (by decide)

def lengthFour : HeaderLine where
  name := "Content-Length".toList
  text := " 4".toList
  ne_nil := by decide
  token := Tokens.forall_mem_of_all (by decide)
  oneLine := Tokens.forall_mem_of_all (by decide)

/-- The head in one chunk, and the payload in two. -/
def threeChunks : List CStr := [postCse.print ++ printBody [lengthFour] [], "[12".toList, "]".toList]

/-- The head and the payload in a chunk each. -/
def twoChunks : List CStr := [postCse.print ++ printBody [lengthFour] [], "[12]".toList]

theorem twoChunks_arrive : Arrives postCse.print [lengthFour] "[12]".toList twoChunks where
  bytes := by decide
  nonempty := by decide
  text := Tokens.forall_mem_of_all (by decide)
  announced := by decide
  size := by decide

theorem received_iff_arrives_whole_two :
    Arrives postCse.print [lengthFour] "[12]".toList twoChunks ∧ respond twoChunks = respond [twoChunks.flatten] :=
  ⟨twoChunks_arrive, ((received_iff_arrives_whole [lengthFour] "[12]".toList twoChunks).1 postCse twoChunks_arrive).1
    (.inr ⟨by unfold Given; decide, ⟨⟨[], by decide⟩, .inl ⟨[], by decide, by simp⟩⟩⟩)⟩

/-- The last byte of the payload comes after the second read. -/
theorem not_received_threeChunks : ¬ ∀ (l : RequestLine) lines payload chunks,
    Arrives l.print lines payload chunks → respond chunks = respond [chunks.flatten] := by
  intro h
  have harrives : Arrives postCse.print [lengthFour] "[12]".toList threeChunks :=
    ⟨by decide, by decide, Tokens.forall_mem_of_all (by decide), by decide, by decide⟩
  have heq := congrArg (Option.map fun r => r.message.payload) (h postCse [lengthFour] "[12]".toList threeChunks harrives)
  exact absurd heq (by decide)

end TinyIoT
