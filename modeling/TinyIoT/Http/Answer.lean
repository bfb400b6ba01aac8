/-
The answer to a request: `http_respond_to_client` writes it in two pieces, the head and the content with a line break
behind it, and the CSE that forwarded the request takes the status code and the content from what `send_http_request`
receives. The line break is beyond the length that is announced, and it does not matter which part of it arrives.
-/
import TinyIoT.Http.Forwarding

namespace TinyIoT

open JsonText (Value)

/-! ## Writing -/

/-- `rsc_to_http_status`: status codes, with the status they are sent as. -/
def httpStatusTable : List (List Int × Int × String) :=
  [([2000, 2002, 2004], 200, "OK"),
    ([2001], 201, "Created"),
    ([1000, 1001, 1002], 202, "Accepted"),
    ([4000, 4102, 4110, 4120, 4122, 4123, 4118, 4143, 6010, 6023, 6024], 400, "Bad Request"),
    ([4101, 4103, 5105, 5203, 5205, 4106, 4107, 4108, 4109, 4111, 4112, 4113, 4114, 4115, 4116, 4117, 4126, 4127, 4128,
      5208],
      403, "Forbidden"),
    ([4004, 4119, 4121, 5103], 404, "Not Found"),
    ([4005], 405, "Method Not Allowed"),
    ([5207], 406, "Not Acceptable"),
    ([4104, 4105, 4124, 5106], 409, "Conflict"),
    ([4015], 415, "Unsupported Media Type"),
    ([5000, 5204, 5209, 5221], 500, "Internal Server Error"),
    ([4001, 5001, 4125, 5206], 501, "Not Implemented"),
    ([4008], 504, "Gateway Timeout")]

/-- Another code has no text: "%s" prints NULL as "(null)". -/
def rscToHttpStatus (rsc : Int) : Int × String :=
  ((httpStatusTable.find? fun e => rsc ∈ e.1).map (·.2)).getD (200, "(null)")

/-- `DEFAULT_RESPONSE_HEADERS`. -/
def defaultResponseHeaders : List (String × String) :=
  [("Connection", "Close"),
    ("Server", "tinyIoT v0.1"),
    ("Accept", "application/json"),
    ("Content-Type", "application/vnd.onem2m-res+json"),
    ("Access-Control-Allow-Origin", "*"),
    ("Access-Control-Allow-Headers", "Accept, Accept-Language, Content-Language, Content-Type, X-M2M-Origin, X-M2M-RI, X-M2M-RVI"),
    ("Access-Control-Allow-Methods", "GET, PUT, POST, DELETE, OPTIONS"),
    ("Access-Control-Request-Methods", "GET, PUT, POST, DELETE, OPTIONS")]

/-- The headers of every answer, as they are set. -/
def defaultHeaders : List (String × Option CStr) := defaultResponseHeaders.map fun h => (h.1, some h.2.toList)

/-- The code and the text of a status line. -/
def statusText (status : Int × String) : CStr := Decimal.ofInt status.1 ++ ' ' :: status.2.toList

/-- What `http_respond_to_client` reads of a primitive. -/
structure HttpAnswer where
  op : Operation
  rsc : Int
  rvi : Rvi := .none
  rqi : Option CStr := none
  cnst : Int := 0
  cnot : Int := 0
  responsePc : Option Value := none

/-- The member of that name, of an object. -/
def valueItem (v : Value) (name : String) : Option Value :=
  match v with
  | .obj ms => (ms.find? fun e => sameKey e.1 name.toList).map (·.2)
  | _ => none

/-- `child`: the first item of an array or an object. -/
def firstChild : Value → Option Value
  | .arr l => l.head?
  | .obj ms => ms.head?.map (·.2)
  | _ => none

/-- The location of a resource that was created: "m2m:uri", or "uri" of the first item. -/
def contentLocation (a : HttpAnswer) : Option CStr :=
  if a.op = .create then
    a.responsePc.bind fun pc =>
      match (valueItem pc "m2m:uri").orElse fun _ => (firstChild pc).bind (valueItem · "uri") with
      | some (.str s) => some s
      | _ => none
  else none

/-- The headers that depend on the primitive. -/
def answerHeaders (a : HttpAnswer) : List (String × Option CStr) :=
  [("Content-Location", contentLocation a),
    ("Content-Length", a.responsePc.map fun pc => Decimal.ofNat (cjsonPrintUnformatted pc).length),
    ("X-M2M-RSC", some (Decimal.ofInt a.rsc)),
    ("X-M2M-RVI", fromRvi a.rvi),
    ("X-M2M-RI", a.rqi),
    ("X-M2M-CTS", if 0 < a.cnst then some (Decimal.ofInt a.cnst) else none),
    ("X-M2M-CTO", if 0 < a.cnot then some (Decimal.ofInt a.cnot) else none)]

/-- `http_respond_to_client`: the head, and the content where there is one. -/
def httpRespondToClient (a : HttpAnswer) : Option (CStr × Option CStr) := do
  let headers ← (answerHeaders a).foldlM setHeader []
  let head := "HTTP/1.1 ".toList ++ statusText (rscToHttpStatus a.rsc) ++ ['\r', '\n'] ++ headerText defaultHeaders ++
    headers ++
    ['\r', '\n']
  if head.length < bufSize then some (head, a.responsePc.map cjsonPrintUnformatted) else none

/-! ## Reading -/

/-- What `http_forwarding` takes from the response: `rsc` and `response_pc`. -/
def readAnswer (res : HttpResponse) : Option (Int × Option Value) :=
  (searchHeader res.message.headers res.message.dangling "x-m2m-rsc".toList).map fun rsc =>
    ((rsc.map atoi).getD 5103, res.message.payload.bind cjsonParse)

/-- The headers of an answer are read as they are written, and its content too. -/
structure AnswerGiven (a : HttpAnswer) : Prop where
  rqi : ∀ rqi ∈ a.rqi, IsHeaderValue rqi
  location : ∀ s ∈ contentLocation a, IsHeaderValue s
  content : ∀ v ∈ a.responsePc, Arriving v

/-- How an answer arrives: its head in the first chunk, and its content behind it or in the next chunk, with some of the
line break or without. -/
def AnswerArrives (head : CStr) (body : Option CStr) (chunks : List CStr) : Prop :=
  ∃ first more, chunks = (head ++ first) :: more ∧
    match body with
    | none => first = []
    | some body => ∃ t, t <+: ['\r', '\n'] ∧ (if first = [] then more.headD [] else first) = body ++ t

section Answer

variable {a : HttpAnswer} {head : CStr} {body : Option CStr} {chunks : List CStr}

/-- The names of headers ahead of others, none of which is looked for. -/
def PassedOver (name : CStr) (headers : List (String × Option CStr)) : Prop :=
  ∀ h ∈ headers, h.1.toList.map Char.toLower ≠ name.map Char.toLower ∧
    (h.1.toList.map Char.toLower).map Char.toLower = h.1.toList.map Char.toLower

theorem searchHeader_append {name : CStr} {pre : List (String × Option CStr)} (h : PassedOver name pre)
    (headers : List (String × Option CStr)) :
    searchHeader (givenHeaders (pre ++ headers)) false name = searchHeader (givenHeaders headers) false name := by
  induction pre with
  | nil => rfl
  | cons e pre ih =>
    obtain ⟨hne, hlower⟩ := h e List.mem_cons_self
    rw [List.cons_append, searchHeader_skip hne hlower, ih fun h' hh => h h' (List.mem_cons_of_mem _ hh)]

theorem defaultHeaders_passedOver : ∀ name ∈ ["x-m2m-rsc".toList, "content-length".toList],
    PassedOver name defaultHeaders := by
  have hall : (["x-m2m-rsc".toList, "content-length".toList].all fun name => defaultHeaders.all fun h =>
      decide (h.1.toList.map Char.toLower ≠ name.map Char.toLower ∧
        (h.1.toList.map Char.toLower).map Char.toLower = h.1.toList.map Char.toLower)) = true := by
    decide +kernel
  intro name hname h hh
  exact of_decide_eq_true (List.all_eq_true.mp (List.all_eq_true.mp hall name hname) h hh)

theorem defaultHeaders_given : ∀ h ∈ defaultHeaders, IsHeaderName h.1.toList ∧ ∀ value ∈ h.2, IsHeaderValue value := by
  have hall : (defaultResponseHeaders.all fun h => decide (h.1.toList ≠ [] ∧
      h.1.toList.all (fun c => decide (keyDelim c = false ∧ c ≠ Char.ofNat 0)) = true ∧
      h.2.toList.all (fun c => decide (lineDelim c = false ∧ c ≠ Char.ofNat 0)) = true ∧
      h.2.toList.dropWhile (· = ' ') = h.2.toList)) = true := by
    decide +kernel
  intro h hh
  obtain ⟨e, he, rfl⟩ := List.mem_map.mp hh
  obtain ⟨hne, hname, hvalue, htrim⟩ := of_decide_eq_true (List.all_eq_true.mp hall e he)
  refine ⟨⟨hne, fun c hc => of_decide_eq_true (List.all_eq_true.mp hname c hc)⟩, fun value hv => ?_⟩
  cases hv
  exact ⟨fun c hc => of_decide_eq_true (List.all_eq_true.mp hvalue c hc), htrim⟩

theorem answerHeaders_given (h : AnswerGiven a) :
    ∀ e ∈ answerHeaders a, IsHeaderName e.1.toList ∧ ∀ value ∈ e.2, IsHeaderValue value := by
  have hnames : ∀ name ∈ ["Content-Location", "Content-Length", "X-M2M-RSC", "X-M2M-RVI", "X-M2M-RI", "X-M2M-CTS",
    "X-M2M-CTO"],
      IsHeaderName name.toList := by
    intro name hname
    simp only [List.mem_cons, List.not_mem_nil, or_false] at hname
    rcases hname with rfl | rfl | rfl | rfl | rfl | rfl | rfl <;>
      exact ⟨by decide, Tokens.forall_mem_of_all (by decide)⟩
  have hint : ∀ n, IsHeaderValue (Decimal.ofInt n) := fun n => isHeaderValue_of_chars (ofInt_range n)
  intro e he
  simp only [answerHeaders, List.mem_cons, List.not_mem_nil, or_false] at he
  rcases he with rfl | rfl | rfl | rfl | rfl | rfl | rfl <;> refine ⟨hnames _ (by simp), fun value hvalue => ?_⟩
  · exact h.location value hvalue
  · obtain ⟨pc, -, rfl⟩ := Option.map_eq_some_iff.mp hvalue
    refine isHeaderValue_of_chars fun c hc => ?_
    have := Decimal.isDigit_range (ofNat_digits _ c hc)
    omega
  · cases hvalue
    exact hint _
  · cases hrvi : a.rvi <;> rw [hrvi] at hvalue <;> cases hvalue <;>
      exact isHeaderValue_of_chars (Tokens.forall_mem_of_all (by decide))
  · exact h.rqi value hvalue
  · dsimp only at hvalue
    split at hvalue <;> cases hvalue
    exact hint _
  · dsimp only at hvalue
    split at hvalue <;> cases hvalue
    exact hint _

/-- The status code and the length are found among the headers. -/
theorem searchHeader_answer (a : HttpAnswer) :
    searchHeader (givenHeaders (defaultHeaders ++ answerHeaders a)) false "x-m2m-rsc".toList =
      some (some (Decimal.ofInt a.rsc)) ∧
      searchHeader (givenHeaders (defaultHeaders ++ answerHeaders a)) false "content-length".toList =
        some (a.responsePc.map fun pc => Decimal.ofNat (cjsonPrintUnformatted pc).length) := by
  unfold answerHeaders
  refine ⟨?_, ?_⟩
  · rw [searchHeader_append (defaultHeaders_passedOver _ (by simp)), searchHeader_skip (by decide) (by decide),
      searchHeader_skip (by decide) (by decide)]
    exact searchHeader_found (by decide) _ _
  · rw [searchHeader_append (defaultHeaders_passedOver _ (by simp)), searchHeader_skip (by decide) (by decide)]
    cases a.responsePc with
    | some pc => exact searchHeader_found (by decide) _ _
    | none =>
      rw [Option.map_none, searchHeader_absent, searchHeader_skip (by decide) (by decide),
        searchHeader_skip (by decide) (by decide),
        searchHeader_skip (by decide) (by decide), searchHeader_skip (by decide) (by decide),
        searchHeader_skip (by decide) (by decide)]
      rfl

theorem contentLength_of_search {headers : List Header} {value : Option CStr}
    (h : searchHeader headers false "content-length".toList = some value) : contentLength headers =
      (value.map atoi).getD 0 := by
  rw [searchHeader_complete, Option.some.injEq] at h
  unfold contentLength
  rw [← h, Option.map_map]
  rfl

/-- The status lines there are. -/
def statuses : List (Int × String) := httpStatusTable.map (fun e => e.2) ++ [(200, "(null)")]

theorem rscToHttpStatus_mem (rsc : Int) : rscToHttpStatus rsc ∈ statuses := by
  unfold rscToHttpStatus statuses
  cases hfound : httpStatusTable.find? fun e => rsc ∈ e.1 with
  | none => exact List.mem_append_right _ (List.mem_singleton.mpr rfl)
  | some e => exact List.mem_append_left _ (List.mem_map.mpr ⟨e, List.mem_of_find?_eq_some hfound, rfl⟩)

theorem statuses_text : ∀ e ∈ statuses, ∀ c ∈ e.2.toList, lineDelim c = false ∧ c ≠ Char.ofNat 0 := by
  have hall : (statuses.all fun e => e.2.toList.all fun c => decide (lineDelim c = false ∧ c ≠ Char.ofNat 0)) = true := by
    decide +kernel
  intro e he c hc
  exact of_decide_eq_true (List.all_eq_true.mp (List.all_eq_true.mp hall e he) c hc)

/-- The texts of the table are one line. -/
theorem status_text (rsc : Int) : ∀ c ∈ statusText (rscToHttpStatus rsc), lineDelim c = false ∧ c ≠ Char.ofNat 0 := by
  intro c hc
  rcases List.mem_append.mp hc with hc | hc
  · exact (isHeaderValue_of_chars (ofInt_range _)).oneLine c hc
  · rcases List.mem_cons.mp hc with rfl | hc
    · decide
    · exact statuses_text _ (rscToHttpStatus_mem rsc) c hc

/-- The head is a status line and header lines. -/
theorem respond_head (h : AnswerGiven a) (hout : httpRespondToClient a = some (head, body)) :
    ∃ (l : StatusLine) (lines : List HeaderLine), head = l.print ++ printBody lines [] ∧ lines ≠ [] ∧
      lines.map HeaderLine.header = givenHeaders (defaultHeaders ++ answerHeaders a) ∧ (∀ l ∈ lines, l.text ≠ []) ∧
      Char.ofNat 0 ∉ head ∧ body = a.responsePc.map cjsonPrintUnformatted := by
  have hgiven : ∀ e ∈ defaultHeaders ++ answerHeaders a, IsHeaderName e.1.toList ∧ ∀ value ∈ e.2, IsHeaderValue value := by
    intro e he
    rcases List.mem_append.mp he with he | he
    · exact defaultHeaders_given e he
    · exact answerHeaders_given h e he
  obtain ⟨lines, hlines, hheaders, htext⟩ :=
    lines_of_headerText (fun e he => (hgiven e he).1) (fun e he => (hgiven e he).2)
  unfold httpRespondToClient at hout
  obtain ⟨headers, hset, hout⟩ := Option.bind_eq_some_iff.mp hout
  dsimp only at hout
  obtain ⟨-, hout⟩ := Option.ite_none_right_eq_some.mp hout
  have hstatus := status_text a.rsc
  generalize rscToHttpStatus a.rsc = status at hout hstatus
  let l : StatusLine := ⟨"HTTP/1.1".toList, statusText status,
    ⟨by decide, List.append_ne_nil_of_right_ne_nil _ (List.cons_ne_nil _ _)⟩, Tokens.forall_mem_of_all (by decide),
    fun c hc => (hstatus c hc).1⟩
  have hhead : head = l.print ++ printBody lines [] := by
    have htext := congrArg Prod.fst (Option.some.inj hout)
    dsimp only at htext
    rw [← htext, setHeader_text hset]
    have hprotocol : "HTTP/1.1 ".toList = "HTTP/1.1".toList ++ [' '] := by decide
    have happend : headerText (defaultHeaders ++ answerHeaders a) = headerText defaultHeaders ++
      headerText (answerHeaders a) :=
      List.flatMap_append
    show _ = l.print ++ (lines.flatMap HeaderLine.print ++ ['\r', '\n'])
    rw [← hlines, happend, hprotocol, List.nil_append]
    simp only [l, StatusLine.print, List.append_assoc, List.cons_append, List.nil_append]
  refine ⟨l, lines, hhead, ?_, hheaders, fun l hl => (htext l hl).1, ?_, ?_⟩
  · rintro rfl
    cases hheaders
  · rw [hhead]
    intro hnul
    simp only [StatusLine.print, printBody, List.mem_append, List.mem_cons, List.not_mem_nil, or_false, List.mem_flatMap]
      at hnul
    rcases hnul with (hnul | hnul | hnul | hnul | hnul) | ⟨x, hx, hnul⟩ | hnul | hnul
    · replace hnul : Char.ofNat 0 ∈ "HTTP/1.1".toList := hnul
      exact absurd hnul (by decide)
    · cases hnul
    · exact (hstatus _ hnul).2 rfl
    · cases hnul
    · cases hnul
    · exact (htext x hx).2 hnul
    · cases hnul
    · cases hnul
  · exact (congrArg Prod.snd (Option.some.inj hout)).symm

/-- The status code and the content of an answer come back, whichever part of the line break behind the content arrives
with it, and whether the content arrives with the head or in the next chunk. -/
theorem answer_comes_back (h : AnswerGiven a) (hout : httpRespondToClient a = some (head, body))
    (harrives : AnswerArrives head body chunks) : (receiveResponse chunks).bind readAnswer =
      some (a.rsc, a.responsePc) := by
  obtain ⟨l, lines, hhead, hne, hheaders, htext, hnul, rfl⟩ := respond_head h hout
  obtain ⟨hrsc, hlength⟩ := searchHeader_answer a
  obtain ⟨first, more, rfl, hbody⟩ := harrives
  have hcut : ∀ s : CStr, Char.ofNat 0 ∉ s → cutNul s = s := fun s hs =>
    List.takeWhile_eq_self_iff.mpr fun c hc => decide_eq_true (ne_of_mem_of_not_mem hc hs)
  -- what is read where the first chunk has no NUL
  have hreceive : Char.ofNat 0 ∉ first → receiveResponse ((head ++ first) :: more) = some ⟨l.protocol, atoi l.status,
      receivePayload ⟨lines.map HeaderLine.header, false, some first, contentLength (lines.map HeaderLine.header), false⟩
        more⟩ := by
    intro hfirst
    have hsplit : head ++ first = l.print ++ printBody lines first := by
      rw [hhead, List.append_assoc]
      simp [printBody]
    show Option.map (responses.onMessage (receivePayload · more)) (parseHttpResponse (cutNul (head ++ first))) = _
    rw [hcut _ (by rw [List.mem_append]; exact not_or.mpr ⟨hnul, hfirst⟩), hsplit, parseHttpResponse_print,
      readMessage_lines hne htext]
    rfl
  have hread : ∀ payload, (receivePayload ⟨lines.map HeaderLine.header, false, some first,
      contentLength (lines.map HeaderLine.header), false⟩ more).payload = some payload → Char.ofNat 0 ∉ first →
      (receiveResponse ((head ++ first) :: more)).bind readAnswer = some (a.rsc, cjsonParse payload) := by
    intro payload hpayload hfirst
    rw [hreceive hfirst, Option.bind_some, readAnswer]
    dsimp only
    rw [hpayload]
    show (searchHeader (lines.map HeaderLine.header) false "x-m2m-rsc".toList).map _ = _
    rw [hheaders, hrsc, Option.map_some, Option.map_some, Option.getD_some, atoi_ofInt]
    rfl
  have hsize : contentLength (lines.map HeaderLine.header) =
      ((a.responsePc.map fun pc => Decimal.ofNat (cjsonPrintUnformatted pc).length).map atoi).getD 0 := by
    rw [hheaders]
    exact contentLength_of_search hlength
  cases hpc : a.responsePc with
  | none =>
    rw [hpc] at hbody hsize
    obtain rfl : first = [] := hbody
    refine hread [] ?_ List.not_mem_nil
    unfold receivePayload
    dsimp only
    rw [hsize]
    rfl
  | some v =>
    rw [hpc] at hbody hsize
    have hv := h.content v hpc
    obtain ⟨t, ht, hkept⟩ : ∃ t, t <+: ['\r', '\n'] ∧ (if first = [] then more.headD [] else first) =
      cjsonPrintUnformatted v ++ t :=
      hbody
    have hbreak : ∀ c ∈ t, c = '\r' ∨ c = '\n' := by
      intro c hc
      simpa using ht.subset hc
    have hclear : Char.ofNat 0 ∉ cjsonPrintUnformatted v ++ t := by
      rw [List.mem_append]
      rintro (hm | hm)
      · exact printed_no_nul hv hm
      · rcases hbreak _ hm with hm | hm <;> cases hm
    have hparse : cjsonParse (normalizePayload (cjsonPrintUnformatted v ++ t)) = some v := by
      have hgone : normalizePayload t = [] := by
        refine List.filter_eq_nil_iff.mpr fun c hc => ?_
        rcases hbreak c hc with rfl | rfl <;> decide
      rw [normalizePayload_append, hgone, List.append_nil, hv.read]
    have hlen : 0 < contentLength (lines.map HeaderLine.header) := by
      have hone : 0 < (cjsonPrintUnformatted v).length := by
        obtain ⟨c, l, hhead, -⟩ := printValue_head false 0 hv.printed
        unfold cjsonPrintUnformatted
        rw [hhead, List.length_cons]
        omega
      rw [hsize]
      show 0 < atoi (Decimal.ofInt ((cjsonPrintUnformatted v).length : Int))
      rw [atoi_ofInt]
      omega
    rw [← hparse]
    by_cases hfirst : first = []
    · rw [if_pos hfirst] at hkept
      refine hread _ ?_ (by rw [hfirst]; exact List.not_mem_nil)
      unfold receivePayload
      dsimp only
      rw [hfirst, decide_eq_true hlen, hkept, hcut _ hclear]
      rfl
    · rw [if_neg hfirst] at hkept
      refine hread _ ?_ (by rw [hkept]; exact hclear)
      have hfull : first.isEmpty = false := by simpa using hfirst
      unfold receivePayload
      dsimp only
      rw [Option.getD_some, hfull, Bool.and_false, if_neg (by decide), hkept]
      rfl

end Answer

/-- The answer to the creation of a container. -/
def createdAnswer : HttpAnswer where
  op := .create
  rsc := 2001
  rvi := .v3
  rqi := some "r17".toList
  responsePc := some (.obj [("m2m:cnt".toList,
    .obj [("uri".toList, .str "base/c".toList), ("st".toList, .word "0".toList)])])

theorem createdAnswer_given : AnswerGiven createdAnswer where
  rqi := by
    intro rqi h
    cases h
    exact isHeaderValue_of_chars (Tokens.forall_mem_of_all (by decide))
  location := by
    intro s h
    obtain rfl : "base/c".toList = s := Option.some.inj h
    exact isHeaderValue_of_chars (Tokens.forall_mem_of_all (by decide))
  content := by
    intro v h
    obtain rfl := Option.some.inj h
    have hnumber : PrintedWord "0".toList := .inr (.inr (.inr ⟨0, by decide, by decide, by decide +kernel⟩))
    refine ⟨?_, rfl, by decide⟩
    simp only [Printed, PrintedMembers, and_true]
    exact ⟨by decide, by decide, by decide, by decide, hnumber⟩

/-- The content comes in a chunk of its own, with half of the line break. -/
theorem answer_comes_back_created : ∃ head body, httpRespondToClient createdAnswer = some (head, some body) ∧
    (receiveResponse [head, body ++ ['\r']]).bind readAnswer = some (createdAnswer.rsc, createdAnswer.responsePc) := by
  have hsome : (httpRespondToClient createdAnswer).any (·.2.isSome) = true := by decide +kernel
  obtain ⟨⟨head, body⟩, hout, hbody⟩ := (Option.any_eq_true ..).mp hsome
  obtain ⟨body, rfl⟩ := Option.isSome_iff_exists.mp hbody
  refine ⟨head, body, hout, answer_comes_back createdAnswer_given hout ⟨[], [body ++ ['\r']], ?_, ['\r'], ?_, rfl⟩⟩
  · rw [List.append_nil]
  · exact ⟨['\n'], rfl⟩

end TinyIoT
