/-
A request that is forwarded to another CSE: `http_forwarding` writes a primitive as an HTTP request, and the CSE that gets
it reads it back with `respond` and `handle_http_request`. The criteria go out as JSON values behind their keys and come
in as strings, so it is the numbers among them that arrive; of the rest of the primitive only `rvi` and `drt` are not
carried.
-/
import TinyIoT.Http.Chunks
import TinyIoT.Http.JsonWriter
import TinyIoT.Http.Query
import TinyIoT.Discovery.Criteria
import TinyIoT.Server.Address

namespace TinyIoT

open JsonText (Value)

/-! ## Primitives -/

/-- `RVI`. -/
inductive Rvi where
  | none | v1 | v2 | v2a | v3 | v4 | v5
  deriving DecidableEq, Repr

/-- `to_rvi`. -/
def toRvi (s : CStr) : Rvi :=
  if s = "2a".toList then .v2a
  else if s = "3".toList then .v3
  else if s = "1".toList then .v1
  else if s = "2".toList then .v2
  else if s = "4".toList then .v4
  else if s = "5".toList then .v5
  else .none

/-- `from_rvi`. -/
def fromRvi : Rvi → Option CStr
  | .none => Option.none
  | .v1 => some "1".toList
  | .v2 => some "2".toList
  | .v2a => some "2a".toList
  | .v3 => some "3".toList
  | .v4 => some "4".toList
  | .v5 => some "5".toList

/-- `CSE_RVI`. -/
def cseRvi : Rvi := .v3

/-- What `handle_http_request` sets of a `oneM2MPrimitive`, and `http_forwarding` reads. -/
structure OneM2MPrimitive where
  op : Operation
  /-- The field `to`. -/
  target : CStr
  fr : Option CStr := none
  rqi : Option CStr := none
  rsc : Int := 0
  rvi : Rvi := .none
  ty : Int := 0
  rcn : Int
  rcnExplicit : Bool := false
  drt : Int := 0
  fc : Option (List FcItem) := none
  requestPc : Option Value := none

/-- The result content an operation asks for by itself. -/
def defaultRcn : Operation → Int
  | .delete => 0
  | .discovery => 11
  | _ => 1

/-- `DRT_STRUCTURED`. -/
def drtStructured : Int := 1

/-! ## Forwarding -/

/-- `op_to_method`. -/
def opToMethod : Operation → CStr
  | .create | .notify => "POST".toList
  | .update => "PUT".toList
  | .delete => "DELETE".toList
  | .retrieve | .discovery => "GET".toList

/-- `print_number`: `%d` for an `int`, and `double` for any other number. -/
def printNumber (double : ℚ → CStr) (v : ℚ) : CStr :=
  if ((Json.num v).valueint : ℚ) = v then Decimal.ofInt (Json.num v).valueint else double v

mutual

/-- The value a JSON item is printed as. -/
def Json.value (double : ℚ → CStr) : Json → Value
  | .null => .word "null".toList
  | .bool b => .word (if b then "true".toList else "false".toList)
  | .num v => .word (printNumber double v)
  | .str s => .str s
  | .arr l => .arr (Json.values double l)
  | .obj ms => .obj (Json.memberValues double ms)
termination_by structural j => j

def Json.values (double : ℚ → CStr) : List Json → List Value
  | [] => []
  | j :: l => j.value double :: Json.values double l
termination_by structural l => l

def Json.memberValues (double : ℚ → CStr) : List (Attr × Json) → List (CStr × Value)
  | [] => []
  | (k, j) :: ms => (k.name, j.value double) :: Json.memberValues double ms
termination_by structural ms => ms

end

/-- What `fc_to_qs` writes behind a key. -/
def fcValueText (double : ℚ → CStr) : Json → CStr
  | .arr l => '=' :: cjsonPrintUnformatted ((Json.arr l).value double)
  | .num v => '=' :: cjsonPrintUnformatted ((Json.num v).value double)
  | .str s => '=' :: cjsonPrintUnformatted ((Json.str s).value double)
  | _ => []

/-- `fc_to_qs`, with its buffer of 256 bytes; without an item it writes ahead of that buffer. -/
def fcToQs (double : ℚ → CStr) (fc : List FcItem) : Option CStr :=
  let text := fc.flatMap fun e => e.1 ++ fcValueText double e.2 ++ ['&']
  if fc.isEmpty then none else if text.length < 256 then some text.dropLast else none

/-- `append_query_parameter`. -/
def appendQueryParameter (query : CStr) (key value : CStr) : CStr :=
  query ++ (if query.isEmpty then [] else ['&']) ++ key ++ '=' :: value

/-- `set_header`, with its buffer of 128 bytes and the one of 2048 it appends to. -/
def setHeader (headers : CStr) (header : String × Option CStr) : Option CStr :=
  match header.2 with
  | none => some headers
  | some value =>
    let line := header.1.toList ++ ':' :: ' ' :: (value ++ ['\r', '\n'])
    if line.length < 128 ∧ (headers ++ line).length < 2048 then some (headers ++ line) else none

/-- The request `http_forwarding` fills in. -/
structure OutgoingRequest where
  method : CStr
  uri : CStr
  qs : Option CStr
  headers : List (String × Option CStr)
  payload : Option CStr

/-- `BUF_SIZE`. -/
def bufSize : Nat := 65535

/-- The length of a payload is announced where there is one. -/
def setContentLength (headers : CStr) (size : Nat) : Option CStr :=
  if 0 < size then setHeader headers ("Content-Length", some (Decimal.ofNat size)) else some headers

/-- The text that `send_http_request` sends. -/
def sendHttpRequest (host : CStr) (port : Int) (req : OutgoingRequest) : Option CStr := do
  let header ← (("Host", some (host ++ ':' :: Decimal.ofInt port)) :: req.headers).foldlM setHeader []
  let header ← setContentLength header (req.payload.getD []).length
  let qs := req.qs.getD []
  let text := req.method ++ ' ' :: (req.uri ++ (if qs.isEmpty then [] else '?' :: qs) ++ ' ' :: "HTTP/1.1".toList ++
    ['\r', '\n'] ++
    header ++ ['\r', '\n'] ++ req.payload.getD [])
  if text.length < bufSize then some text else none

/-- The path of a forwarded request. -/
def forwardedUri (target : CStr) : CStr :=
  match addressingType target with
  | .absolute => '/' :: '_' :: target.tail
  | .spRelative => '/' :: '~' :: target
  | _ => '/' :: target

/-- The query of a forwarded request: the criteria, and the result content where it was asked for. -/
def forwardedQuery (double : ℚ → CStr) (o2pt : OneM2MPrimitive) : Option (Option CStr) := do
  let qs ← match o2pt.fc with
    | none => some none
    | some fc => (fcToQs double fc).map some
  if o2pt.rcnExplicit then some (some (appendQueryParameter (qs.getD []) "rcn".toList (Decimal.ofInt o2pt.rcn)))
  else some qs

/-- `http_forwarding` up to `send_http_request`. -/
def httpForwarding (double : ℚ → CStr) (o2pt : OneM2MPrimitive) : Option OutgoingRequest :=
  (forwardedQuery double o2pt).map fun qs =>
    { method := opToMethod o2pt.op
      uri := forwardedUri o2pt.target
      qs := qs
      headers := [("X-M2M-Origin", o2pt.fr), ("X-M2M-RVI", fromRvi cseRvi), ("X-M2M-RI", o2pt.rqi),
        ("Content-Type", some ("application/json".toList ++
          if 0 < o2pt.ty ∧ o2pt.op = .create then ";ty=".toList ++ Decimal.ofInt o2pt.ty else []))]
      payload := o2pt.requestPc.map cjsonPrintUnformatted }

/-! ## `handle_http_request` -/

/-- What is behind the first "ty=" of a text. -/
def behindTy : CStr → Option CStr
  | [] => none
  | c :: s => if "ty=".toList.isPrefixOf (c :: s) then some (s.drop 2) else behindTy s

/-- The value of a number as it is written: sign, digits, fraction and exponent. -/
def wordNumber (w : CStr) : ℚ :=
  let digits := w.drop (takeSign w).length
  let whole := digits.takeWhile Char.isDigit
  let behind := digits.drop whole.length
  let fraction := if behind.head? = some '.' then behind.tail.takeWhile Char.isDigit else []
  let behind := if behind.head? = some '.' then behind.tail.drop fraction.length else behind
  let shift : Int := (if behind.head? = some 'e' ∨ behind.head? = some 'E' then atoi behind.tail else 0) - fraction.length
  let mantissa : Int := (if w.head? = some '-' then -1 else 1) * Decimal.value (whole ++ fraction)
  mkRat (mantissa * Nat.pow 10 shift.toNat) (Nat.pow 10 (-shift).toNat)

mutual

/-- The JSON item a value is read as. -/
def itemOf : Value → Json
  | .word w =>
    if w = "null".toList then .null else if w = "true".toList then .bool true
    else if w = "false".toList then .bool false else .num (wordNumber w)
  | .str s => .str s
  | .arr l => .arr (itemsOf l)
  | .obj ms => .obj (membersOf ms)
termination_by structural v => v

def itemsOf : List Value → List Json
  | [] => []
  | v :: l => itemOf v :: itemsOf l
termination_by structural l => l

def membersOf : List (CStr × Value) → List (Attr × Json)
  | [] => []
  | (k, v) :: ms => (.other k, itemOf v) :: membersOf ms
termination_by structural ms => ms

end

/-- The items of the object `qs_to_json` gives. -/
def queryItems : Value → List FcItem
  | .obj ms => ms.map fun e => (e.1, itemOf e.2)
  | _ => []

/-- `cJSON_DeleteItemFromObject`. -/
def deleteFcItem (qs : List FcItem) (name : CStr) : List FcItem := qs.eraseP fun e => sameKey e.1 name

/-- `valueint` of the item of that name. -/
def fcInt (qs : List FcItem) (name : CStr) : Option Int := (getFcItem qs name).map fun e => e.2.valueint

/-- A member "m2m:sgn" that is an object. -/
def isNotification : Option Value → Bool
  | some (.obj ms) =>
    match ms.find? fun e => sameKey e.1 "m2m:sgn".toList with
    | some (_, .obj _) => true
    | _ => false
  | _ => false

/-- What `handle_http_request` does with a request: it answers at once, or goes on with a primitive, whose `rsc` an error
of the query has set. -/
inductive Handled where
  | answered (o2pt : Resp)
  | routed (o2pt : OneM2MPrimitive) (error : Option Resp)

/-- The query of a request in the primitive. -/
def readQuery (o2pt : OneM2MPrimitive) (qs : CStr) : OneM2MPrimitive × Option Resp :=
  match qsToJson qs with
  | none => ({ o2pt with drt := drtStructured }, none)
  | some v =>
    match parseQs (queryItems v) with
    | none => (o2pt, some (handleError .badRequest "Invalid Query String Format"))
    | some qs =>
      let drt := (fcInt qs "drt".toList).getD drtStructured
      let qs := deleteFcItem qs "drt".toList
      let fu := fcInt qs "fu".toList
      let discovery := fu = some 1
      let rcn := fcInt qs "rcn".toList
      let valid := rcn.all fun n => 0 ≤ n && n ≤ 12
      ({ o2pt with
          op := if discovery then .discovery else o2pt.op
          rcn := rcn.getD (if discovery then defaultRcn .discovery else o2pt.rcn)
          rcnExplicit := rcn.isSome && valid
          drt := drt
          fc := some (deleteFcItem qs "rcn".toList) },
        -- the last error is the one that is sent
        if !valid then some (handleError .badRequest "Invalid Result Content (rcn) value")
        else if fu.any fun n => n < 1 || 4 < n then some (handleError .badRequest "Invalid Filter Usage (fu) value")
        else if drt ≠ 1 ∧ drt ≠ 2 then some (handleError .badRequest "Invalid Discovery Reesult Type (drt) value")
        else none)

/-- `o2pt->to` of a path. -/
def targetOf : CStr → Option CStr
  | [] => none
  | _ :: '~' :: s => if s.isEmpty then none else some ('/' :: s.tail)
  | _ :: '_' :: '/' :: s => some ('/' :: '/' :: s)
  | _ :: s => some s

/-- `handle_http_request` up to `route`; no result where it reads behind a string, or does not know the method. -/
def handleHttpRequest (req : HttpRequest) : Option Handled := do
  let payload := req.message.payload.getD []
  let pc := if payload.isEmpty then none else cjsonParse payload
  if !payload.isEmpty && pc.isNone then return .answered (handleError .badRequest "Invalid JSON format")
  let header (name : String) := searchHeader req.message.headers req.message.dangling name.toList
  let fr ← header "x-m2m-origin"
  let rqi ← header "x-m2m-ri"
  let rsc ← header "x-m2m-rsc"
  let rvi ← header "x-m2m-rvi"
  let contentType ← header "content-type"
  let ty := contentType.bind behindTy
  let target ← targetOf req.uri
  let method ← req.method
  if method = "OPTIONS".toList then return .answered (done .ok)
  let op := if method = "GET".toList then .retrieve else if method = "PUT".toList then .update
    else if method = "DELETE".toList then .delete
    else if ty.isNone && isNotification pc then Operation.notify else .create
  let o2pt : OneM2MPrimitive :=
    { op, target, fr, rqi, rsc := (rsc.map atoi).getD 0, rvi := (rvi.map toRvi).getD .none, ty := (ty.map atoi).getD 0,
      rcn := defaultRcn op, requestPc := pc }
  match req.qs with
  | none => return .routed o2pt none
  | some qs => return if qs.isEmpty then .routed o2pt none else .routed (readQuery o2pt qs).1 (readQuery o2pt qs).2

/-! ## The text of a request -/

/-- A header name that is a token. -/
def IsHeaderName (name : CStr) : Prop := name ≠ [] ∧ ∀ c ∈ name, keyDelim c = false ∧ c ≠ Char.ofNat 0

/-- A header value that is read as it is written: one line of a C string, without a space ahead of it. -/
structure IsHeaderValue (value : CStr) : Prop where
  oneLine : ∀ c ∈ value, lineDelim c = false ∧ c ≠ Char.ofNat 0
  trimmed : value.dropWhile (· = ' ') = value

/-- The headers of a list that are given. -/
def givenHeaders (headers : List (String × Option CStr)) : List Header :=
  headers.filterMap fun h => h.2.map fun value => ⟨h.1.toList.map Char.toLower, value⟩

/-- The text of the headers that are given. -/
def headerText (headers : List (String × Option CStr)) : CStr :=
  headers.flatMap fun h => h.2.elim [] fun value => h.1.toList ++ ':' :: ' ' :: (value ++ ['\r', '\n'])

section Text

variable {headers : List (String × Option CStr)} {acc out host : CStr} {port : Int} {req : OutgoingRequest} {text : CStr}

/-- The headers that are set stand behind those there are. -/
theorem setHeader_text (h : headers.foldlM setHeader acc = some out) : out = acc ++ headerText headers := by
  induction headers generalizing acc with
  | nil =>
    cases h
    exact (List.append_nil _).symm
  | cons e headers ih =>
    obtain ⟨name, value⟩ := e
    rw [List.foldlM_cons] at h
    obtain ⟨acc', hset, hrest⟩ := Option.bind_eq_some_iff.mp h
    rw [ih hrest]
    cases value with
    | none =>
      cases hset
      rfl
    | some value =>
      obtain ⟨-, hset⟩ := Option.ite_none_right_eq_some.mp hset
      rw [← Option.some.inj hset, List.append_assoc]
      rfl

/-- The text of headers is made of header lines. -/
theorem lines_of_headerText (hname : ∀ h ∈ headers, IsHeaderName h.1.toList)
    (hvalue : ∀ h ∈ headers, ∀ value ∈ h.2, IsHeaderValue value) :
    ∃ lines : List HeaderLine, headerText headers = lines.flatMap HeaderLine.print ∧
      lines.map HeaderLine.header = givenHeaders headers ∧ ∀ l ∈ lines, l.text ≠ [] ∧ Char.ofNat 0 ∉ l.print := by
  induction headers with
  | nil => exact ⟨[], rfl, rfl, fun _ hl => absurd hl List.not_mem_nil⟩
  | cons e headers ih =>
    obtain ⟨name, value⟩ := e
    obtain ⟨lines, hout, hheaders, htext⟩ := ih (fun h hh => hname h (List.mem_cons_of_mem _ hh))
      (fun h hh => hvalue h (List.mem_cons_of_mem _ hh))
    cases value with
    | none => exact ⟨lines, hout, hheaders, htext⟩
    | some value =>
      have hv := hvalue _ List.mem_cons_self value rfl
      have hn := hname _ List.mem_cons_self
      have hspace : lineDelim ' ' = false := rfl
      let line : HeaderLine := ⟨name.toList, ' ' :: value, hn.1, fun c hc => (hn.2 c hc).1, by
        intro c hc
        rcases List.mem_cons.mp hc with rfl | hc
        · exact hspace
        · exact (hv.oneLine c hc).1⟩
      refine ⟨line :: lines, ?_, ?_, ?_⟩
      · rw [List.flatMap_cons, ← hout]
        rfl
      · rw [List.map_cons, hheaders]
        show Header.mk (name.toList.map Char.toLower) ((' ' :: value).dropWhile (· = ' ')) :: _ = _
        rw [List.dropWhile_cons_of_pos (by decide), hv.trimmed]
        rfl
      · intro l hl
        rcases List.mem_cons.mp hl with rfl | hl
        · refine ⟨List.cons_ne_nil _ _, fun hnul => ?_⟩
          simp only [HeaderLine.print, line, List.cons_append, List.mem_append, List.mem_cons, List.not_mem_nil, or_false]
            at hnul
          rcases hnul with hnul | hnul | hnul | hnul | hnul | hnul
          · exact (hn.2 _ hnul).2 rfl
          · cases hnul
          · cases hnul
          · exact (hv.oneLine _ hnul).2 rfl
          · cases hnul
          · cases hnul
        · exact htext l hl

/-- The word behind the method. -/
def OutgoingRequest.word (req : OutgoingRequest) : CStr :=
  req.uri ++ if (req.qs.getD []).isEmpty then [] else '?' :: req.qs.getD []

/-- All the headers of a request. -/
def OutgoingRequest.allHeaders (req : OutgoingRequest) (host : CStr) (port : Int) : List (String × Option CStr) :=
  (("Host", some (host ++ ':' :: Decimal.ofInt port)) :: req.headers) ++
    [("Content-Length", if 0 < (req.payload.getD []).length then some (Decimal.ofNat (req.payload.getD []).length)
      else none)]

/-- A request whose words and headers are well formed. -/
structure OutgoingRequest.WellFormed (req : OutgoingRequest) (host : CStr) (port : Int) : Prop where
  method : req.method ≠ [] ∧ ∀ c ∈ req.method, isSpace c = false ∧ c ≠ Char.ofNat 0
  word : req.word ≠ [] ∧ ∀ c ∈ req.word, isSpace c = false ∧ c ≠ Char.ofNat 0
  names : ∀ h ∈ req.allHeaders host port, IsHeaderName h.1.toList
  values : ∀ h ∈ req.allHeaders host port, ∀ value ∈ h.2, IsHeaderValue value
  payload : Char.ofNat 0 ∉ req.payload.getD []

/-- What is sent is a request line, header lines and the payload. -/
theorem sendHttpRequest_lines (hw : req.WellFormed host port) (h : sendHttpRequest host port req = some text) :
    ∃ (l : RequestLine) (lines : List HeaderLine), text = l.print ++ printBody lines (req.payload.getD []) ∧
      l.method = req.method ∧ l.uri = req.word ∧ l.prot = "HTTP/1.1".toList ∧ text.length < bufSize ∧
      lines.map HeaderLine.header = givenHeaders (req.allHeaders host port) ∧ lines ≠ [] ∧
      ∀ l ∈ lines, l.text ≠ [] ∧ Char.ofNat 0 ∉ l.print := by
  unfold sendHttpRequest at h
  dsimp only at h
  obtain ⟨acc, hacc, h⟩ := Option.bind_eq_some_iff.mp h
  obtain ⟨header, hheader, h⟩ := Option.bind_eq_some_iff.mp h
  have hall : (req.allHeaders host port).foldlM setHeader [] = some header := by
    unfold OutgoingRequest.allHeaders
    rw [List.foldlM_append, hacc, Option.bind_eq_bind, Option.bind_some, List.foldlM_cons]
    unfold setContentLength at hheader
    split at hheader
    · rw [if_pos ‹_›, hheader]
      rfl
    · rw [if_neg ‹_›]
      exact hheader
  obtain ⟨lines, hlines, hheaders, htext⟩ := lines_of_headerText hw.names hw.values
  have hspaces : ∀ c, isSpace c = false → c ≠ ' ' ∧ c ≠ '\t' ∧ c ≠ '\r' ∧ c ≠ '\n' := by
    intro c hc
    refine ⟨?_, ?_, ?_, ?_⟩ <;> rintro rfl <;> cases hc
  let l : RequestLine := ⟨req.method, req.word, "HTTP/1.1".toList, ⟨hw.method.1, hw.word.1, by decide⟩, by
    intro c hc
    rcases List.mem_append.mp hc with hc | hc
    · rcases List.mem_append.mp hc with hc | hc
      · exact hspaces c (hw.method.2 c hc).1
      · exact hspaces c (hw.word.2 c hc).1
    · exact Tokens.forall_mem_of_all (q := fun c => c ≠ ' ' ∧ c ≠ '\t' ∧ c ≠ '\r' ∧ c ≠ '\n') (by decide) c hc⟩
  obtain ⟨hlen, hprint⟩ := Option.ite_none_right_eq_some.mp h
  rw [Option.some.injEq] at hprint
  refine ⟨l, lines, ?_, rfl, rfl, rfl, ?_, hheaders, ?_, htext⟩
  · rw [← hprint, setHeader_text hall, hlines]
    simp only [RequestLine.print, printBody, OutgoingRequest.word, l, List.append_assoc, List.cons_append, List.nil_append]
  · rw [← hprint]
    exact hlen
  · rintro rfl
    cases hheaders

/-- What the other side reads of a request that is sent. -/
theorem respond_sent (hw : req.WellFormed host port) (h : sendHttpRequest host port req = some text) :
    ∃ r, respond [text] = some r ∧ r.method = httpParseOperation req.method ∧
      r.uri = (uriUnescape req.word).takeWhile (· ≠ '?') ∧ r.qs = ((uriUnescape req.word).dropWhile (· ≠ '?')).tail? ∧
      r.message.headers = givenHeaders (req.allHeaders host port) ∧ r.message.dangling = false ∧
      r.message.payload = some (normalizePayload (req.payload.getD [])) := by
  obtain ⟨l, lines, htext, hmethod, hword, hprot, -, hheaders, hne, hlines⟩ := sendHttpRequest_lines hw h
  have hnul : cutNul text = text := by
    refine List.takeWhile_eq_self_iff.mpr fun c hc => decide_eq_true ?_
    rintro rfl
    rw [htext] at hc
    simp only [RequestLine.print, printBody, List.mem_append, List.mem_cons, List.not_mem_nil, or_false, hmethod,
      hword, hprot,
      List.mem_flatMap] at hc
    rcases hc with (hc | hc | hc | hc | hc | hc | hc) | ⟨l, hl, hc⟩ | hc | hc | hc
    · exact (hw.method.2 _ hc).2 rfl
    · cases hc
    · exact (hw.word.2 _ hc).2 rfl
    · cases hc
    · exact absurd hc (by decide)
    · cases hc
    · cases hc
    · exact (hlines l hl).2 hc
    · cases hc
    · cases hc
    · exact hw.payload hc
  have hparse := parseHttpRequest_print l (printBody lines (req.payload.getD []))
  rw [readMessage_lines hne fun l hl => (hlines l hl).1, ← htext] at hparse
  have hpayload : ∀ m : HttpMessage, m.payload = some (req.payload.getD []) →
      (receivePayload m []).payload = some (normalizePayload (req.payload.getD [])) := by
    intro m hm
    unfold receivePayload
    dsimp only
    rw [hm, Option.getD_some]
    split
    · rename_i hempty
      rw [Bool.and_eq_true, List.isEmpty_iff] at hempty
      rw [hempty.2]
      rfl
    · rfl
  show ∃ r, Option.map (requests.onMessage (receivePayload · [])) (parseHttpRequest (cutNul text)) = some r ∧ _
  rw [hnul, hparse]
  refine ⟨_, rfl, ?_, ?_, ?_, hheaders, rfl, hpayload _ rfl⟩
  · exact congrArg httpParseOperation hmethod
  · exact congrArg (fun u => (uriUnescape u).takeWhile (· ≠ '?')) hword
  · exact congrArg (fun u => ((uriUnescape u).dropWhile (· ≠ '?')).tail?) hword

end Text

/-! ## The path -/

/-- A path that is not changed by the escape sequences, and is not taken for one with a prefix. -/
structure IsTarget (target : CStr) : Prop where
  chars : ∀ c ∈ target, isSpace c = false ∧ c ≠ '%' ∧ c ≠ '?' ∧ c ≠ Char.ofNat 0
  tilde : target.head? ≠ some '~'
  underscore : ['_', '/'].isPrefixOf target = false

theorem uriUnescape_literal {u : CStr} (h : ∀ c ∈ u, isSpace c = false ∧ c ≠ '%' ∧ c ≠ Char.ofNat 0) :
    uriUnescape u = u := by
  have hout : '%' ∉ u := fun hm => (h _ hm).2.1 rfl
  have hdrop : u.dropWhile (· ≠ '%') = [] := List.dropWhile_eq_nil_iff.mpr fun c hc => decide_eq_true (h c hc).2.1
  have hplain := unescapeAll_append hout []
  rw [List.append_nil] at hplain
  rw [uriUnescape_eq (fun c hc => (h c hc).1) (by rw [hdrop]; exact List.not_mem_nil), hplain]
  show cutNul (u ++ []) = u
  rw [List.append_nil]
  exact List.takeWhile_eq_self_iff.mpr fun c hc => decide_eq_true (h c hc).2.2

/-- The path of a forwarded request is read as the address it was made from. -/
theorem targetOf_forwardedUri {target : CStr} (h : IsTarget target) : targetOf (forwardedUri target) = some target := by
  have hplain : addressingType target ≠ .absolute → addressingType target ≠ .spRelative → targetOf ('/' :: target) =
    some target := by
    intro _ _
    have htilde := h.tilde
    have hunderscore := h.underscore
    unfold targetOf
    split
    · rename_i heq
      cases heq
    · rename_i heq
      rw [(List.cons.inj heq).2] at htilde
      exact absurd rfl htilde
    · rename_i heq
      rw [(List.cons.inj heq).2] at hunderscore
      cases hunderscore
    · rename_i heq
      rw [(List.cons.inj heq).2]
  unfold forwardedUri
  split
  · rename_i hty
    unfold addressingType at hty
    split at hty
    · rename_i hpre
      obtain ⟨s, rfl⟩ := List.isPrefixOf_iff_prefix.mp hpre
      rfl
    · split at hty
      · cases hty
      · split at hty <;> cases hty
  · rename_i hty
    unfold addressingType at hty
    split at hty
    · cases hty
    · split at hty
      · rename_i hpre
        obtain ⟨s, rfl⟩ := List.isPrefixOf_iff_prefix.mp hpre
        rfl
      · split at hty <;> cases hty
  · rename_i habs hsp
    exact hplain habs hsp

theorem forwardedUri_chars {target : CStr} (h : IsTarget target) :
    forwardedUri target ≠ [] ∧ ∀ c ∈ forwardedUri target, isSpace c = false ∧ c ≠ '%' ∧ c ≠ '?' ∧ c ≠ Char.ofNat 0 := by
  have hmark : ∀ c ∈ ['/', '_', '~'], isSpace c = false ∧ c ≠ '%' ∧ c ≠ '?' ∧ c ≠ Char.ofNat 0 :=
    Tokens.forall_mem_of_all (by decide)
  unfold forwardedUri
  split
  · refine ⟨List.cons_ne_nil _ _, fun c hc => ?_⟩
    rcases List.mem_cons.mp hc with rfl | hc
    · exact hmark _ (by simp)
    · rcases List.mem_cons.mp hc with rfl | hc
      · exact hmark _ (by simp)
      · exact h.chars c (List.mem_of_mem_tail hc)
  · refine ⟨List.cons_ne_nil _ _, fun c hc => ?_⟩
    rcases List.mem_cons.mp hc with rfl | hc
    · exact hmark _ (by simp)
    · rcases List.mem_cons.mp hc with rfl | hc
      · exact hmark _ (by simp)
      · exact h.chars c hc
  · refine ⟨List.cons_ne_nil _ _, fun c hc => ?_⟩
    rcases List.mem_cons.mp hc with rfl | hc
    · exact hmark _ (by simp)
    · exact h.chars c hc

/-! ## Numbers in the query -/

/-- The types whose values `parse_qs` turns into numbers. -/
def FcValueType.isNumber : FcValueType → Bool
  | .nonNegInt | .posInt | .enum | .intArray => true
  | _ => false

/-- The names `parse_qs` goes through. -/
def queryTags : List (String × FcValueType) := fcTagTable ++ [("rcn", .enum), ("drt", .enum)]

/-- Items with different keys of number types, and values that are an `int`. -/
structure NumberItems (items : List (CStr × Int)) : Prop where
  keys : ∀ e ∈ items, ∃ t ∈ queryTags, t.1.toList = e.1 ∧ t.2.isNumber = true
  nodup : (items.map Prod.fst).Nodup
  range : ∀ e ∈ items, intMin ≤ e.2 ∧ e.2 ≤ intMax

/-- The items as they are kept. -/
def fcItems (items : List (CStr × Int)) : List FcItem := items.map fun e => (e.1, Json.int e.2)

/-- An item in a query. -/
def itemSegment (e : CStr × Int) : QuerySegment := .pair e.1 (.one (Decimal.ofInt e.2))

/-- The characters of an item. -/
def isItemChar (c : Char) : Bool := (97 ≤ c.toNat && c.toNat ≤ 122) || isNumberChar c

theorem isItemChar_spec {c : Char} (h : isItemChar c = true) : 43 ≤ c.toNat ∧ c.toNat ≤ 122 := by
  unfold isItemChar isNumberChar at h
  simp only [Bool.or_eq_true, Bool.and_eq_true, decide_eq_true_eq] at h
  rcases h with ⟨h₁, h₂⟩ | ((((h | rfl) | rfl) | rfl) | rfl) | rfl
  · omega
  · have := Decimal.isDigit_range h
    omega
  all_goals decide

theorem queryTags_chars : ∀ t ∈ queryTags, ∀ c ∈ t.1.toList, 97 ≤ c.toNat ∧ c.toNat ≤ 122 := by
  have hall : (queryTags.all fun t => t.1.toList.all fun c => decide (97 ≤ c.toNat ∧ c.toNat ≤ 122)) = true := by decide
  intro t ht c hc
  exact of_decide_eq_true (List.all_eq_true.mp (List.all_eq_true.mp hall t ht) c hc)

section Items

variable {items : List (CStr × Int)}

/-- The characters of the strings of an item. -/
theorem NumberItems.chars (h : NumberItems items) {g : QuerySegment} (hg : g ∈ items.map itemSegment) :
    g.isPair = true ∧ ∀ s ∈ g.strings, ∀ c ∈ s, isItemChar c = true := by
  obtain ⟨e, he, rfl⟩ := List.mem_map.mp hg
  refine ⟨rfl, fun s hs c hc => ?_⟩
  have hs' : s = e.1 ∨ s = Decimal.ofInt e.2 := by
    simpa [itemSegment, QuerySegment.strings, QueryValue.parts] using hs
  unfold isItemChar
  rcases hs' with rfl | rfl
  · obtain ⟨t, ht, hkey, -⟩ := h.keys e he
    have hrange := queryTags_chars t ht c (by rwa [hkey])
    rw [Bool.or_eq_true, Bool.and_eq_true, decide_eq_true_eq, decide_eq_true_eq]
    exact .inl hrange
  · rw [ofInt_chars e.2 c hc, Bool.or_true]

theorem plus_not_mem_ofInt (n : Int) : '+' ∉ Decimal.ofInt n := by
  intro hplus
  unfold Decimal.ofInt at hplus
  have hdigit : '+' ∉ Decimal.ofNat n.natAbs := fun hm => absurd (ofNat_digits _ _ hm) (by decide)
  split at hplus
  · rcases List.mem_cons.mp hplus with hplus | hplus
    · cases hplus
    · exact hdigit hplus
  · exact hdigit hplus

theorem NumberItems.safe (h : NumberItems items) : ∀ g ∈ items.map itemSegment, g.Safe := by
  intro g hg
  obtain ⟨-, hchars⟩ := h.chars hg
  have hsafe : ∀ s ∈ g.strings, SafeString s := by
    intro s hs c hc
    have hitem := hchars s hs c hc
    refine ⟨?_, ?_, ?_, ?_⟩ <;> rintro rfl <;> cases hitem
  obtain ⟨e, he, rfl⟩ := List.mem_map.mp hg
  refine ⟨hsafe _ (by simp [itemSegment, QuerySegment.strings]), fun s hs => ⟨?_, ?_⟩, fun hlen => ?_⟩
  · exact hsafe s (by simp [itemSegment, QuerySegment.strings, hs])
  · rw [List.mem_singleton.mp hs]
    exact plus_not_mem_ofInt e.2
  · exact absurd hlen (by simp [QueryValue.parts])

/-- The query is read as the strings of its items. -/
theorem qsToJson_items (h : NumberItems items) (hne : items ≠ [])
    (hshort : ((items.map itemSegment).flatMap QuerySegment.text).length < 255) :
    qsToJson (writeQuery id (items.map itemSegment)) =
      some (.obj (items.map fun e => (e.1, .str (Decimal.ofInt e.2)))) := by
  have hpairs : (items.map itemSegment).Pairwise fun g g' => g'.isPair = true → g.isPair = true := by
    rw [List.pairwise_map]
    exact List.Pairwise.imp (fun _ _ => rfl) (List.pairwise_of_forall (R := fun _ _ => True) fun _ _ => trivial)
  have htext := text_turns h.safe hpairs ['\x7b']
  obtain ⟨e, rest, rfl⟩ := List.exists_cons_of_ne_nil hne
  have hnonempty : ((e :: rest).map itemSegment).flatMap QuerySegment.text ≠ [] := by
    intro hnil
    have := List.flatMap_eq_nil_iff.mp hnil (itemSegment e) (by simp)
    cases this
  have hplain : ∀ g ∈ (e :: rest).map itemSegment, g.isPair = true → ∀ s ∈ g.strings, PlainString s := by
    intro g hg _ s hs c hc
    have hitem := (h.chars hg).2 s hs c hc
    refine ⟨?_, ?_, ?_⟩ <;> rintro rfl <;> cases hitem
  have hparse := cjsonParse_query hplain ⟨itemSegment e, by simp, rfl⟩
  unfold qsToJson queryText
  dsimp only
  rw [htext, if_pos (by rw [List.length_append, List.length_singleton]; omega), Option.bind_some,
    List.dropLast_append_of_ne_nil hnonempty]
  refine hparse.trans ?_
  rw [List.flatMap_map]
  show some (Value.obj ((e :: rest).flatMap fun e => [(e.1, Value.str (Decimal.ofInt e.2))])) = _
  rw [List.map_eq_flatMap]

/-- The items with those numbers read whose keys are among these. -/
def readItems (done : List CStr) (items : List (CStr × Int)) : List FcItem :=
  items.map fun e => (e.1, if done.any fun d => d = e.1 then Json.int e.2 else .str (Decimal.ofInt e.2))

theorem map_toLower_of_chars {s : CStr} (h : ∀ c ∈ s, 97 ≤ c.toNat ∧ c.toNat ≤ 122) : s.map Char.toLower = s := by
  refine (List.map_congr_left fun c hc => ?_).trans (List.map_id s)
  obtain ⟨h₁, -⟩ := h c hc
  refine dif_neg ?_
  rintro ⟨-, hle⟩
  have hz : c.toNat ≤ 90 := hle
  omega

/-- Names of the table are told apart by their letters. -/
theorem sameKey_iff {s t : CStr} (hs : ∀ c ∈ s, 97 ≤ c.toNat ∧ c.toNat ≤ 122) (ht : ∀ c ∈ t, 97 ≤ c.toNat ∧ c.toNat ≤ 122) :
    sameKey s t = true ↔ s = t := by
  unfold sameKey
  rw [map_toLower_of_chars hs, map_toLower_of_chars ht, decide_eq_true_eq]

theorem parseIntText_ofInt {n : Int} (h₁ : intMin ≤ n) (h₂ : n ≤ intMax) : parseIntText (Decimal.ofInt n) = some n := by
  have hmin : Decimal.longMin ≤ n := le_trans (by decide) h₁
  have hmax : n ≤ Decimal.longMax := le_trans h₂ (by decide)
  unfold parseIntText
  rw [Decimal.strtol_ofInt hmin hmax, Option.bind_some, if_pos ⟨h₁, h₂⟩]

theorem queryTags_types : ∀ t ∈ queryTags, ∀ t' ∈ queryTags, t.1.toList = t'.1.toList → t.2 = t'.2 := by
  have hall : (queryTags.all fun t => queryTags.all fun t' => decide (t.1.toList = t'.1.toList → t.2 = t'.2)) = true := by
    decide +kernel
  intro t ht t' ht'
  exact of_decide_eq_true (List.all_eq_true.mp (List.all_eq_true.mp hall t ht) t' ht')

theorem NumberItems.key_chars (h : NumberItems items) : ∀ e ∈ items, ∀ c ∈ e.1, 97 ≤ c.toNat ∧ c.toNat ≤ 122 := by
  intro e he
  obtain ⟨t, ht, hkey, -⟩ := h.keys e he
  rw [← hkey]
  exact queryTags_chars t ht

/-- An item is found by its name. -/
theorem getFcItem_eq {qs : List FcItem} {name : CStr} (hname : ∀ c ∈ name, 97 ≤ c.toNat ∧ c.toNat ≤ 122)
    (hqs : ∀ e ∈ qs, ∀ c ∈ e.1, 97 ≤ c.toNat ∧ c.toNat ≤ 122) : getFcItem qs name = qs.find? fun e => e.1 = name := by
  unfold getFcItem
  induction qs with
  | nil => rfl
  | cons e qs ih =>
    have hsame : sameKey e.1 name = decide (e.1 = name) := by
      rw [Bool.eq_iff_iff, decide_eq_true_eq]
      exact sameKey_iff (hqs e List.mem_cons_self) hname
    rw [List.find?_cons, List.find?_cons, hsame, ih fun e he => hqs e (List.mem_cons_of_mem _ he)]

theorem mem_readItems {done : List CStr} {e : FcItem} (he : e ∈ readItems done items) : ∃ e₀ ∈ items, e₀.1 = e.1 := by
  obtain ⟨e₀, he₀, rfl⟩ := List.mem_map.mp he
  exact ⟨e₀, he₀, rfl⟩

theorem NumberItems.read_chars (h : NumberItems items) (done : List CStr) :
    ∀ e ∈ readItems done items, ∀ c ∈ e.1, 97 ≤ c.toNat ∧ c.toNat ≤ 122 := by
  intro e he
  obtain ⟨e₀, he₀, heq⟩ := mem_readItems he
  rw [← heq]
  exact h.key_chars e₀ he₀

theorem readItems_append (done : List CStr) (l l' : List (CStr × Int)) :
    readItems done (l ++ l') = readItems done l ++ readItems done l' := List.map_append

theorem readItems_cons (done : List CStr) (e : CStr × Int) (l : List (CStr × Int)) :
    readItems done (e :: l) = (e.1, if done.any fun d => d = e.1 then Json.int e.2 else .str (Decimal.ofInt e.2)) :: readItems done l :=
      rfl

/-- Only items of that name are read. -/
theorem readItems_other {name : CStr} {done : List CStr} (h : ∀ e ∈ items, e.1 ≠ name) :
    readItems (name :: done) items = readItems done items := by
  refine List.map_congr_left fun e he => ?_
  rw [List.any_cons, decide_eq_false fun hname => h e he hname.symm, Bool.false_or]

/-- The first item of that name is replaced. -/
theorem setFcItem_append {f : FcItem → FcItem} {name : CStr} {pre post : List FcItem} {e : FcItem}
    (hpre : ∀ e ∈ pre, sameKey e.1 name = false) (he : sameKey e.1 name = true) :
    setFcItem f name (pre ++ e :: post) = pre ++ f e :: post := by
  induction pre with
  | nil =>
    rw [List.nil_append, setFcItem, he]
    rfl
  | cons x pre ih =>
    rw [List.cons_append, setFcItem, hpre x List.mem_cons_self, ih fun y hy => hpre y (List.mem_cons_of_mem _ hy)]
    rfl

/-- A number is read whether it was read before or not. -/
theorem parseValue_number {name : CStr} {ty : FcValueType} (hty : ty.isNumber = true) {n : Int} (h₁ : intMin ≤ n)
    (h₂ : n ≤ intMax)
    (p : Prop) [Decidable p] : parseValue name ty (name, if p then Json.int n else .str (Decimal.ofInt n)) =
      some (name, Json.int n) := by
  have hint := parseIntText_ofInt h₁ h₂
  split
  · cases ty with
    | nonNegInt | posInt | enum | intArray => rfl
    | timestamp | string | stringArray | boolean => cases hty
  · cases ty with
    | nonNegInt | posInt | enum | intArray =>
      unfold parseValue
      dsimp only
      rw [hint, Option.map_some]
    | timestamp | string | stringArray | boolean => cases hty

/-- One turn of the loop reads the number of its name. -/
theorem parseTag_readItems (h : NumberItems items) (hfo : "fo".toList ∈ items.map Prod.fst) {t : String × FcValueType}
    (ht : t ∈ queryTags) (done : List CStr) : parseTag (readItems done items) t =
      some (readItems (t.1.toList :: done) items) := by
  have hname := queryTags_chars t ht
  unfold parseTag
  rw [getFcItem_eq hname (h.read_chars done)]
  by_cases hmem : t.1.toList ∈ items.map Prod.fst
  · obtain ⟨⟨key, n⟩, he, hkey⟩ := List.mem_map.mp hmem
    obtain rfl : key = t.1.toList := hkey
    have hnumber : t.2.isNumber = true := by
      obtain ⟨t', ht', hkey', hnumber⟩ := h.keys _ he
      rwa [queryTags_types t' ht' t ht hkey'] at hnumber
    have hrange := h.range _ he
    -- the item stands between items of other names
    obtain ⟨pre, post, rfl⟩ := List.append_of_mem he
    have hapart : ∀ e ∈ pre ++ post, e.1 ≠ t.1.toList := by
      have hnodup := h.nodup
      rw [List.map_append, List.map_cons, List.nodup_middle, List.nodup_cons, ← List.map_append] at hnodup
      exact fun e he heq => hnodup.1 (List.mem_map.mpr ⟨e, he, heq⟩)
    have hpre : ∀ e ∈ readItems done pre, e.1 ≠ t.1.toList := by
      intro e he
      obtain ⟨e₀, he₀, heq⟩ := mem_readItems he
      rw [← heq]
      exact hapart e₀ (List.mem_append_left _ he₀)
    have hpreKey : ∀ e ∈ readItems done pre, sameKey e.1 t.1.toList = false := by
      intro e he
      rw [Bool.eq_false_iff]
      refine fun hsame => hpre e he ((sameKey_iff (h.read_chars done e ?_) hname).mp hsame)
      rw [readItems_append]
      exact List.mem_append_left _ he
    have hfound : (readItems done (pre ++ (t.1.toList, n) :: post)).find? (fun e => e.1 = t.1.toList) =
        some (t.1.toList, if done.any fun d => d = t.1.toList then Json.int n else .str (Decimal.ofInt n)) := by
      rw [readItems_append, readItems_cons, List.find?_append,
        List.find?_eq_none.mpr fun e he => by simpa using hpre e he, Option.none_or, List.find?_cons_of_pos (by simp)]
    rw [hfound]
    dsimp only
    rw [parseValue_number hnumber hrange.1 hrange.2, Option.map_some, readItems_append, readItems_cons,
      setFcItem_append hpreKey ((sameKey_iff hname hname).mpr rfl), readItems_append, readItems_cons,
      readItems_other fun e he => hapart e (List.mem_append_left _ he),
      readItems_other fun e he => hapart e (List.mem_append_right _ he), if_pos (by simp)]
  · have hapart : ∀ e ∈ items, e.1 ≠ t.1.toList := fun e he heq => hmem (List.mem_map.mpr ⟨e, he, heq⟩)
    have hnone : (readItems done items).find? (fun e => e.1 = t.1.toList) = none := by
      refine List.find?_eq_none.mpr fun e he => ?_
      obtain ⟨e₀, he₀, heq⟩ := mem_readItems he
      rw [decide_eq_true_eq, ← heq]
      exact hapart e₀ he₀
    rw [hnone, readItems_other hapart]
    refine congrArg some (if_neg ?_)
    intro hname
    rw [hname] at hmem
    exact hmem hfo

theorem foldlM_parseTag (h : NumberItems items) (hfo : "fo".toList ∈ items.map Prod.fst) {l : List (String × FcValueType)}
    (hl : ∀ t ∈ l, t ∈ queryTags) (done : List CStr) :
    l.foldlM parseTag (readItems done items) = some (readItems ((l.map fun t => t.1.toList).reverse ++ done) items) := by
  induction l generalizing done with
  | nil => rfl
  | cons t l ih =>
    rw [List.foldlM_cons, parseTag_readItems h hfo (hl t List.mem_cons_self), Option.bind_eq_bind, Option.bind_some,
      ih fun t ht => hl t (List.mem_cons_of_mem _ ht), List.map_cons, List.reverse_cons, List.append_assoc,
      List.singleton_append]

/-- `parse_qs` reads the numbers of a query that names "fo". -/
theorem parseQs_items (h : NumberItems items) (hfo : "fo".toList ∈ items.map Prod.fst) :
    parseQs (items.map fun e => (e.1, .str (Decimal.ofInt e.2))) = some (fcItems items) := by
  have hstart : (items.map fun e => (e.1, .str (Decimal.ofInt e.2))) = readItems [] items :=
    List.map_congr_left fun e _ => by rw [List.any_nil, if_neg Bool.false_ne_true]
  have hall : readItems ((queryTags.map fun t => t.1.toList).reverse ++ []) items = fcItems items := by
    refine List.map_congr_left fun e he => ?_
    obtain ⟨t, ht, hkey, -⟩ := h.keys e he
    rw [if_pos]
    rw [List.append_nil, List.any_reverse, List.any_map, List.any_eq_true]
    exact ⟨t, ht, decide_eq_true hkey⟩
  have hfold := foldlM_parseTag h hfo (l := queryTags) (fun _ ht => ht) []
  unfold queryTags at hfold
  rw [List.foldlM_append] at hfold
  unfold parseQs
  rw [hstart]
  exact hfold.trans (congrArg some hall)

theorem NumberItems.item_chars (h : NumberItems items) :
    ∀ e ∈ fcItems items, ∀ c ∈ e.1, 97 ≤ c.toNat ∧ c.toNat ≤ 122 := by
  intro e he
  obtain ⟨e₀, he₀, rfl⟩ := List.mem_map.mp he
  exact h.key_chars e₀ he₀

/-- The number of a name. -/
theorem fcInt_fcItems (h : NumberItems items) {name : CStr} (hname : ∀ c ∈ name, 97 ≤ c.toNat ∧ c.toNat ≤ 122) :
    fcInt (fcItems items) name = (items.find? fun e => e.1 = name).map Prod.snd := by
  unfold fcInt
  rw [getFcItem_eq hname h.item_chars, fcItems, List.find?_map, Option.map_map]
  show Option.map _ (items.find? fun e => e.1 = name) = _
  cases hfound : items.find? fun e => e.1 = name with
  | none => rfl
  | some e =>
    have hrange := h.range e (List.mem_of_find?_eq_some hfound)
    exact congrArg some (Json.valueint_int hrange.1 hrange.2)

/-- Deleting takes out the items of that name, where there is one at most. -/
theorem deleteFcItem_fcItems (h : NumberItems items) {name : CStr} (hname : ∀ c ∈ name, 97 ≤ c.toNat ∧ c.toNat ≤ 122) :
    deleteFcItem (fcItems items) name = fcItems (items.filter fun e => e.1 ≠ name) := by
  have hsame : ∀ e ∈ fcItems items, (sameKey e.1 name = true ↔ e.1 = name) :=
    fun e he => sameKey_iff (h.item_chars e he) hname
  have hnodup := h.nodup
  clear h
  unfold deleteFcItem
  induction items with
  | nil => rfl
  | cons e items ih =>
    rw [List.map_cons, List.nodup_cons] at hnodup
    have hrest := ih (fun x hx => hsame x (List.mem_cons_of_mem _ hx)) hnodup.2
    have hhead := hsame (e.1, Json.int e.2) List.mem_cons_self
    show ((e.1, Json.int e.2) :: fcItems items).eraseP _ = _
    by_cases he : e.1 = name
    · have hkey : sameKey (e.1, Json.int e.2).1 name = true := hhead.mpr he
      simp only [List.eraseP_cons, hkey, cond_true]
      rw [List.filter_cons_of_neg (by simpa using he)]
      refine congrArg fcItems (List.filter_eq_self.mpr fun x hx => decide_eq_true ?_).symm
      rintro hxname
      exact hnodup.1 (List.mem_map.mpr ⟨x, hx, hxname.trans he.symm⟩)
    · have hkey : sameKey (e.1, Json.int e.2).1 name = false := Bool.eq_false_iff.mpr fun hs => he (hhead.mp hs)
      simp only [List.eraseP_cons, hkey, cond_false]
      rw [List.filter_cons_of_pos (by simpa using he), hrest]
      rfl

end Items

/-- The criteria of a request as it came in over HTTP, where they are all numbers. -/
structure CriteriaItems (items : List (CStr × Int)) : Prop extends NumberItems items where
  own : ∀ e ∈ items, e.1 ≠ "rcn".toList ∧ e.1 ≠ "drt".toList
  fo : "fo".toList ∈ items.map Prod.fst
  fu : ∀ e ∈ items, e.1 = "fu".toList → 1 ≤ e.2 ∧ e.2 ≤ 4

/-- The items of the query that is sent. -/
def sentItems (o2pt : OneM2MPrimitive) (items : List (CStr × Int)) : List (CStr × Int) :=
  items ++ if o2pt.rcnExplicit then [("rcn".toList, o2pt.rcn)] else []

section Query

variable {items : List (CStr × Int)} {o2pt : OneM2MPrimitive}

theorem sentItems_numbers (h : CriteriaItems items) (hrcn : o2pt.rcnExplicit = true → 0 ≤ o2pt.rcn ∧ o2pt.rcn ≤ 12) :
    NumberItems (sentItems o2pt items) := by
  unfold sentItems
  split
  · rename_i hexplicit
    obtain ⟨h₁, h₂⟩ := hrcn hexplicit
    refine ⟨fun e he => ?_, ?_, fun e he => ?_⟩
    · rcases List.mem_append.mp he with he | he
      · exact h.keys e he
      · rw [List.mem_singleton.mp he]
        exact ⟨("rcn", .enum), by simp [queryTags], rfl, rfl⟩
    · rw [List.map_append, List.map_singleton, List.nodup_append]
      refine ⟨h.nodup, List.nodup_singleton _, ?_⟩
      rintro k hk _ hk' rfl
      obtain ⟨e, he, rfl⟩ := List.mem_map.mp hk
      exact (h.own e he).1 (List.mem_singleton.mp hk')
    · rcases List.mem_append.mp he with he | he
      · exact h.range e he
      · rw [List.mem_singleton.mp he]
        unfold intMin intMax
        dsimp only
        omega
  · rw [List.append_nil]
    exact h.toNumberItems

/-- The criteria ask for a discovery where "fu" is 1. -/
theorem CriteriaItems.fu_iff (h : CriteriaItems items) :
    ((items.find? fun e => e.1 = "fu".toList).map Prod.snd = some 1 ↔ ("fu".toList, 1) ∈ items) ∧
      ((items.find? fun e => e.1 = "fu".toList).map Prod.snd).any (fun n => n < 1 || 4 < n) = false := by
  cases hfound : items.find? fun e => e.1 = "fu".toList with
  | none =>
    refine ⟨⟨fun heq => absurd heq (by simp), fun hm => ?_⟩, rfl⟩
    exact absurd (decide_eq_true rfl) (List.find?_eq_none.mp hfound _ hm)
  | some e =>
    have he := List.mem_of_find?_eq_some hfound
    have hkey : e.1 = "fu".toList := by simpa using List.find?_some hfound
    obtain ⟨h₁, h₂⟩ := h.fu e he hkey
    refine ⟨⟨fun heq => ?_, fun hm => ?_⟩, ?_⟩
    · rw [← hkey, ← Option.some.inj heq]
      exact he
    · exact congrArg (fun x => some x.2) (List.inj_on_of_nodup_map h.nodup he hm hkey)
    · show (decide (e.2 < 1) || decide (4 < e.2)) = false
      rw [decide_eq_false (by omega), decide_eq_false (by omega)]
      rfl

/-- What the names that are not criteria lead to among the items that are sent. -/
theorem sentItems_names (o2pt : OneM2MPrimitive) (h : CriteriaItems items) :
    (sentItems o2pt items).find? (fun e => e.1 = "drt".toList) = none ∧
      (sentItems o2pt items).filter (fun e => e.1 ≠ "drt".toList) = sentItems o2pt items ∧
      (sentItems o2pt items).find? (fun e => e.1 = "fu".toList) = items.find? (fun e => e.1 = "fu".toList) ∧
      (sentItems o2pt items).find? (fun e => e.1 = "rcn".toList) =
        (if o2pt.rcnExplicit then some ("rcn".toList, o2pt.rcn) else none) ∧
      (sentItems o2pt items).filter (fun e => e.1 ≠ "rcn".toList) = items := by
  have hitems : items.find? (fun e => e.1 = "rcn".toList) = none :=
    List.find?_eq_none.mpr fun e he => by simpa using (h.own e he).1
  have hkept : items.filter (fun e => e.1 ≠ "rcn".toList) = items :=
    List.filter_eq_self.mpr fun e he => by simpa using (h.own e he).1
  have hdrt : ∀ e ∈ sentItems o2pt items, e.1 ≠ "drt".toList := by
    intro e he
    rcases List.mem_append.mp he with he | he
    · exact (h.own e he).2
    · split at he
      · rw [List.mem_singleton.mp he]
        show "rcn".toList ≠ "drt".toList
        decide
      · cases he
  refine ⟨List.find?_eq_none.mpr fun e he => by simpa using hdrt e he,
    List.filter_eq_self.mpr fun e he => by simpa using hdrt e he, ?_, ?_, ?_⟩
  · unfold sentItems
    rw [List.find?_append]
    split
    · exact Option.or_none
    · exact Option.or_none
  · unfold sentItems
    rw [List.find?_append, hitems, Option.none_or]
    split <;> rfl
  · unfold sentItems
    rw [List.filter_append, hkept]
    split
    · exact List.append_nil _
    · exact List.append_nil _

/-- A query that was sent is read as it was made: with the result content taken out, and the operation turned into a
discovery where the criteria say so. -/
theorem readQuery_sent (h : CriteriaItems items) (hrcn : o2pt.rcnExplicit = true → 0 ≤ o2pt.rcn ∧ o2pt.rcn ≤ 12)
    (hshort : (((sentItems o2pt items).map itemSegment).flatMap QuerySegment.text).length < 255) (base : OneM2MPrimitive) :
    readQuery base (writeQuery id ((sentItems o2pt items).map itemSegment)) =
      ({ base with
          op := if ("fu".toList, 1) ∈ items then .discovery else base.op
          rcn := if o2pt.rcnExplicit then o2pt.rcn
            else if ("fu".toList, 1) ∈ items then defaultRcn .discovery else base.rcn
          rcnExplicit := o2pt.rcnExplicit
          drt := drtStructured
          fc := some (fcItems items) }, none) := by
  have hsent := sentItems_numbers h hrcn
  have hfo : "fo".toList ∈ (sentItems o2pt items).map Prod.fst := by
    rw [sentItems, List.map_append]
    exact List.mem_append_left _ h.fo
  have hne : sentItems o2pt items ≠ [] := by
    rintro hnil
    rw [hnil] at hfo
    cases hfo
  have hjson := qsToJson_items hsent hne hshort
  have hparse := parseQs_items hsent hfo
  have hread : queryItems (.obj ((sentItems o2pt items).map fun e => (e.1, .str (Decimal.ofInt e.2)))) =
      (sentItems o2pt items).map fun e => (e.1, Json.str (Decimal.ofInt e.2)) := List.map_map
  have hchars : ∀ name ∈ ["drt".toList, "fu".toList, "rcn".toList], ∀ c ∈ name, 97 ≤ c.toNat ∧ c.toNat ≤ 122 := by
    have hall : (["drt".toList, "fu".toList, "rcn".toList].all fun name => name.all fun c =>
        decide (97 ≤ c.toNat ∧ c.toNat ≤ 122)) = true := by decide
    exact fun name hname c hc => of_decide_eq_true (List.all_eq_true.mp (List.all_eq_true.mp hall name hname) c hc)
  obtain ⟨hdrt, hkept, hfu, hrcnItem, hdeleted⟩ := sentItems_names o2pt h
  obtain ⟨hdiscovery, hrange⟩ := h.fu_iff
  have hvalid : ((if o2pt.rcnExplicit then some ("rcn".toList, o2pt.rcn) else none).map Prod.snd).all
      (fun n => 0 ≤ n && n ≤ 12) = true := by
    split
    · rename_i hexplicit
      simpa using hrcn hexplicit
    · rfl
  unfold readQuery
  rw [hjson]
  dsimp only
  rw [hread, hparse]
  dsimp only
  rw [fcInt_fcItems hsent (hchars _ (by simp)), hdrt, deleteFcItem_fcItems hsent (hchars _ (by simp)), hkept,
    fcInt_fcItems hsent (hchars _ (by simp)), hfu, fcInt_fcItems hsent (hchars _ (by simp)), hrcnItem,
    deleteFcItem_fcItems hsent (hchars _ (by simp)), hdeleted, hrange, hvalid]
  simp only [hdiscovery]
  cases o2pt.rcnExplicit <;> rfl

theorem write_itemSegment (e : CStr × Int) : (itemSegment e).write id = e.1 ++ '=' :: Decimal.ofInt e.2 := by
  show e.1 ++ '=' :: ['+'].intercalate [Decimal.ofInt e.2] = _
  rw [List.intercalate_singleton]

/-- Segments that are each followed by a separator. -/
theorem flatMap_write (f : CStr → CStr) {segs : List QuerySegment} (hne : segs ≠ []) :
    segs.flatMap (fun g => g.write f ++ ['&']) = writeQuery f segs ++ ['&'] := by
  induction segs with
  | nil => exact absurd rfl hne
  | cons g segs ih =>
    cases segs with
    | nil => rw [List.flatMap_singleton, writeQuery_singleton]
    | cons g' segs =>
      rw [List.flatMap_cons, ih (List.cons_ne_nil _ _), writeQuery_cons_cons]
      simp only [List.append_assoc, List.cons_append, List.nil_append]

/-- The criteria in the query. -/
theorem fcToQs_items {double : ℚ → CStr} {qs : CStr} (h : NumberItems items)
    (hqs : fcToQs double (fcItems items) = some qs) :
    items ≠ [] ∧ qs = writeQuery id (items.map itemSegment) := by
  have hvalue : ∀ e ∈ items, fcValueText double (Json.int e.2) = '=' :: Decimal.ofInt e.2 := by
    intro e he
    obtain ⟨h₁, h₂⟩ := h.range e he
    show '=' :: printNumber double (e.2 : ℚ) = _
    have hint : (Json.num (e.2 : ℚ)).valueint = e.2 := Json.valueint_int h₁ h₂
    unfold printNumber
    rw [hint, if_pos rfl]
  have htext : (fcItems items).flatMap (fun e => e.1 ++ fcValueText double e.2 ++ ['&']) =
      (items.map itemSegment).flatMap fun g => g.write id ++ ['&'] := by
    rw [fcItems, List.flatMap_map, List.flatMap_map]
    refine List.flatMap_congr fun e he => ?_
    rw [hvalue e he, write_itemSegment]
  unfold fcToQs at hqs
  dsimp only at hqs
  rw [htext] at hqs
  by_cases hne : items = []
  · rw [hne] at hqs
    cases hqs
  · have hempty : (fcItems items).isEmpty = false := by simpa [fcItems] using hne
    rw [hempty, if_neg (by decide), flatMap_write id (by simpa using hne)] at hqs
    obtain ⟨-, hqs⟩ := Option.ite_none_right_eq_some.mp hqs
    rw [List.dropLast_concat, Option.some.injEq] at hqs
    exact ⟨hne, hqs.symm⟩

theorem writeQuery_append_singleton (f : CStr → CStr) {segs : List QuerySegment} (hne : segs ≠ []) (g : QuerySegment) :
    writeQuery f (segs ++ [g]) = writeQuery f segs ++ '&' :: g.write f := by
  induction segs with
  | nil => exact absurd rfl hne
  | cons g' segs ih =>
    cases segs with
    | nil => rw [List.singleton_append, writeQuery_cons_cons, writeQuery_singleton, writeQuery_singleton]
    | cons g'' segs =>
      rw [List.cons_append, List.cons_append, writeQuery_cons_cons, ← List.cons_append, ih (List.cons_ne_nil _ _),
        writeQuery_cons_cons]
      simp only [List.append_assoc, List.cons_append]

theorem writeQuery_ne_nil (h : NumberItems items) (hne : items ≠ []) : writeQuery id (items.map itemSegment) ≠ [] := by
  obtain ⟨e, rest, rfl⟩ := List.exists_cons_of_ne_nil hne
  have hseg : (itemSegment e).write id ≠ [] := by simp [itemSegment, QuerySegment.write]
  cases rest with
  | nil => rwa [List.map_singleton, writeQuery_singleton]
  | cons e' rest =>
    rw [List.map_cons, List.map_cons, writeQuery_cons_cons]
    exact List.append_ne_nil_of_left_ne_nil hseg _

/-- The query of a forwarded request has the criteria, and the result content behind them. -/
theorem forwardedQuery_items {double : ℚ → CStr} {qs : Option CStr} (h : NumberItems items)
    (hfc : o2pt.fc = some (fcItems items))
    (hqs : forwardedQuery double o2pt = some qs) : qs = some (writeQuery id ((sentItems o2pt items).map itemSegment)) := by
  unfold forwardedQuery at hqs
  rw [hfc] at hqs
  obtain ⟨qs', hmade, hqs⟩ := Option.bind_eq_some_iff.mp hqs
  obtain ⟨text, htext, rfl⟩ := Option.map_eq_some_iff.mp hmade
  obtain ⟨hne, rfl⟩ := fcToQs_items h htext
  unfold sentItems
  cases hexplicit : o2pt.rcnExplicit with
  | false =>
    rw [hexplicit] at hqs
    rw [if_neg (by decide), List.append_nil]
    exact (Option.some.inj hqs).symm
  | true =>
    rw [hexplicit] at hqs
    have hqs := Option.some.inj hqs
    rw [← hqs, if_pos rfl, List.map_append, List.map_singleton, writeQuery_append_singleton id (by simpa using hne),
      Option.getD_some, appendQueryParameter, Bool.eq_false_iff.mpr fun he =>
        writeQuery_ne_nil h hne (List.isEmpty_iff.mp he)]
    simp [write_itemSegment]

end Query

/-! ## The round trip -/

/-- A primitive that is forwarded as it came in over HTTP, or as the server would have got it. -/
structure Forwardable (o2pt : OneM2MPrimitive) (items : Option (List (CStr × Int))) : Prop where
  target : IsTarget o2pt.target
  fr : ∀ fr ∈ o2pt.fr, IsHeaderValue fr
  rqi : ∀ rqi ∈ o2pt.rqi, IsHeaderValue rqi
  ty : o2pt.op = .create → 0 ≤ o2pt.ty
  content : ∀ v ∈ o2pt.requestPc, Arriving v
  notify : o2pt.op = .notify → isNotification o2pt.requestPc = true
  create : o2pt.op = .create → o2pt.ty = 0 → isNotification o2pt.requestPc = false
  fc : o2pt.fc = items.map fcItems
  criteria : ∀ l ∈ items, CriteriaItems l ∧ (((sentItems o2pt l).map itemSegment).flatMap QuerySegment.text).length < 255
  discovery : o2pt.op = .discovery ↔ ∃ l ∈ items, ("fu".toList, 1) ∈ l
  explicit : o2pt.rcnExplicit = true → items.isSome = true ∧ 0 ≤ o2pt.rcn ∧ o2pt.rcn ≤ 12
  default : o2pt.rcnExplicit = false → o2pt.rcn = defaultRcn o2pt.op

section RoundTrip

variable {o2pt : OneM2MPrimitive} {items : Option (List (CStr × Int))} {double : ℚ → CStr} {host text : CStr} {port : Int}
  {req : OutgoingRequest}

/-- `atoi` reads what `%d` prints. -/
theorem atoi_ofInt (n : Int) : atoi (Decimal.ofInt n) = n := by
  have hds := ofNat_digits n.natAbs
  have hwhole : (Decimal.ofNat n.natAbs).takeWhile Char.isDigit = Decimal.ofNat n.natAbs :=
    List.takeWhile_eq_self_iff.mpr hds
  have hvalue : (Decimal.ofNat n.natAbs).foldl (fun n c => 10 * n + (c.toNat - '0'.toNat)) 0 = n.natAbs :=
    Decimal.value_ofNat n.natAbs
  unfold Decimal.ofInt
  by_cases hneg : n < 0
  · rw [if_pos hneg]
    show -(((Decimal.ofNat n.natAbs).takeWhile Char.isDigit).foldl (fun n c => 10 * n + (c.toNat - '0'.toNat)) 0 : Nat) = n
    rw [hwhole, hvalue]
    omega
  · rw [if_neg hneg]
    obtain ⟨c, l, hhead, hc⟩ := Decimal.head_ofNat n.natAbs
    have hrange := Decimal.isDigit_range hc
    obtain ⟨hspace, hminus, hplus⟩ := Decimal.isSpace_of_isDigit hc
    rw [hhead] at hwhole hvalue ⊢
    have hdrop : (c :: l).dropWhile (fun c => c = ' ' || ('\t' ≤ c && c ≤ '\r')) = c :: l := by
      refine List.dropWhile_cons_of_neg ?_
      have hle : ¬ c ≤ '\r' := fun hle => by
        have : c.toNat ≤ 13 := UInt32.le_iff_toNat_le.mp hle
        omega
      have hne : c ≠ ' ' := by
        rintro rfl
        exact absurd hc (by decide)
      simp [hle, hne]
    unfold atoi
    dsimp only
    rw [hdrop]
    split
    · rename_i heq
      exact absurd (List.cons.inj heq).1 hminus
    · rename_i heq
      exact absurd (List.cons.inj heq).1 hplus
    · rw [hwhole, hvalue]
      omega

theorem printed_no_nul {v : Value} (h : Arriving v) : Char.ofNat 0 ∉ cjsonPrintUnformatted v := by
  have hfilter : normalizePayload (cjsonPrintUnformatted v) = cjsonPrintUnformatted v := by
    unfold cjsonPrintUnformatted
    rw [normalizePayload_printValue v 0 h.printed, h.ascii]
  intro hm
  rw [← hfilter] at hm
  exact absurd (List.of_mem_filter hm) (by decide)

theorem isHeaderValue_of_chars {value : CStr} (h : ∀ c ∈ value, 43 ≤ c.toNat ∧ c.toNat ≤ 122) : IsHeaderValue value where
  oneLine := by
    intro c hc
    have hrange := h c hc
    unfold lineDelim
    refine ⟨?_, ?_⟩
    · rw [Bool.or_eq_false_iff, decide_eq_false_iff_not, decide_eq_false_iff_not]
      exact ⟨fun hcr => absurd hrange (by rw [hcr]; decide), fun hlf => absurd hrange (by rw [hlf]; decide)⟩
    · rintro rfl
      exact absurd hrange (by decide)
  trimmed := by
    cases value with
    | nil => rfl
    | cons c value =>
      refine List.dropWhile_cons_of_neg ?_
      rw [decide_eq_true_eq]
      rintro rfl
      exact absurd (h ' ' List.mem_cons_self) (by decide)

theorem ofInt_range (n : Int) : ∀ c ∈ Decimal.ofInt n, 43 ≤ c.toNat ∧ c.toNat ≤ 122 := fun c hc =>
  isItemChar_spec (by unfold isItemChar; rw [ofInt_chars n c hc, Bool.or_true])

theorem isHeaderValue_host (h : IsHeaderValue host) (port : Int) : IsHeaderValue (host ++ ':' :: Decimal.ofInt port) where
  oneLine := by
    intro c hc
    rcases List.mem_append.mp hc with hc | hc
    · exact h.oneLine c hc
    · rcases List.mem_cons.mp hc with rfl | hc
      · decide
      · exact (isHeaderValue_of_chars (ofInt_range port)).oneLine c hc
  trimmed := by
    cases host with
    | nil => rfl
    | cons c host =>
      refine List.dropWhile_cons_of_neg fun hc => ?_
      have htrimmed := h.trimmed
      rw [List.dropWhile_cons, if_pos hc] at htrimmed
      have hlen := (List.dropWhile_suffix (l := host) (fun c => decide (c = ' '))).length_le
      rw [htrimmed, List.length_cons] at hlen
      omega

theorem contentType_chars (o2pt : OneM2MPrimitive) : ∀ c ∈ "application/json".toList ++
    (if 0 < o2pt.ty ∧ o2pt.op = .create then ";ty=".toList ++ Decimal.ofInt o2pt.ty else []), 43 ≤ c.toNat ∧
      c.toNat ≤ 122 := by
  have htype : ∀ c ∈ "application/json".toList, 43 ≤ c.toNat ∧ c.toNat ≤ 122 := Tokens.forall_mem_of_all (by decide)
  have hty : ∀ c ∈ ";ty=".toList, 43 ≤ c.toNat ∧ c.toNat ≤ 122 := Tokens.forall_mem_of_all (by decide)
  intro c hc
  rcases List.mem_append.mp hc with hc | hc
  · exact htype c hc
  · split at hc
    · rcases List.mem_append.mp hc with hc | hc
      · exact hty c hc
      · exact ofInt_range _ c hc
    · cases hc

/-- The word of a query: visible, and without an escape sequence. -/
theorem query_chars {l : List (CStr × Int)} (h : NumberItems l) :
    ∀ c ∈ writeQuery id (l.map itemSegment), isSpace c = false ∧ c ≠ '%' ∧ c ≠ Char.ofNat 0 := by
  have hrange : ∀ c : Char, 38 ≤ c.toNat ∧ c.toNat ≤ 122 → isSpace c = false ∧ c ≠ '%' ∧ c ≠ Char.ofNat 0 := by
    intro c hc
    refine ⟨isSpace_of_le (UInt32.le_iff_toNat_le.mpr ?_) ?_, ?_, ?_⟩
    · show 32 ≤ c.toNat
      omega
    all_goals
      rintro rfl
      exact absurd hc (by decide)
  intro c hc
  refine hrange c ?_
  rcases mem_writeQuery hc with hc | ⟨g, hg, s, hs, hc⟩
  · simp only [List.mem_cons, List.not_mem_nil, or_false] at hc
    rcases hc with rfl | rfl | rfl <;> decide
  · have := isItemChar_spec ((h.chars hg).2 s hs c hc)
    omega

theorem opToMethod_chars (op : Operation) :
    opToMethod op ≠ [] ∧ ∀ c ∈ opToMethod op, isSpace c = false ∧ c ≠ Char.ofNat 0 := by
  cases op <;> exact ⟨by decide, Tokens.forall_mem_of_all (by decide)⟩

/-- The criteria that are sent with a primitive. -/
theorem Forwardable.sent (hp : Forwardable o2pt items) {l : List (CStr × Int)} (hl : items = some l) :
    NumberItems (sentItems o2pt l) :=
  sentItems_numbers (hp.criteria l hl).1 fun he => (hp.explicit he).2

/-- The query of a primitive. -/
theorem Forwardable.query (hp : Forwardable o2pt items) {qs : Option CStr} (hqs : forwardedQuery double o2pt = some qs) :
    qs = items.map (fun l => writeQuery id ((sentItems o2pt l).map itemSegment)) := by
  cases items with
  | none =>
    have hexplicit : o2pt.rcnExplicit = false := by
      rw [Bool.eq_false_iff]
      intro he
      cases (hp.explicit he).1
    unfold forwardedQuery at hqs
    rw [hp.fc, hexplicit] at hqs
    exact (Option.some.inj hqs).symm
  | some l => exact forwardedQuery_items (hp.criteria l rfl).1.toNumberItems hp.fc hqs

/-- What is filled in is well formed. -/
theorem httpForwarding_wellFormed (hp : Forwardable o2pt items) (hhost : IsHeaderValue host)
    (hreq : httpForwarding double o2pt = some req) : req.WellFormed host port := by
  obtain ⟨qs, hqs, rfl⟩ := Option.map_eq_some_iff.mp hreq
  have hquery := hp.query hqs
  refine ⟨opToMethod_chars o2pt.op, ?_, ?_, ?_, ?_⟩
  · obtain ⟨hne, hchars⟩ := forwardedUri_chars hp.target
    refine ⟨List.append_ne_nil_of_left_ne_nil hne _, fun c hc => ?_⟩
    rcases List.mem_append.mp hc with hc | hc
    · exact ⟨(hchars c hc).1, (hchars c hc).2.2.2⟩
    · replace hc : c ∈ if (qs.getD []).isEmpty then [] else '?' :: qs.getD [] := hc
      split at hc
      · cases hc
      · rcases List.mem_cons.mp hc with rfl | hc
        · decide
        · cases items with
          | none =>
            rw [hquery] at hc
            cases hc
          | some l =>
            rw [hquery] at hc
            have hspec := query_chars (hp.sent rfl) c hc
            exact ⟨hspec.1, hspec.2.2⟩
  · have hnames : ∀ name ∈ ["Host", "X-M2M-Origin", "X-M2M-RVI", "X-M2M-RI", "Content-Type", "Content-Length"],
        IsHeaderName name.toList := by
      intro name hname
      simp only [List.mem_cons, List.not_mem_nil, or_false] at hname
      rcases hname with rfl | rfl | rfl | rfl | rfl | rfl <;>
        exact ⟨by decide, Tokens.forall_mem_of_all (by decide)⟩
    intro h hh
    simp only [OutgoingRequest.allHeaders, List.cons_append, List.nil_append, List.mem_cons, List.not_mem_nil, or_false]
      at hh
    rcases hh with rfl | rfl | rfl | rfl | rfl | rfl <;> exact hnames _ (by simp)
  · intro h hh value hvalue
    simp only [OutgoingRequest.allHeaders, List.cons_append, List.nil_append, List.mem_cons, List.not_mem_nil, or_false]
      at hh
    rcases hh with rfl | rfl | rfl | rfl | rfl | rfl
    · cases hvalue
      exact isHeaderValue_host hhost port
    · exact hp.fr value hvalue
    · cases hvalue
      exact isHeaderValue_of_chars (Tokens.forall_mem_of_all (by decide))
    · exact hp.rqi value hvalue
    · cases hvalue
      exact isHeaderValue_of_chars (contentType_chars o2pt)
    · dsimp only at hvalue
      split at hvalue
      · cases hvalue
        refine isHeaderValue_of_chars fun c hc => ?_
        have := Decimal.isDigit_range (ofNat_digits _ c hc)
        omega
      · cases hvalue
  · cases hpc : o2pt.requestPc with
    | none => exact List.not_mem_nil
    | some v =>
      exact printed_no_nul (hp.content v hpc)

/-- A header of another name is passed over. -/
theorem searchHeader_skip {key : String} {name : CStr} (hne : key.toList.map Char.toLower ≠ name.map Char.toLower)
    (hlower : (key.toList.map Char.toLower).map Char.toLower = key.toList.map Char.toLower) (value : Option CStr)
    (headers : List (String × Option CStr)) :
    searchHeader (givenHeaders ((key, value) :: headers)) false name = searchHeader (givenHeaders headers) false name := by
  cases value with
  | none => rfl
  | some value =>
    show searchHeader (⟨key.toList.map Char.toLower, value⟩ :: givenHeaders headers) false name = _
    unfold searchHeader
    rw [List.find?_cons_of_neg (by rw [decide_eq_true_eq, hlower]; exact hne)]

theorem searchHeader_found {key : String} {name : CStr}
    (h : (key.toList.map Char.toLower).map Char.toLower = name.map Char.toLower) (value : CStr)
    (headers : List (String × Option CStr)) :
    searchHeader (givenHeaders ((key, some value) :: headers)) false name = some (some value) := by
  show searchHeader (⟨key.toList.map Char.toLower, value⟩ :: givenHeaders headers) false name = _
  unfold searchHeader
  simp only [List.find?_cons, h, decide_true]

theorem searchHeader_absent (key : String) (name : CStr) (headers : List (String × Option CStr)) :
    searchHeader (givenHeaders ((key, none) :: headers)) false name = searchHeader (givenHeaders headers) false name := rfl

/-- The headers are found again under their names. -/
theorem searchHeader_forwarded (fr rqi size : Option CStr) (host rvi contentType : CStr) :
    let search := searchHeader (givenHeaders [("Host", some host), ("X-M2M-Origin", fr), ("X-M2M-RVI", some rvi),
      ("X-M2M-RI", rqi),
      ("Content-Type", some contentType), ("Content-Length", size)]) false
    search "x-m2m-origin".toList = some fr ∧ search "x-m2m-ri".toList = some rqi ∧ search "x-m2m-rsc".toList = some none ∧
      search "x-m2m-rvi".toList = some (some rvi) ∧ search "content-type".toList = some (some contentType) := by
  refine ⟨?_, ?_, ?_, ?_, ?_⟩
  · rw [searchHeader_skip (by decide) (by decide)]
    cases fr with
    | some fr => exact searchHeader_found (by decide) fr _
    | none =>
      rw [searchHeader_absent, searchHeader_skip (by decide) (by decide), searchHeader_skip (by decide) (by decide),
        searchHeader_skip (by decide) (by decide), searchHeader_skip (by decide) (by decide)]
      rfl
  · rw [searchHeader_skip (by decide) (by decide), searchHeader_skip (by decide) (by decide),
      searchHeader_skip (by decide) (by decide)]
    cases rqi with
    | some rqi => exact searchHeader_found (by decide) rqi _
    | none =>
      rw [searchHeader_absent, searchHeader_skip (by decide) (by decide), searchHeader_skip (by decide) (by decide)]
      rfl
  · rw [searchHeader_skip (by decide) (by decide), searchHeader_skip (by decide) (by decide),
      searchHeader_skip (by decide) (by decide), searchHeader_skip (by decide) (by decide),
      searchHeader_skip (by decide) (by decide), searchHeader_skip (by decide) (by decide)]
    rfl
  · rw [searchHeader_skip (by decide) (by decide), searchHeader_skip (by decide) (by decide)]
    exact searchHeader_found (by decide) rvi _
  · rw [searchHeader_skip (by decide) (by decide), searchHeader_skip (by decide) (by decide),
      searchHeader_skip (by decide) (by decide), searchHeader_skip (by decide) (by decide)]
    exact searchHeader_found (by decide) contentType _

/-- The resource type is read from the content type. -/
theorem behindTy_contentType (o2pt : OneM2MPrimitive) : behindTy ("application/json".toList ++
    (if 0 < o2pt.ty ∧ o2pt.op = .create then ";ty=".toList ++ Decimal.ofInt o2pt.ty else [])) =
      if 0 < o2pt.ty ∧ o2pt.op = .create then some (Decimal.ofInt o2pt.ty) else none := by
  split
  · rfl
  · rfl

/-- The content is read as it was printed. -/
theorem content_read {pc : Option Value} (h : ∀ v ∈ pc, Arriving v) :
    let payload := normalizePayload ((pc.map cjsonPrintUnformatted).getD [])
    (if payload.isEmpty then none else cjsonParse payload) = pc ∧ (!payload.isEmpty && pc.isNone) = false := by
  cases pc with
  | none => exact ⟨rfl, rfl⟩
  | some v =>
    have hparse := (h v rfl).read
    have hempty : (normalizePayload (cjsonPrintUnformatted v)).isEmpty = false := by
      rw [Bool.eq_false_iff]
      intro he
      rw [List.isEmpty_iff.mp he] at hparse
      cases hparse
    refine ⟨?_, Bool.and_false _⟩
    show (if (normalizePayload (cjsonPrintUnformatted v)).isEmpty = true then none else _) = _
    rw [hempty, if_neg (by decide)]
    exact hparse

/-- The path and the query of a request are taken apart where they were put together. -/
theorem word_read {target : CStr} {qs : Option CStr} (htarget : IsTarget target)
    (hqs : ∀ q ∈ qs, q ≠ [] ∧ ∀ c ∈ q, isSpace c = false ∧ c ≠ '%' ∧ c ≠ Char.ofNat 0) :
    let word := forwardedUri target ++ if (qs.getD []).isEmpty then [] else '?' :: qs.getD []
    (uriUnescape word).takeWhile (· ≠ '?') = forwardedUri target ∧ ((uriUnescape word).dropWhile (· ≠ '?')).tail? = qs := by
  obtain ⟨-, hchars⟩ := forwardedUri_chars htarget
  have hpath : ∀ c ∈ forwardedUri target, decide (c ≠ '?') = true := fun c hc => decide_eq_true (hchars c hc).2.2.1
  have hliteral : ∀ c ∈ forwardedUri target, isSpace c = false ∧ c ≠ '%' ∧ c ≠ Char.ofNat 0 :=
    fun c hc => ⟨(hchars c hc).1, (hchars c hc).2.1, (hchars c hc).2.2.2⟩
  cases qs with
  | none =>
    show (uriUnescape (forwardedUri target ++ [])).takeWhile _ = _ ∧
      ((uriUnescape (forwardedUri target ++ [])).dropWhile _).tail? = _
    rw [List.append_nil, uriUnescape_literal hliteral, List.takeWhile_eq_self_iff.mpr hpath,
      List.dropWhile_eq_nil_iff.mpr hpath]
    exact ⟨rfl, rfl⟩
  | some q =>
    obtain ⟨hne, hq⟩ := hqs q rfl
    have hempty : q.isEmpty = false := Bool.eq_false_iff.mpr fun he => hne (List.isEmpty_iff.mp he)
    have hword : ∀ c ∈ forwardedUri target ++ '?' :: q, isSpace c = false ∧ c ≠ '%' ∧ c ≠ Char.ofNat 0 := by
      intro c hc
      rcases List.mem_append.mp hc with hc | hc
      · exact hliteral c hc
      · rcases List.mem_cons.mp hc with rfl | hc
        · decide
        · exact hq c hc
    simp only [Option.getD_some, hempty, Bool.false_eq_true, if_false]
    rw [uriUnescape_literal hword, List.takeWhile_append_of_pos hpath,
      List.dropWhile_append_of_pos hpath, List.takeWhile_cons_of_neg (by decide), List.dropWhile_cons_of_neg (by decide),
      List.append_nil]
    exact ⟨rfl, rfl⟩

/-- The method stands for the operation, but for a discovery, and for a notification with its content. -/
theorem operation_read (hp : Forwardable o2pt items) {op : Operation}
    (hop : op = if o2pt.op = .discovery then .retrieve else o2pt.op) {ty : Option CStr}
    (hty : ty = if 0 < o2pt.ty ∧ o2pt.op = .create then some (Decimal.ofInt o2pt.ty) else none) :
    httpParseOperation (opToMethod o2pt.op) = some (opToMethod o2pt.op) ∧ opToMethod o2pt.op ≠ "OPTIONS".toList ∧
      (if opToMethod o2pt.op = "GET".toList then Operation.retrieve else if opToMethod o2pt.op = "PUT".toList then .update
        else if opToMethod o2pt.op = "DELETE".toList then .delete
        else if (ty.isNone && isNotification o2pt.requestPc) = true then .notify else .create) = op := by
  subst hop hty
  cases hop : o2pt.op with
  | create =>
    have hcreate : ((if 0 < o2pt.ty ∧ Operation.create = .create then some (Decimal.ofInt o2pt.ty) else none).isNone &&
        isNotification o2pt.requestPc) = false := by
      by_cases hpos : 0 < o2pt.ty
      · rw [if_pos ⟨hpos, rfl⟩]
        rfl
      · rw [hp.create hop (by have := hp.ty hop; omega), Bool.and_false]
    rw [hcreate]
    exact ⟨rfl, by decide, rfl⟩
  | notify =>
    have hnotify : ((if 0 < o2pt.ty ∧ Operation.notify = .create then some (Decimal.ofInt o2pt.ty) else none).isNone &&
        isNotification o2pt.requestPc) = true := by
      rw [hp.notify hop, if_neg (by simp)]
      rfl
    rw [hnotify]
    exact ⟨rfl, by decide, rfl⟩
  | retrieve => exact ⟨rfl, by decide, rfl⟩
  | update => exact ⟨rfl, by decide, rfl⟩
  | delete => exact ⟨rfl, by decide, rfl⟩
  | discovery => exact ⟨rfl, by decide, rfl⟩

/-- A primitive that is forwarded over HTTP is handled by the CSE that gets it as it was here: only its release version is
the one of this CSE, and its result type the structured one. -/
theorem forwarded_request_handled (hp : Forwardable o2pt items) (hhost : IsHeaderValue host)
    (hreq : httpForwarding double o2pt = some req) (htext : sendHttpRequest host port req = some text) :
    (respond [text]).bind handleHttpRequest = some (.routed
      { o2pt with
        rsc := 0
        rvi := cseRvi
        ty := if o2pt.op = .create then o2pt.ty else 0
        drt := if items.isSome then drtStructured else 0 } none) := by
  obtain ⟨r, hr, hmethod, huri, hqs, hheaders, hdangling, hpayload⟩ :=
    respond_sent (httpForwarding_wellFormed hp hhost hreq) htext
  obtain ⟨qs, hmade, rfl⟩ := Option.map_eq_some_iff.mp hreq
  have hquery := hp.query hmade
  have hqsChars : ∀ q ∈ qs, q ≠ [] ∧ ∀ c ∈ q, isSpace c = false ∧ c ≠ '%' ∧ c ≠ Char.ofNat 0 := by
    intro q hq
    rw [hquery] at hq
    obtain ⟨l, rfl, rfl⟩ := Option.map_eq_some_iff.mp hq
    have hne : sentItems o2pt l ≠ [] := by
      have hfo := (hp.criteria l rfl).1.fo
      unfold sentItems
      refine List.append_ne_nil_of_left_ne_nil ?_ _
      rintro rfl
      cases hfo
    exact ⟨writeQuery_ne_nil (hp.sent rfl) hne, query_chars (hp.sent rfl)⟩
  obtain ⟨hpath, hqsRead⟩ := word_read hp.target hqsChars
  obtain ⟨hpc, hok⟩ := content_read hp.content
  obtain ⟨horigin, hri, hrsc, hrvi, htype⟩ := searchHeader_forwarded o2pt.fr o2pt.rqi
    (if 0 < ((o2pt.requestPc.map cjsonPrintUnformatted).getD []).length then
      some (Decimal.ofNat ((o2pt.requestPc.map cjsonPrintUnformatted).getD []).length) else none)
    (host ++ ':' :: Decimal.ofInt port) "3".toList ("application/json".toList ++
      (if 0 < o2pt.ty ∧ o2pt.op = .create then ";ty=".toList ++ Decimal.ofInt o2pt.ty else []))
  obtain ⟨hparsed, hoptions, hop⟩ := operation_read hp rfl rfl
  rw [hr, Option.bind_some]
  replace hheaders : r.message.headers = givenHeaders
    [("Host", some (host ++ ':' :: Decimal.ofInt port)), ("X-M2M-Origin", o2pt.fr),
    ("X-M2M-RVI", some "3".toList), ("X-M2M-RI", o2pt.rqi), ("Content-Type", some ("application/json".toList ++
      (if 0 < o2pt.ty ∧ o2pt.op = .create then ";ty=".toList ++ Decimal.ofInt o2pt.ty else []))),
    ("Content-Length", if 0 < ((o2pt.requestPc.map cjsonPrintUnformatted).getD []).length then
      some (Decimal.ofNat ((o2pt.requestPc.map cjsonPrintUnformatted).getD []).length) else none)] := hheaders
  replace huri : r.uri = forwardedUri o2pt.target := huri.trans hpath
  replace hqs : r.qs = qs := hqs.trans hqsRead
  replace hmethod : r.method = some (opToMethod o2pt.op) := hmethod.trans hparsed
  unfold handleHttpRequest
  rw [hpayload, hheaders, hdangling, huri, hqs, hmethod]
  dsimp only
  rw [Option.getD_some, hpc, hok, if_neg (by decide), horigin, hri, hrsc, hrvi, htype, targetOf_forwardedUri hp.target]
  simp only [Option.bind_eq_bind, Option.bind_some, behindTy_contentType]
  have hty : (Option.map atoi (if 0 < o2pt.ty ∧ o2pt.op = .create then some (Decimal.ofInt o2pt.ty) else none)).getD 0 =
      if o2pt.op = .create then o2pt.ty else 0 := by
    by_cases hcreate : o2pt.op = .create
    · by_cases hpos : 0 < o2pt.ty
      · rw [if_pos ⟨hpos, hcreate⟩, if_pos hcreate]
        exact atoi_ofInt o2pt.ty
      · have := hp.ty hcreate
        rw [if_neg (fun h => hpos h.1), if_pos hcreate]
        show 0 = o2pt.ty
        omega
    · rw [if_neg (fun h => hcreate h.2), if_neg hcreate]
      rfl
  rw [if_neg hoptions, hop, hty]
  cases items with
  | none =>
    have hfc : o2pt.fc = none := hp.fc
    have hexplicit : o2pt.rcnExplicit = false := by
      rw [Bool.eq_false_iff]
      intro he
      cases (hp.explicit he).1
    have hop : o2pt.op ≠ .discovery := by
      intro hd
      obtain ⟨l, hl, -⟩ := hp.discovery.mp hd
      cases hl
    replace hquery : qs = none := hquery
    rw [hquery, if_neg hop, hfc, hexplicit, hp.default hexplicit]
    rfl
  | some l =>
    obtain ⟨hcriteria, hshort⟩ := hp.criteria l rfl
    have hfc : o2pt.fc = some (fcItems l) := hp.fc
    replace hquery : qs = some (writeQuery id ((sentItems o2pt l).map itemSegment)) := hquery
    have hempty : (writeQuery id ((sentItems o2pt l).map itemSegment)).isEmpty = false :=
      Bool.eq_false_iff.mpr fun he => (hqsChars _ hquery).1 (List.isEmpty_iff.mp he)
    have hdiscovery : o2pt.op = .discovery ↔ ("fu".toList, 1) ∈ l := by
      rw [hp.discovery]
      constructor
      · rintro ⟨l', hl', hmem⟩
        rw [Option.mem_def, Option.some.injEq] at hl'
        rwa [hl']
      · exact fun hmem => ⟨l, rfl, hmem⟩
    have hread := readQuery_sent hcriteria (fun he => (hp.explicit he).2) hshort
    rw [hquery]
    dsimp only
    rw [hempty, if_neg (by decide), hread, hfc]
    have hrcn : (if o2pt.rcnExplicit = true then o2pt.rcn
        else if ("fu".toList, 1) ∈ l then defaultRcn .discovery
        else defaultRcn (if o2pt.op = .discovery then .retrieve else o2pt.op)) = o2pt.rcn := by
      by_cases he : o2pt.rcnExplicit = true
      · rw [if_pos he]
      · rw [if_neg he, hp.default (by simpa using he)]
        by_cases hd : o2pt.op = .discovery
        · rw [if_pos (hdiscovery.mp hd), hd]
        · rw [if_neg fun h => hd (hdiscovery.mpr h), if_neg hd]
    have hopRead : (if ("fu".toList, 1) ∈ l then Operation.discovery
        else if o2pt.op = .discovery then .retrieve else o2pt.op) = o2pt.op := by
      by_cases hd : o2pt.op = .discovery
      · rw [if_pos (hdiscovery.mp hd), hd]
      · rw [if_neg fun h => hd (hdiscovery.mpr h), if_neg hd]
    dsimp only
    rw [hrcn, hopRead]
    rfl

end RoundTrip

/-- A request for a container at another CSE, with the result content it asks for. -/
def createElsewhere : OneM2MPrimitive where
  op := .create
  target := "/other/base".toList
  fr := some "/tinyiot/CAE".toList
  rqi := some "r17".toList
  rvi := .v3
  ty := 3
  rcn := 3
  rcnExplicit := true
  drt := 1
  fc := some (fcItems [("fo".toList, 1)])
  requestPc := some containerContent

theorem createElsewhere_forwardable : Forwardable createElsewhere (some [("fo".toList, 1)]) where
  target := ⟨Tokens.forall_mem_of_all (by decide), by decide, by decide⟩
  fr := by
    intro fr hfr
    cases hfr
    exact isHeaderValue_of_chars (Tokens.forall_mem_of_all (by decide))
  rqi := by
    intro rqi hrqi
    cases hrqi
    exact isHeaderValue_of_chars (Tokens.forall_mem_of_all (by decide))
  ty := fun _ => by decide
  content := by
    intro v hv
    cases hv
    exact ⟨containerContent_printed, rfl, by decide⟩
  notify := fun h => by cases h
  create := fun _ h => absurd h (by decide)
  fc := rfl
  criteria := by
    intro l hl
    cases hl
    refine ⟨⟨⟨?_, by decide, ?_⟩, ?_, by decide, ?_⟩, by decide +kernel⟩
    · intro e he
      rw [List.mem_singleton.mp he]
      exact ⟨("fo", .enum), by decide, rfl, rfl⟩
    · intro e he
      rw [List.mem_singleton.mp he]
      exact ⟨by decide, by decide⟩
    · intro e he
      rw [List.mem_singleton.mp he]
      exact ⟨by decide, by decide⟩
    · intro e he hfu
      rw [List.mem_singleton.mp he] at hfu
      exact absurd hfu (by decide)
  discovery := by
    constructor
    · intro h
      cases h
    · rintro ⟨l, hl, hmem⟩
      cases hl
      exact absurd hmem (by decide)
  explicit := fun _ => ⟨rfl, by decide, by decide⟩
  default := fun h => by cases h

theorem forwarded_request_handled_create : ∃ text, (httpForwarding (fun _ => []) createElsewhere).bind
    (sendHttpRequest "localhost".toList 8081) = some text ∧
      (respond [text]).bind handleHttpRequest = some (.routed { createElsewhere with rsc := 0 } none) := by
  have hsent : ((httpForwarding (fun _ => []) createElsewhere).bind (sendHttpRequest "localhost".toList 8081)).isSome =
    true := by
    decide +kernel
  obtain ⟨text, htext⟩ := Option.isSome_iff_exists.mp hsent
  obtain ⟨req, hreq, hsend⟩ := Option.bind_eq_some_iff.mp htext
  exact ⟨text, htext, forwarded_request_handled createElsewhere_forwardable
    (isHeaderValue_of_chars (Tokens.forall_mem_of_all (by decide))) hreq hsend⟩

end TinyIoT
