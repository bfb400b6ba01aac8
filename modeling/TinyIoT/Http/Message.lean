/-
HTTP messages as `parse_http_request` and `parse_http_response` take them apart: `strtok_r` with one set of delimiters
after another, where runs of delimiters are skipped, and the end of the headers is found by a look behind the last
token. The buffer behind a message is filled with zeros; a look there is noted.
-/
import TinyIoT.Lib.Tokens
import TinyIoT.Access.Policy

namespace TinyIoT

/-- A header of the list: its name in lower case, and its value. -/
structure Header where
  name : CStr
  value : CStr
  deriving DecidableEq, Repr

/-- What the loop over the headers leaves: the list, whether its last node is empty, the rest of the text, and whether the
loop looked behind the end of the message. -/
structure HeaderRead where
  headers : List Header
  dangling : Bool
  after : CStr
  overrun : Bool

/-- What is read of a message behind its start line. -/
structure HttpMessage where
  headers : List Header
  dangling : Bool
  payload : Option CStr
  payloadSize : Int
  overrun : Bool

/-- The delimiters of a header name. -/
def keyDelim (c : Char) : Bool := c = '\r' || c = '\n' || c = ':' || c = ' ' || c = '\t'

/-- The delimiters of a line. -/
def lineDelim (c : Char) : Bool := c = '\r' || c = '\n'

/-- The look behind the terminator of a value: an empty line comes next. -/
def emptyLineNext : CStr → Bool
  | _ :: '\r' :: '\n' :: _ => true
  | _ => false

/-- The loop over the headers; no result where it reads through NULL. Each turn takes a name and a value from the text. -/
def readHeaders : Nat → CStr → Option HeaderRead
  | 0, _ => none
  | turns + 1, s =>
    match Tokens.next keyDelim s with
    | none => some ⟨[], true, [], false⟩
    | some key =>
      match Tokens.next lineDelim key.after with
      | none => none
      | some val =>
        let header : Header := ⟨key.text.map Char.toLower, val.text.dropWhile (· = ' ')⟩
        let behind := val.rest.isNone || val.after.isEmpty
        if emptyLineNext val.after then some ⟨[header], false, val.after, behind⟩
        else (readHeaders turns val.after).map fun r =>
          { r with headers := header :: r.headers, overrun := behind || r.overrun }

/-- The payload: the token up to the next line break, or what comes two characters later where it begins with a carriage
return; and whether that is behind the end of the message. -/
def readPayload (s : CStr) : Option CStr × Bool :=
  match Tokens.next (· = '\n') s with
  | none => (none, false)
  | some t =>
    match t.text with
    | ['\r'] => (some t.after, t.rest.isNone)
    | '\r' :: _ :: payload => (some payload, false)
    | payload => (some payload, false)

/-- `search_header`; no result where it compares the name of an empty node. -/
def searchHeader (headers : List Header) (dangling : Bool) (name : CStr) : Option (Option CStr) :=
  match headers.find? fun h => h.name.map Char.toLower = name.map Char.toLower with
  | some h => some (some h.value)
  | none => if dangling then none else some none

/-- Both parsers behind the start line. -/
def readMessage (s : CStr) : Option HttpMessage := do
  let r ← readHeaders (s.length + 1) s
  let payload := readPayload r.after
  let size ← searchHeader r.headers r.dangling "content-length".toList
  return ⟨r.headers, r.dangling, payload.1, (size.map atoi).getD 0, r.overrun || payload.2⟩

/-- `http_parse_operation`; for another method the variable keeps what it had. -/
def httpParseOperation (method : CStr) : Option CStr :=
  if ["POST", "GET", "PUT", "DELETE", "OPTIONS"].any fun m => m.toList = method then some method else none

/-! ## `uri_unescape` -/

/-- `isspace`. -/
def isSpace (c : Char) : Bool := c = ' ' || ('\t' ≤ c && c ≤ '\r')

/-- The value `uri_unescape` gives a hexadecimal digit. A `char` is signed, so a byte above 127 is less than '9'. -/
def hexValue (c : Char) : Nat := c.toNat % 16 + (if '9' < c ∧ c.toNat < 128 then 9 else 0)

/-- The loop from the first '%' on. A byte of two digits stands for the character with its number. -/
def unescapeRest : CStr → CStr
  | [] => []
  | '+' :: s => ' ' :: unescapeRest s
  | '%' :: a :: b :: s => Char.ofNat ((hexValue a * 16 + hexValue b) % 256) :: unescapeRest s
  | c :: s => if isSpace c then [] else c :: unescapeRest s

/-- The string ends with its first NUL. -/
def cutNul (s : CStr) : CStr := s.takeWhile (· ≠ Char.ofNat 0)

/-- `uri_unescape`: what comes before the first '%' is passed over as it is. -/
def uriUnescape (uri : CStr) : CStr :=
  cutNul (uri.takeWhile (fun c => !isSpace c && c ≠ '%') ++ unescapeRest (uri.dropWhile fun c => !isSpace c && c ≠ '%'))

/-! ## The parsers -/

/-- `HTTPRequest`. -/
structure HttpRequest where
  method : Option CStr
  uri : CStr
  qs : Option CStr
  prot : CStr
  message : HttpMessage

/-- `HTTPResponse`. -/
structure HttpResponse where
  protocol : CStr
  statusCode : Int
  message : HttpMessage

/-- `parse_http_request`. -/
def parseHttpRequest (packet : CStr) : Option HttpRequest := do
  let method ← Tokens.next (fun c => c = ' ' || c = '\t' || c = '\r' || c = '\n') packet
  let uri ← Tokens.next (fun c => c = ' ' || c = '\t') method.after
  let prot ← Tokens.next (fun c => c = ' ' || c = '\t' || c = '\r' || c = '\n') uri.after
  let text := uriUnescape uri.text
  let message ← readMessage prot.after
  return ⟨httpParseOperation method.text, text.takeWhile (· ≠ '?'), (text.dropWhile (· ≠ '?')).tail?, prot.text, message⟩

/-- `parse_http_response`. -/
def parseHttpResponse (packet : CStr) : Option HttpResponse := do
  let protocol ← Tokens.next (fun c => c = ' ') packet
  let status ← Tokens.next lineDelim protocol.after
  let message ← readMessage status.after
  return ⟨protocol.text, atoi status.text, message⟩

end TinyIoT
