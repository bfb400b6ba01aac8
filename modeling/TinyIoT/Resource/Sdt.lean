/-
The definitions of flexContainer specializations (`sdt.c`): the registry the server fills from its `.fcp` files
when it starts, and the check of custom attributes against it. The files are data here; what is no string in
one is absent.
-/
import TinyIoT.Base.Types

namespace TinyIoT

/-- An entry of `attributes`. -/
structure SdtAttr where
  sname : Option CStr
  type : Option CStr
  ou : Option CStr := none
  car : Option CStr := none
  oc : Option CStr := none

/-- `SDTDef`; the registry keeps no definition without a type. -/
structure SdtDef where
  type : CStr
  cnd : Option CStr
  attributes : Option (List SdtAttr)

/-- `g_sdt->defs`. -/
abbrev Sdt := List SdtDef

namespace Sdt

/-- `sdt_find_by_type`. -/
def findByType (sdt : Sdt) (type : CStr) : Option SdtDef := sdt.find? fun d => d.type = type

/-- `sdt_find_by_cnd`. -/
def findByCnd (sdt : Sdt) (cnd : CStr) : Option SdtDef := sdt.find? fun d => d.cnd = some cnd

/-- `sdt_find_by_type_and_cnd`. -/
def findByTypeAndCnd (sdt : Sdt) (type cnd : CStr) : Option SdtDef :=
  sdt.find? fun d => d.type = type && d.cnd = some cnd

end Sdt

/-! ## The format of a value -/

def isDigit (c : Char) : Bool := '0' ≤ c && c ≤ '9'

/-- A run of digits and separators, at least `n` characters in all. -/
def isDigits (n m : Nat) (sep : Char) (s : CStr) : Bool :=
  n ≤ s.length && (s.take m).all fun c => c = sep || isDigit c

/-- `is_valid_timestamp`. -/
def isValidTimestamp (s : CStr) : Bool := isDigits 15 8 '-' s

/-- `is_valid_date`. -/
def isValidDate (s : CStr) : Bool := isDigits 8 8 '-' s

/-- `is_valid_time`. -/
def isValidTime (s : CStr) : Bool := isDigits 6 6 ':' s

/-- `is_valid_base64`. -/
def isValidBase64 (s : CStr) : Bool :=
  s.all fun c => ('A' ≤ c && c ≤ 'Z') || ('a' ≤ c && c ≤ 'z') || isDigit c || c = '+' || c = '/' || c = '=' ||
    c = '\n' || c = '\r' || c = ' ' || c = '\t'

/-- No tab, no line break and no two blanks in a row. -/
def isTokenText : CStr → Bool
  | [] => true
  | c :: s => c ≠ '\t' && c ≠ '\n' && c ≠ '\r' && !(c = ' ' && s.head? = some ' ') && isTokenText s

/-- `is_valid_token`. -/
def isValidToken (s : CStr) : Bool := !s.isEmpty && isTokenText s

/-- `is_valid_ncname`. -/
def isValidNcname (s : CStr) : Bool :=
  (s.head?.any fun c => !isDigit c && c ≠ '-' && c ≠ '.') &&
    s.all fun c => c ≠ ' ' && c ≠ '\t' && c ≠ '\n' && c ≠ '\r'

/-- `is_valid_duration`. -/
def isValidDuration (s : CStr) : Bool := 2 ≤ s.length && s.head?.any fun c => c = 'P' || c = 'p'

/-- A check with the text of its refusal. -/
def require (ok : Bool) (msg : String) : Except Resp Unit :=
  if ok then .ok () else .error (handleError .badRequest msg)

/-- A string in a format. -/
def requireText (valid : CStr → Bool) (kind format : String) (v : Json) : Except Resp Unit := do
  require v.isString kind
  require (v.valuestring.all valid) format

/-- A number in a range. -/
def requireNumber (valid : ℚ → Bool) (kind range : String) (v : Json) : Except Resp Unit := do
  require v.isNumber kind
  require (match v with
    | .num q => valid q
    | _ => true) range

/-- `sdt_validate_attr_type`. -/
def sdtValidateAttrType (sdtType : CStr) (v : Json) : Except Resp Unit :=
  let isOneOf (names : List String) : Bool := names.any fun name => name.toList = sdtType
  if isOneOf ["string", "anyURI", "anyuri", "ID", "imsi", "iccid", "ipv4Address", "ipv6Address"] then
    require v.isString "Expected string value"
  else if isOneOf ["token"] then requireText isValidToken "Expected token string" "Invalid token format" v
  else if isOneOf ["ncname"] then requireText isValidNcname "Expected NCName string" "Invalid NCName format" v
  else if isOneOf ["base64"] then requireText isValidBase64 "Expected base64 string" "Invalid base64 encoding" v
  else if isOneOf ["integer", "enum"] then require v.isNumber "Expected integer value"
  else if isOneOf ["positiveInteger"] then
    requireNumber (0 < ·) "Expected positive integer value" "Value must be positive" v
  else if isOneOf ["nonNegInteger", "unsignedInt", "unsignedLong"] then
    requireNumber (0 ≤ ·) "Expected non-negative integer value" "Value must be non-negative" v
  else if isOneOf ["float"] then require v.isNumber "Expected float value"
  else if isOneOf ["boolean"] then require v.isBool "Expected boolean value"
  else if isOneOf ["timestamp", "dateTime"] then
    requireText isValidTimestamp "Expected timestamp string" "Invalid timestamp format" v
  else if isOneOf ["absRelTimestamp"] then
    require (v.isString || v.isNumber) "Expected timestamp string or integer"
  else if isOneOf ["duration"] then requireText isValidDuration "Expected duration string" "Invalid duration format" v
  else if isOneOf ["date"] then requireText isValidDate "Expected date string" "Invalid date format" v
  else if isOneOf ["time"] then requireText isValidTime "Expected time string" "Invalid time format" v
  else if isOneOf ["list"] then require v.isArray "Expected array value"
  else if isOneOf ["listNE"] then do
    require v.isArray "Expected non-empty array value"
    require (!v.items.isEmpty) "Array must not be empty"
  else if isOneOf ["complex", "dict"] then require v.isObject "Expected object value"
  else if isOneOf ["schedule", "geoJsonCoordinate"] then require v.isString "Expected string value"
  else if isOneOf ["jsonLike", "any", "void"] then .ok ()
  else .error (handleError .badRequest "Unknown attribute type")

/-! ## A flexContainer -/

/-- One custom attribute against the attributes of the definition. -/
def sdtCheckAttr (op : Operation) (attrs : List SdtAttr) (e : Attr × Json) : Except Resp Unit :=
  match attrs.find? fun a => a.sname = some e.1.name with
  | none => .error (handleError .badRequest "Unknown attribute in FlexContainer")
  | some a => do
    a.type.elim (.ok ()) (sdtValidateAttrType · e.2)
    require (!(op = .update && a.ou = some "NP".toList)) "Attribute is not allowed in UPDATE"
    require (!((a.car = some "1".toList || a.car = some "1N".toList) && e.2.isNull))
      "Attribute with cardinality 1 cannot be null"

/-- `case_insensitive_strcmp`, the comparison `cJSON_GetObjectItem` finds a member by. -/
def sameKey (a b : CStr) : Bool := a.map Char.toLower = b.map Char.toLower

/-- A mandatory attribute is given. -/
def sdtCheckMandatory (custom : Obj) (a : SdtAttr) : Except Resp Unit :=
  require (a.oc ≠ some "M".toList || a.sname.all fun name => custom.any fun e => sameKey e.1.name name)
    "Missing mandatory attribute"

/-- The definition a flexContainer is checked against. -/
def sdtChoose (sdt : Sdt) (shortname : Option CStr) (cnd : CStr) : Except Resp SdtDef :=
  match shortname with
  | some type => match (sdt.findByTypeAndCnd type cnd).or (sdt.findByType type) with
    | none => .error (handleError .specializationSchemaNotFound "unknown resource type")
    | some d => .ok d
  | none => match sdt.findByCnd cnd with
    | none => .error (handleError .specializationSchemaNotFound "Schema not found for containerDefinition")
    | some d => .ok d

/-- The definition has this `cnd`, or none. -/
def sdtCheckCnd (sdt : Sdt) (d : SdtDef) (cnd : CStr) : Except Resp Unit :=
  if d.cnd.all fun c => c = [] || c = cnd then .ok ()
  else if (sdt.findByCnd cnd).isNone then
    .error (handleError .specializationSchemaNotFound "Schema not found for containerDefinition")
  else .error (handleError .badRequest "Mismatch between shortname and containerDefinition")

/-- `sdt_validate_fcnt`. -/
def sdtValidateFcnt (sdt : Sdt) (shortname : Option CStr) (cnd : Option CStr) (custom : Obj) (op : Operation) :
    Except Resp Unit :=
  match cnd with
  | none => .error (handleError .badRequest "Missing containerDefinition")
  | some cnd => do
    let d ← sdtChoose sdt shortname cnd
    sdtCheckCnd sdt d cnd
    match d.attributes with
    | none => require custom.isEmpty "Unknown attribute in FlexContainer"
    | some attrs => do
      custom.forM (sdtCheckAttr op attrs)
      if op = .create then attrs.forM (sdtCheckMandatory custom) else .ok ()

/-- `validate_shortname_cnd`. -/
def validateShortnameCnd (sdt : Sdt) (shortname : Option CStr) (cnd : CStr) : Except Resp Unit :=
  match shortname with
  | none => .ok ()
  | some type =>
    if (sdt.findByTypeAndCnd type cnd).isSome then .ok ()
    else match sdt.findByType type with
      | none => .error (handleError .badRequest "Unknown FlexContainer type")
      | some d => sdtCheckCnd sdt d cnd

/-- `validate_custom_attributes`; a value of a request is of one of the types it lists. -/
def validateCustomAttributes (custom : Obj) (cnd : Option CStr) : Except Resp Unit := do
  require (custom.isEmpty || cnd.isSome) "containerDefinition (cnd) is required when custom attributes are present"
  require (custom.all fun e => !"m2m:".toList.isPrefixOf e.1.name) "Custom attributes cannot use 'm2m:' prefix"

end TinyIoT
