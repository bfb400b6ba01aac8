/-
FlexContainers and their instances (`fcnt.c`, and the functions of `util.c` they use): creation and update of a
flexContainer, the instance that is added for a new state of it, the eviction of the oldest instances and the
clean-up that keeps the newest one. The custom attributes of a flexContainer are kept in its object in memory
and in one column of its row; the column `custom_attrs` is the attribute of that name of the row here. What a
name of cJSON may differ in by case only is left out: the definitions have no such names.
-/
import TinyIoT.Resource.Sdt
import TinyIoT.Server.Dispatch
import TinyIoT.Database.Columns

namespace TinyIoT

/-- What the handlers of a flexContainer find outside the server. -/
structure FcntEnv extends Env where
  sdt : Sdt
  backend : Backend
  /-- `cJSON_PrintUnformatted`. -/
  print : Json → CStr
  /-- `get_local_time` of a number of seconds from now. -/
  later : Int → CStr
  /-- The list `handle_annc_update` leaves of `at`. -/
  kept : Json → List Json

/-! ## Custom attributes -/

/-- The names of `is_standard_fcnt_attribute`. -/
def standardFcntNames : List String :=
  ["rn", "ri", "pi", "ct", "lt", "ty", "acpi", "lbl", "loc", "at", "aa", "cr", "et",
   "cnd", "or", "oref", "nl", "st", "cs", "_sn", "fcied", "mni", "mbs", "mia", "cni", "cbs", "daci", "ast",
   "custom_attrs", "org"]

/-- `is_standard_fcnt_attribute`. -/
def isStandardFcntAttribute (k : Attr) : Bool := standardFcntNames.any fun name => name.toList = k.name

/-- The object `extract_custom_attributes` makes; it returns NULL instead of an empty one. -/
def customAttributes (o : Obj) : Obj := Assoc.filterKeys (fun k => !isStandardFcntAttribute k) o

/-- `calculate_content_size`. -/
def contentSize (print : Json → CStr) (custom : Obj) : Int :=
  if custom.isEmpty then 0 else (print (.obj custom)).length

/-- The loop over the custom attributes of an update: each is taken out of the object and added at its end. -/
def applyCustom (o custom : Obj) : Obj := custom.foldl (fun o e => (o.del e.1).add e.1 e.2) o

/-- The column of the custom attributes. -/
def customColumn : Attr := .other "custom_attrs".toList

/-- The last member of every name, as `jsonb` keeps them. -/
def lastOfEach : Obj → Obj
  | [] => []
  | e :: l => if l.any fun d => d.1 = e.1 then lastOfEach l else e :: lastOfEach l

mutual

/-- The `jsonb` value of a value: of members of one object with the same name, at any depth, the last one is kept. The
order it keeps them in says nothing. -/
def Json.jsonb : Json → Json
  | .arr l => .arr (jsonbItems l)
  | .obj m => .obj (lastOfEach (jsonbMembers m))
  | j => j
termination_by structural j => j

def jsonbItems : List Json → List Json
  | [] => []
  | j :: l => j.jsonb :: jsonbItems l
termination_by structural l => l

def jsonbMembers : List (Attr × Json) → List (Attr × Json)
  | [] => []
  | (k, j) :: m => (k, j.jsonb) :: jsonbMembers m
termination_by structural m => m

end

/-- What the column holds of an object: its text, or the `jsonb` value of the text. -/
def Backend.document : Backend → Obj → Obj
  | .sqlite, custom => custom
  | .postgresql, custom => lastOfEach (jsonbMembers custom)

/-- `db_store_fcnt_custom_attributes`, and `db_update_fcnt_custom_attributes`, which calls it: the column is
overwritten. -/
def Db.dbStoreFcntCustomAttributes (b : Backend) (db : Db) (ri : CStr) (custom : Obj) : Db :=
  db.map fun r =>
    if r.ri = some ri ∧ (r.ty = .fcnt ∨ r.ty = .fcin) then
      { r with obj := Assoc.add (Assoc.drop r.obj customColumn) customColumn (.obj (b.document custom)) }
    else r

/-- `db_get_fcnt_custom_attributes`; NULL is the empty object. -/
def Db.dbGetFcntCustomAttributes (db : Db) (ri : CStr) : Obj :=
  match (db.find? fun r => r.ri = some ri).bind fun r => r.obj.get customColumn with
  | some (.obj custom) => custom
  | _ => []

/-- The members of an object that have a column. -/
def inColumns (ty : ResourceType) (o : Obj) : Obj := Assoc.filterKeys (fun k => (columns ty).any fun c => c = k) o

/-! ## Instances -/

/-- An attribute is copied where the object has it. -/
def copyAttr (src dst : Obj) (k : Attr) : Obj := ((src.get k).map (dst.add k)).getD dst

def locAttr : Attr := .other "loc".toList

/-- The object of an instance before the general attributes. -/
def buildFcin (fr : CStr) (fcnt : RTNode) (st : Int) (isCreate : Bool) : Obj :=
  let o : Obj := [(.rn, .str (fcnt.rn ++ '_' :: Decimal.ofInt st))]
  let o := copyAttr fcnt.obj (copyAttr fcnt.obj (copyAttr fcnt.obj o .lbl) .fcied) locAttr
  let o := o ++ customAttributes fcnt.obj
  let o := o.add .st (.int (if isCreate then 0 else st))
  let o := o.add .cs (.int ((fcnt.obj.num .cs).getD 0))
  o.add (.other "org".toList) (.str fr)

/-- The expiration time of an instance: by `mia`, or that of the flexContainer. -/
def fcinExpiry (later : Int → CStr) (fcnt o : Obj) : Obj :=
  match fcnt.get .mia with
  | some (.num v) =>
    if 0 < (Json.num v).valueint then (o.del .et).add .et (.str (later (Json.num v).valueint))
    else fromFcnt
  | _ => fromFcnt
where fromFcnt := match fcnt.get .et with
  | some (.str et) => (o.del .et).add .et (.str et)
  | _ => o

namespace Server

/-- `add_flexcontainer_instance`, with whether it returned 0. -/
def addFlexcontainerInstance (e : FcntEnv) (req : Req) (s : Server) (fcnt : RTNode) (isCreate : Bool) :
    Option (Server × Bool) :=
  if fcnt.ty ≠ .fcnt ∨ req.rvi < 4 then some (s, false)
  else match fcnt.obj.get .st with
    | none => some (s, false)
    | some st => do
      let (o, n) ← addGeneralAttribute e.toEnv (buildFcin req.fr fcnt st.valueint isCreate) fcnt.obj .fcin s.riCount
      let s := { s with riCount := n }
      let o := fcinExpiry e.later fcnt.obj (o.del .lt)
      let rn ← o.str .rn
      match s.db.dbStoreResource (inColumns .fcin o) (fcnt.uri ++ '/' :: rn) with
      | none => return (s, false)
      | some db =>
        let node ← createRtnode s.nextId o .fcin
        let s := { s with db := db, nextId := s.nextId + 1 }.addChildResourceTree fcnt node
        let custom := customAttributes node.obj
        let ri ← node.ri
        let db := if custom.isEmpty then s.db else s.db.dbStoreFcntCustomAttributes e.backend ri custom
        return ({ s with db := db }, true)

/-- The instances below a flexContainer in memory. -/
def fcins (s : Server) (i : Nat) : List RTNode := (s.children i).roots.filter fun c => c.ty = .fcin

end Server

/-- The walk of `delete_oldest_fcin_rtnode`: the child with the lowest `st`; one without `st` counts while there
is none. -/
def oldestFcin : (min : Int) → (oldest : Option RTNode) → List RTNode → Option RTNode
  | _, oldest, [] => oldest
  | min, oldest, c :: l =>
    match c.obj.num .st with
    | some st => if st < min then oldestFcin st (some c) l else oldestFcin min oldest l
    | none => oldestFcin min (oldest.or (some c)) l

/-- The walk of `cleanup_fcnt_instances`: the child with the highest `st`. -/
def latestFcin : (max : Int) → (latest : Option RTNode) → List RTNode → Option RTNode
  | _, latest, [] => latest
  | max, latest, c :: l =>
    match c.obj.num .st with
    | some st => if max < st then latestFcin st (some c) l else latestFcin max latest l
    | none => latestFcin max latest l

namespace Server

/-- `db_delete_onem2m_resource` and `free_rtnode` of an instance. -/
def removeFcin (s : Server) (c : RTNode) : Server := { s with db := s.db.dbDeleteOnem2mResource c }.freeRtnode c.id

/-- `delete_oldest_fcin_rtnode`, with the content size it returns; -1 where there is no instance. -/
def deleteOldestFcinRtnode (s : Server) (i : Nat) : Server × Int :=
  match oldestFcin intMax none (s.fcins i) with
  | none => (s, -1)
  | some c => (s.removeFcin c, (c.obj.num .cs).getD 0)

/-- `cleanup_fcnt_instances`. -/
def cleanupFcntInstances (s : Server) (i : Nat) (keepLatest : Bool) : Server :=
  let latest := if keepLatest then latestFcin (-1) none (s.fcins i) else none
  ((s.fcins i).filter fun c => !latest.any fun l => l.id = c.id).foldl removeFcin s

/-- An eviction loop of `update_fcnt`, with the items of `cbs` and `cni` and the number of deletions: it goes on
while `above` and while there is an instance, so as many rounds as there are instances are enough. -/
def evictFcins (above : Option Json → Option Json → Bool) (i : Nat) :
    Nat → Server → Option Json → Option Json → Nat → Server × Option Json × Option Json × Nat
  | 0, s, cbs, cni, deleted => (s, cbs, cni, deleted)
  | fuel + 1, s, cbs, cni, deleted =>
    if above cbs cni then
      let (s', cs) := s.deleteOldestFcinRtnode i
      if cs < 0 then (s', cbs, cni, deleted)
      else
        evictFcins above i fuel s' (cbs.map fun j => j.setIntValue (cInt (j.valueint - cs)))
          (cni.map fun j => j.setIntValue (cInt (j.valueint - 1))) (deleted + 1)
    else (s, cbs, cni, deleted)

end Server

/-- A counter is above its limit. -/
def overLimit (limit : Int) (j : Option Json) : Bool :=
  j.any fun j => j.isNumber && limit < j.valueint && 0 < j.valueint

/-! ## Checks -/

/-- The attributes a CREATE of a flexContainer may not carry. -/
def fcntNotPermitted : List Attr := [.ty, .ri, .pi, .ct, .lt, .st, .cs, .cni, .cbs]

/-- The attributes that came with release 4. -/
def fcntRelease4 : List Attr := [.fcied, .mni, .mbs, .mia]

/-- A limit of the instances: not negative, and not 0 with `fcied`. -/
def checkFcntLimit (fcnt : Obj) (withFcied : Bool) (k : Attr) (invalid zero : String) : Except Resp Unit :=
  match fcnt.get k with
  | none => .ok ()
  | some j =>
    if j.valueint < 0 then .error (handleError .badRequest invalid)
    else if withFcied ∧ j.valueint = 0 then .error (handleError .badRequest zero)
    else .ok ()

/-- The checks of `validate_fcnt` before `acpi` is looked up. -/
def checkFcntNames (fcnt : Obj) (op : Operation) : Except Resp Unit := do
  require (!(fcnt.str .rn).any isReservedName) "attribute `rn` is invalid"
  require (!(fcnt.has .acpi && op = .update && decide (1 < fcnt.length)))
    "attribute `acpi` shall be the only attribute in an UPDATE request"

/-- The `acpi` of a body. -/
def checkFcntAcpi (now : CStr) (s : Server) (fcnt : Obj) (op : Operation) : Except Resp Unit :=
  match fcnt.get .acpi with
  | none => .ok ()
  | some acpi => validateAcpi now s acpi op

/-- `validate_fcnt`, up to `validate_aa`. -/
def validateFcnt (now : CStr) (s : Server) (rvi : Int) (fcnt : Obj) (op : Operation) : Except Resp Unit := do
  checkFcntNames fcnt op
  checkFcntAcpi now s fcnt op
  require (fcnt.str .cnd ≠ some []) "attribute `cnd` cannot be empty"
  if rvi < 4 then
    require (!(fcntRelease4 ++ [Attr.cni, Attr.cbs]).any fcnt.has)
      "fcied, mni, mbs, mia, cni, cbs are only supported in RVI 4 or higher"
  else
    let withFcied := (fcnt.get .fcied).any fun j => !j.isNull
    require (!(op = .create && !withFcied && [Attr.mni, .mbs, .mia].any fcnt.has))
      "mni, mbs, or mia requires fcied attribute"
    checkFcntLimit fcnt withFcied .mni "attribute `mni` is invalid" "mni cannot be 0 when fcied is present"
    checkFcntLimit fcnt withFcied .mbs "attribute `mbs` is invalid" "mbs cannot be 0 when fcied is present"
    checkFcntLimit fcnt withFcied .mia "attribute `mia` is invalid" "mia cannot be 0 when fcied is present"

/-- `or` becomes `oref`, the name of its column. -/
def renameOr (fcnt : Obj) : Obj :=
  match fcnt.get (.other "or".toList) with
  | none => fcnt
  | some v => (fcnt.del (.other "or".toList)).add (.other "oref".toList) v

/-! ## Create -/

/-- `DEFAULT_MAX_INSTANCE_AGE`. -/
def defaultMaxInstanceAge : Int := 157680000

/-- An attribute gets a default when it is missing. -/
def addDefault (o : Obj) (k : Attr) (v : Int) : Obj := if o.has k then o else o.add k (.int v)

/-- The limits a new flexContainer with `fcied` gets. -/
def addFcntLimits (fcnt : Obj) : Obj :=
  addDefault (addDefault (addDefault fcnt .mni defaultMaxNrInstances) .mbs defaultMaxByteSize) .mia
    defaultMaxInstanceAge

/-- The text of the refusal of `cr` in `create_fcnt`. -/
def assignFcntCreator (req : Req) (fcnt : Obj) : Except Resp Obj :=
  (assignCreator req fcnt).mapError fun _ =>
    handleError .badRequest "creator attribute with arbitrary value is not allowed"

/-- The body with the name it is wrapped in. -/
def fcntBody (shortname : Option CStr) (pc : Obj) : Obj :=
  renameOr ((shortname.map fun sn => pc.add (.other "_sn".toList) (.str sn)).getD pc)

/-- The checks of `create_fcnt` before the general attributes. -/
def checkFcntBody (sdt : Sdt) (shortname : Option CStr) (rvi : Int) (fcnt : Obj) : Except Resp Unit := do
  let cnd := (fcnt.str .cnd).getD []
  require (cnd ≠ []) "containerDefinition (cnd) is mandatory"
  validateShortnameCnd sdt shortname cnd
  validateCustomAttributes (customAttributes fcnt) (some cnd)
  sdtValidateFcnt sdt shortname (some cnd) (customAttributes fcnt) .create
  require (!fcntNotPermitted.any fcnt.has) "not-permitted attribute on create"
  require (!(rvi < 4 && fcntRelease4.any fcnt.has)) "not supported attribute for this release version"

/-- `fcied` is there and not null. -/
def fciedPresent (fcnt : Obj) : Bool := (fcnt.get .fcied).any fun j => !j.isNull

/-- The object `create_fcnt` stores, from the one with the general attributes. -/
def buildFcnt (e : FcntEnv) (req : Req) (s : Server) (size : Int) (fcnt : Obj) : Except Resp Obj := do
  validateFcnt e.now s req.rvi fcnt .create
  let fcnt := validateAa .create fcnt .fcnt
  let fcnt ← assignFcntCreator req fcnt
  let fcnt := announceAt e.toEnv fcnt
  let fcnt := (fcnt.add .st (.int 0)).add .cs (.int size)
  let fcnt := if 4 ≤ req.rvi ∧ fciedPresent fcnt then addFcntLimits fcnt else fcnt
  require (!(4 ≤ req.rvi && fciedPresent fcnt && (fcnt.num .mbs).any (· < size))) "mbs cannot be smaller than cs"
  return fcnt

namespace Server

/-- The end of `create_fcnt`: the row with its custom attributes, the node, and with `fcied` the first instance. -/
def storeFcnt (e : FcntEnv) (req : Req) (s : Server) (parent : RTNode) (custom : Obj) (size : Int) (o : Obj) :
    Option (Server × Resp) := do
  let rn ← o.str .rn
  match s.db.dbStoreResource (inColumns .fcnt o) (parent.uri ++ '/' :: rn) with
  | none => return (s, handleError .internalServerError "DB store fail")
  | some db =>
    let ri ← o.str .ri
    let db := if custom.isEmpty then db else db.dbStoreFcntCustomAttributes e.backend ri custom
    let node ← createRtnode s.nextId o .fcnt
    let s := { s with db := db, nextId := s.nextId + 1 }.addChildResourceTree parent node
    let node := { node with uri := parent.uri ++ '/' :: node.rn }
    if 4 ≤ req.rvi ∧ fciedPresent node.obj then
      let (s, added) ← s.addFlexcontainerInstance e req node true
      if added then
        let obj := (node.obj.add .cni (.int 1)).add .cbs (.int size)
        let s := s.setObj node.id obj
        return ({ s with db := s.db.dbUpdateResource (inColumns .fcnt obj) ri }, done .created)
      return (s, done .created)
    return (s, done .created)

/-- `create_fcnt`; `shortname` is the name the body is wrapped in, where it is not `m2m:fcnt`. -/
def createFcnt (e : FcntEnv) (shortname : Option CStr) (req : Req) (s : Server) (parent : RTNode) :
    Option (Server × Resp) :=
  let fcnt := fcntBody shortname req.pc
  let custom := customAttributes fcnt
  let size := contentSize e.print custom
  match checkFcntBody e.sdt shortname req.rvi fcnt with
  | .error r => some (s, r)
  | .ok () => do
    let (fcnt, n) ← addGeneralAttribute e.toEnv fcnt parent.obj .fcnt s.riCount
    let s := { s with riCount := n }
    match buildFcnt e req s size fcnt with
    | .error r => return (s.afterChecks e.now (checkFcntNames fcnt .create) (fcnt.get .acpi), r)
    | .ok o => s.storeFcnt e req parent custom size o

end Server

/-! ## Update -/

/-- The attributes `update_fcnt` refuses. -/
def fcntInvalidKeys : List Attr := [.ty, .pi, .ri, .rn, .ct, .lt, .cr, .cnd, .cs, .st, .cni, .cbs]

/-- Two values are of one kind; true and false are one kind. -/
def sameKind : Json → Json → Bool
  | .null, .null => true
  | .bool _, .bool _ => true
  | .num _, .num _ => true
  | .str _, .str _ => true
  | .arr _, .arr _ => true
  | .obj _, .obj _ => true
  | _, _ => false

/-- The checks of `update_fcnt` on the custom attributes of a body that has some. -/
def checkFcntCustom (sdt : Sdt) (shortname : Option CStr) (target custom : Obj) : Except Resp Unit := do
  validateCustomAttributes custom (target.str .cnd)
  sdtValidateFcnt sdt shortname (target.str .cnd) custom .update
  require (custom.all fun e => ((customAttributes target).get e.1).all (sameKind e.2)) "custom attribute type mismatch"

/-- The custom attributes of an update, if any. -/
def checkFcntCustoms (e : FcntEnv) (shortname : Option CStr) (target body : Obj) : Except Resp Unit :=
  if (customAttributes body).isEmpty then .ok () else checkFcntCustom e.sdt shortname target (customAttributes body)

/-- The checks of `update_fcnt` up to `validate_fcnt`. -/
def checkFcntUpdate (e : FcntEnv) (shortname : Option CStr) (req : Req) (s : Server) (target body : Obj) :
    Except Resp Unit := do
  checkFcntCustoms e shortname target body
  validateFcnt e.now s req.rvi body .update

/-- `st` and `cs` of an update: with custom attributes the state tag goes up, and the size is that of what the
flexContainer will have. -/
def addFcntState (print : Json → CStr) (target custom body : Obj) : Obj :=
  if custom.isEmpty then body.add .cs (.int (contentSize print (customAttributes target)))
  else
    let body := ((target.num .st).map fun st => body.add .st (.int (cInt (st + 1)))).getD body
    let merged := if (customAttributes target).isEmpty then custom else applyCustom (customAttributes target) custom
    body.add .cs (.int (contentSize print merged))

/-- A limit that is given and not null. -/
def limitGiven (body : Obj) : Bool := [Attr.mni, .mbs, .mia].any fun k => (body.get k).any fun j => !j.isNull

/-- A limit that is given as 0. -/
def limitZero (body : Obj) : Bool :=
  [Attr.mni, .mbs, .mia].any fun k => (body.get k).any fun j => j.isNumber && j.valueint = 0

/-- `fcied` after the update. -/
def fciedFinal (target body : Obj) : Option Json := (body.get .fcied).or (target.get .fcied)

/-- The refusals of the part of `update_fcnt` about `fcied` that come before anything is changed. -/
def checkFcied (target body : Obj) : Except Resp Unit :=
  if (body.get .fcied).any Json.isNull then
    require (!limitGiven body) "mni, mbs, or mia must not be present when fcied is removed"
  else if (fciedFinal target body).all Json.isNull then
    require (!limitGiven body) "mni, mbs, or mia must not be present when fcied is not present"
  else require (!limitZero body) "mni, mbs, or mia cannot be 0"

/-- `cs` after the update. -/
def csFinal (target body : Obj) : Int := (((body.get .cs).or (target.get .cs)).map Json.valueint).getD 0

/-- `fcied` is set to true where it was false or not there. -/
def switchedOn (target body : Obj) : Bool :=
  ((target.get .fcied).all fun j => j.isFalse || j.isNull) && (body.get .fcied).any Json.isTrue

/-- `fcied` is set to false where it was true or not there. -/
def switchedOff (target body : Obj) : Bool :=
  ((target.get .fcied).all fun j => j.isTrue || j.isNull) && (body.get .fcied).any Json.isFalse

/-- The limits an update of a flexContainer that has none brings. -/
def addMissingLimits (target body : Obj) : Obj :=
  if [Attr.mni, .mbs, .mia].any fun k => target.has k || body.has k then body
  else ((body.add .mni (.int defaultMaxNrInstances)).add .mbs (.int defaultMaxByteSize)).add .mia
    (.int defaultMaxInstanceAge)

/-- The counters of an update with `fcied` true, and whether an instance is to be added. -/
def countInstance (target body : Obj) (content : Bool) : Obj × Bool :=
  let cs := csFinal target body
  let number (k : Attr) : Int := ((target.get k).map Json.valueint).getD 0
  let on := switchedOn target body
  let body := if on then (body.add .cni (.int 0)).add .cbs (.int 0) else body
  let body := addMissingLimits target body
  if content then
    ((((body.del .cbs).del .cni).add .cbs (.int (cInt (number .cbs + cs)))).add .cni (.int (cInt (number .cni + 1))), true)
  else if on then ((((body.del .cni).del .cbs).add .cni (.int 1)).add .cbs (.int cs), true)
  else (body, false)

/-- An attribute of the body, or else of the flexContainer. -/
def finalItem (target body : Obj) (k : Attr) : Option Json := (body.get k).or (target.get k)

/-- `mbs` is below the size of the content. -/
def mbsTooSmall (target body : Obj) : Bool :=
  (finalItem target body .mbs).any fun mbs => mbs.isNumber &&
    (finalItem target body .cs).any fun cs => cs.isNumber && mbs.valueint < cs.valueint

/-- The counters after an eviction replace those of the body. -/
def putCounters (body : Obj) (cbs cni : Option Json) : Obj :=
  (((body.del .cbs).add .cbs (.int ((cbs.map Json.valueint).getD 0))).del .cni).add .cni
    (.int ((cni.map Json.valueint).getD 0))

namespace Server

/-- The two eviction loops of `update_fcnt`. After a deletion the items of the counters are freed and new ones
with their values added; what the second loop reads of the old ones is taken to be their value. -/
def evictToLimits (i : Nat) (s : Server) (target body : Obj) : Server × Obj :=
  let cbs := finalItem target body .cbs
  let cni := finalItem target body .cni
  let byMbs := match finalItem target body .mbs with
    | some (.num v) => evictFcins (fun cbs _ => overLimit (Json.num v).valueint cbs) i (s.fcins i).length s cbs cni 0
    | _ => (s, cbs, cni, 0)
  let body := if 0 < byMbs.2.2.2 then putCounters body byMbs.2.1 byMbs.2.2.1 else body
  let s := byMbs.1
  let byMni := match finalItem target body .mni with
    | some (.num v) =>
      evictFcins (fun _ cni => overLimit (Json.num v).valueint cni) i (s.fcins i).length s byMbs.2.1 byMbs.2.2.1 0
    | _ => (s, byMbs.2.1, byMbs.2.2.1, 0)
  (byMni.1, if 0 < byMni.2.2.2 then putCounters body byMni.2.1 byMni.2.2.1 else body)

end Server

/-- The attributes that go with `fcied`. -/
def fciedAttrs : List Attr := [.fcied, .cni, .cbs, .mbs, .mni, .mia]

/-- An attribute that is missing is added as null. -/
def addNull (o : Obj) (k : Attr) : Obj := if o.has k then o else o.add k .null

namespace Server

/-- The part of `update_fcnt` about `fcied`, once nothing is refused any more: the server, the object of the
flexContainer, the body, and whether an instance is to be added. -/
def applyFcied (e : FcntEnv) (req : Req) (s : Server) (target : RTNode) (body : Obj) (content : Bool) :
    Option (Except Resp (Server × Obj × Obj × Bool)) :=
  if (body.get .fcied).any Json.isNull then
    let obj := fciedAttrs.foldl Assoc.del target.obj
    let body := [Attr.cni, .cbs, .mni, .mbs, .mia].foldl addNull body
    some (.ok ((s.setObj target.id obj).cleanupFcntInstances target.id false, obj, body, false))
  else if (fciedFinal target.obj body).any Json.isFalse then
    if switchedOff target.obj body then do
      let (s, _) ← if (target.obj.get .fcied).all Json.isNull then s.addFlexcontainerInstance e req target false
        else some (s, true)
      let s := s.cleanupFcntInstances target.id true
      return .ok (s, target.obj, (body.add .cni (.int 1)).add .cbs (.int (csFinal target.obj body)), false)
    else some (.ok (s, target.obj, body, false))
  else if (fciedFinal target.obj body).any Json.isTrue then
    let (body, needsFci) := countInstance target.obj body content
    if mbsTooSmall target.obj body then
      some (.error (handleError .badRequest "mbs must be greater or equal to contentSize"))
    else
      let (s, body) := s.evictToLimits target.id target.obj body
      some (.ok (s, target.obj, body, needsFci))
  else some (.ok (s, target.obj, body, false))

/-- The counters after an instance could not be added. -/
def rollbackFcnt (s : Server) (i : Nat) (ri : CStr) (obj : Obj) : Server :=
  let cni := (obj.num .cni).map fun n => cInt (n - 1)
  let cbs := (obj.num .cbs).bind fun n => (obj.num .cs).map fun cs => cInt (n - cs)
  let obj := (cni.map fun n => obj.set .cni (.int n)).getD obj
  let obj := (cbs.map fun n => obj.set .cbs (.int n)).getD obj
  let rb : Obj := [(.cni, .int (((obj.get .cni).map Json.valueint).getD 0)),
    (.cbs, .int (((obj.get .cbs).map Json.valueint).getD 0))]
  { s.setObj i obj with db := s.db.dbUpdateResource rb ri }

/-- The end of `update_fcnt`: the body is merged and written, the custom attributes are written and merged once
more, and the instance is added. -/
def writeFcnt (e : FcntEnv) (req : Req) (s : Server) (target : RTNode) (obj body custom : Obj) (needsFci : Bool) :
    Option (Server × Resp) := do
  let obj := obj.updateResource body
  let ri ← obj.str .ri
  let s := { s with db := s.db.dbUpdateResource (inColumns .fcnt body) ri }
  let s := if custom.isEmpty then s
    else { s with db := s.db.dbStoreFcntCustomAttributes e.backend ri custom }
  let obj := applyCustom obj custom
  let s := s.setObj target.id obj
  if 4 ≤ req.rvi ∧ needsFci then
    let (s, added) ← s.addFlexcontainerInstance e req { target with obj := obj } false
    if added then return (s, done .updated)
    return (s.rollbackFcnt target.id ri obj, done .updated)
  return (s, done .updated)

/-- `update_fcnt`; `shortname` is the name of the object of the flexContainer, where it is not `m2m:fcnt`. -/
def updateFcnt (e : FcntEnv) (shortname : Option CStr) (req : Req) (s : Server) (target : RTNode) :
    Option (Server × Resp) :=
  if fcntInvalidKeys.any req.pc.has then some (s, handleError .badRequest "unsupported attribute on update")
  else if req.rvi < 4 ∧ fcntRelease4.any req.pc.has then
    some (s, handleError .badRequest "not supported attribute for this release version")
  else
    let body := renameOr req.pc
    let custom := customAttributes body
    match checkFcntUpdate e shortname req s target.obj body with
    | .error r =>
      let before := do checkFcntCustoms e shortname target.obj body; checkFcntNames body .update
      some (s.afterChecks e.now before (body.get .acpi), r)
    | .ok () => do
      let ri ← target.ri
      let (body, cleared) := processAnncAtUpdate e.kept target.obj (validateAa .update body .fcnt)
      let s := if cleared then { s with db := s.db.dbUpdateResource [(.at, .null)] ri } else s
      let body := addFcntState e.print target.obj custom (body.add .lt (.str e.now))
      if req.rvi < 4 then s.writeFcnt e req target target.obj body custom false
      else match checkFcied target.obj body with
        | .error r => return (s, r)
        | .ok () =>
          let content := !custom.isEmpty || body.has .lbl || body.has locAttr
          let applied ← s.applyFcied e req target body content
          match applied with
          | .error r => return (s, r)
          | .ok (s, obj, body, needsFci) => s.writeFcnt e req target obj body custom needsFci

/-! ## Requests -/

/-- A CREATE request for a flexContainer. -/
def requestCreateFcnt (e : FcntEnv) (shortname : Option CStr) (req : Req) (s : Server) : Option (Server × Resp) :=
  s.onTarget e.now req.target (handleError .invalidChildResourcetype "child type error")
    (createOnem2mResource e.toEnv req .fcnt (createFcnt e shortname req))

/-- An UPDATE request with the body of a flexContainer. -/
def requestUpdateFcnt (e : FcntEnv) (shortname : Option CStr) (req : Req) (s : Server) : Option (Server × Resp) :=
  s.onTarget e.now req.target (handleError .operationNotAllowed "updating FCIN is forbidden") fun s n =>
    if n.ty = .fcin then some (s, handleError .operationNotAllowed "updating FCIN is forbidden")
    else if n.ty ≠ .fcnt then some (s, handleError .badRequest "resource type is invalid")
    else if req.pc.has .acpi && req.pc.length ≠ 1 then
      some (s, handleError .badRequest "attribute `acpi` shall be the only attribute in an UPDATE request")
    else if !etValid e.now req.pc then some (s, handleError .badRequest "attribute `et` is invalid")
    else updateFcnt e shortname req s n

end Server

end TinyIoT
