/-
Containers and content instances (`cnt.c`, `cin.c`): create and update of a container, creation of an
instance with the in-memory node `la` that caches the latest one.
-/
import TinyIoT.Resource.General

namespace TinyIoT

/-! ## Container -/

/-- A limit of a container or a time series may not be negative. -/
def checkNonNegative (o : Obj) (k : Attr) (msg : String) : Except Resp Unit :=
  match o.get k with
  | none => .ok ()
  | some j => if j.valueint < 0 then .error (handleError .badRequest msg) else .ok ()

/-- The names reserved for the virtual children of a container. -/
def isReservedName (rn : CStr) : Bool := isLatest rn || isOldest rn

/-- The checks of `validate_cnt` before `acpi` is looked up. -/
def checkCntNames (cnt : Obj) (op : Operation) : Except Resp Unit := do
  validateMandatoryAttrs .cnt cnt op
  if (cnt.str .rn).any isReservedName then
    .error (handleError .operationNotAllowed "attribute `rn` is invalid")
  if cnt.has .acpi ∧ op = .update ∧ 1 < cnt.length then
    .error (handleError .badRequest "only attribute `acpi` is allowed when updating `acpi`")

/-- `validate_cnt`, up to `validate_aa`. -/
def validateCnt (now : CStr) (s : Server) (cnt : Obj) (op : Operation) : Except Resp Unit := do
  checkCntNames cnt op
  match cnt.get .acpi with
  | none => .ok ()
  | some acpi => validateAcpi now s acpi op
  checkNonNegative cnt .mia "attribute `mia` is invalid"
  checkNonNegative cnt .mni "attribute `mni` is invalid"
  checkNonNegative cnt .mbs "attribute `mbs` is invalid"

/-- The object `create_cnt` stores: the checks, the counters at zero, `at`, the default of `mni`. -/
def buildCnt (env : Env) (req : Req) (s : Server) (cnt : Obj) : Except Resp Obj := do
  validateCnt env.now s cnt .create
  let cnt := validateAa .create cnt .cnt
  let cnt ← assignCreator req cnt
  let cnt := ((cnt.add .st (.int 0)).add .cni (.int 0)).add .cbs (.int 0)
  let cnt := announceAt env cnt
  return if cnt.has .mni then cnt else cnt.add .mni (.int defaultMaxNrInstances)

namespace Server

/-- `create_cnt`. -/
def createCnt (env : Env) (req : Req) (s : Server) (parent : RTNode) : Option (Server × Resp) := do
  let (cnt, n) ← addGeneralAttribute env req.pc parent.obj .cnt s.riCount
  let s := { s with riCount := n }
  match buildCnt env req s cnt with
  | .error r => return (s.afterChecks env.now (checkCntNames cnt .create) (cnt.get .acpi), r)
  | .ok cnt => s.storeResource parent cnt .cnt

end Server

/-- The attributes `update_cnt` refuses. -/
def cntInvalidKeys : List Attr := [.ty, .pi, .ri, .rn, .ct, .cr]

/-- `process_annc_at_update`, with the list of addresses `handle_annc_update` leaves given by `kept`:
the body that is applied, and whether the `at` column is cleared. -/
def processAnncAtUpdate (kept : Json → List Json) (target body : Obj) : Obj × Bool :=
  match body.get .at with
  | none => (body, false)
  | some .null =>
    if kept .null ≠ [] then ((body.del .at).add .at (.arr (kept .null)), false)
    else if target.has .at then (body, false)
    else (body.del .at, false)
  | some a =>
    if kept a ≠ [] then ((body.del .at).add .at (.arr (kept a)), false)
    else ((body.del .at).add .at .null, true)

namespace Server

/-- `update_cnt`. -/
def updateCnt (env : Env) (kept : Json → List Json) (req : Req) (s : Server) (target : RTNode) :
    Option (Server × Resp) :=
  if cntInvalidKeys.any (fun k => req.pc.has k) then
    some (s, handleError .badRequest "unsupported attribute on update")
  else match validateCnt env.now s req.pc .update with
    | .error r => some (s.afterChecks env.now (checkCntNames req.pc .update) (req.pc.get .acpi), r)
    | .ok () => do
      let body := validateAa .update req.pc .cnt
      let st ← target.obj.get .st
      let body := body.add .st (.int (cInt (st.valueint + 1)))
      let ri ← target.ri
      let (body, cleared) := processAnncAtUpdate kept target.obj body
      let db := if cleared then s.db.dbUpdateResource [(.at, .null)] ri else s.db
      let body := body.add .lt (.str env.now)
      let obj := target.obj.updateResource body
      let (obj, db) ← deleteCinUnderCntMniMbs obj db
      let s := { s with db := db }.setObj target.id obj
      let ri ← obj.str .ri
      return ({ s with db := s.db.dbUpdateResource body ri }, done .updated)

end Server

/-! ## Content instance -/

/-- A character of a media type: anything but the separators. -/
def isMediaChar (c : Char) : Bool := c ≠ ':' && c ≠ '/'

/-- `validate_cnf`: media type, slash, subtype, colon, a digit 0 to 2 and optionally a colon and a
digit 0 to 5. -/
def validateCnf (cnf : CStr) : Bool :=
  let rest := cnf.dropWhile isMediaChar
  match cnf.takeWhile isMediaChar, rest with
  | [], _ => false
  | _, '/' :: rest =>
    match rest.takeWhile isMediaChar, rest.dropWhile isMediaChar with
    | [], _ => false
    | _, [':', d] => '0' ≤ d && d ≤ '2'
    | _, [':', d, ':', e] => '0' ≤ d && d ≤ '2' && '0' ≤ e && e ≤ '5'
    | _, _ => false
  | _, _ => false

/-- `validate_cin`, up to `validate_aa`. -/
def validateCin (parentCnt cin : Obj) (op : Operation) : Except Resp Unit := do
  validateMandatoryAttrs .cin cin op
  if (cin.str .rn).any isReservedName then
    .error (handleError .notAcceptable "attribute `rn` is invalid")
  if cin.has .acpi then
    .error (handleError .badRequest "attribute `acpi` for `cin` is not supported")
  match parentCnt.get .mbs, cin.get .cs with
  | some mbs, some cs =>
    if 0 ≤ mbs.valueint ∧ mbs.valueint < cs.valueint then
      .error (handleError .notAcceptable "contentInstance size exceed `mbs`")
    else .ok ()
  | _, _ => .ok ()
  match cin.get .cnf with
  | none => .ok ()
  | some cnf =>
    if validateCnf (cnf.valuestring.getD []) then .ok ()
    else .error (handleError .badRequest "attribute `cnf` is invalid")

/-- The `cs` of a content that is a string. -/
def addContentSize (cin : Obj) : Obj :=
  match cin.str .con with
  | some con => cin.add .cs (.int con.length)
  | none => cin

/-- The object `create_cin` stores, from the one with the general attributes. -/
def buildCin (env : Env) (req : Req) (parentCnt : Obj) (st : Int) (cin : Obj) : Except Resp Obj := do
  let cin := (addContentSize cin).add .st (.int st)
  validateCin parentCnt cin .create
  let cin := validateAa .create cin .cin
  let cin ← assignCreator req cin
  return announceAt env cin

namespace Server

/-- The end of `create_cin`: the child named `la` takes the new object, or the new node becomes it. -/
def cacheLatest (s : Server) (parent : RTNode) (n : RTNode) : Server :=
  match (s.children parent.id).roots.find? fun c => c.rn = "la".toList with
  | some la => s.setObj la.id n.obj
  | none =>
    -- the uri is made from the instance's own name before the node is renamed
    (s.addChildResourceTree parent n).modifyNode n.id fun m => { m with rn := "la".toList }

/-- `create_cin` where begin and commit succeed. An instance that is not stored is freed twice. -/
def createCin (env : Env) (req : Req) (s : Server) (parent : RTNode) : Option (Server × Resp) := do
  let (cin, n) ← addGeneralAttribute env req.pc parent.obj .cin s.riCount
  let s := { s with riCount := n }
  let st ← parent.obj.get .st
  match buildCin env req parent.obj st.valueint cin with
  | .error r => return (s, r)
  | .ok cin =>
    let node ← createRtnode s.nextId cin .cin
    let s ← s.addCnt env (.inTree parent.id) node.obj
    let db ← s.db.dbStoreResource node.obj (parent.uri ++ '/' :: node.rn)
    let s := { s with db := db, nextId := s.nextId + 1 }
    return (s.cacheLatest parent node, done .created)

end Server

end TinyIoT
