/-
What registers at this CSE (`ae.c`, `csr.c`): an AE, with the identifier it chose or one assigned to it, and
another CSE, whose identifier goes on the list of descendant CSEs of the CSEBase. A string function that is
given an attribute which is no string fails.
-/
import TinyIoT.Resource.Container

namespace TinyIoT

/-! ## Application entities -/

/-- `is_rn_valid_char`. -/
def isRnValidChar (c : Char) : Bool :=
  ('0' ≤ c && c ≤ '9') || ('A' ≤ c && c ≤ 'Z') || ('a' ≤ c && c ≤ 'z') || c = '_' || c = '-'

/-- `check_rn_invalid`. -/
def checkRnInvalid (body : Obj) : Option (Except Resp Unit) :=
  match body.get .rn with
  | none => some (.ok ())
  | some rn => rn.valuestring.map fun rn =>
    if rn.all isRnValidChar then .ok () else .error (handleError .badRequest "attribute `rn` is invalid")

/-- `check_aei_duplicate`: the originator against the identifiers of the registered siblings. -/
def Server.checkAeiDuplicate (s : Server) (fr : CStr) (parent : RTNode) : Option (Except Resp Unit) :=
  let aes := (s.children parent.id).roots.filter fun c => c.ty = .ae
  if aes.any fun c => c.ri = some fr then
    some (.error (handleError .originatorHasAlreadyRegisterd "attribute `aei` is duplicated"))
  else if aes.all fun c => c.ri.isSome then some (.ok ()) else none

/-- `check_aei_invalid`. -/
def checkAeiInvalid (fr : CStr) : Except Resp Unit :=
  if fr = cseBaseRi then
    .error (handleError .securityAssociationRequired "originator is CSE-ID without secure context")
  else .ok ()

/-- The prefix of `api` for a release. -/
def apiPrefixOk (rvi : Int) (api : CStr) : Bool :=
  match api with
  | [] => false
  | c :: _ => c = 'R' || c = 'N' || (rvi ≤ 3 && c = 'r')

/-- The checks of `validate_ae` before `acpi` is looked up; the test of `rn` and the one of `api` read strings. -/
def checkAeNames (rvi : Int) (ae : Obj) (op : Operation) : Except Resp Unit := do
  if ae.has .aei then .error (handleError .badRequest "attribute `aei` is not allowed")
  validateMandatoryAttrs .ae ae op
  if op = .create ∧ ¬ apiPrefixOk rvi ((ae.str .api).getD []) then
    .error (handleError .badRequest "attribute `api` prefix is invalid")
  if ((ae.str .rn).getD []).contains '/' then .error (handleError .badRequest "attribute `rn` is invalid")

/-- `validate_ae`, up to `validate_aa`. -/
def validateAe (now : CStr) (s : Server) (rvi : Int) (ae : Obj) (op : Operation) : Except Resp Unit := do
  checkAeNames rvi ae op
  match ae.get .acpi with
  | none => .ok ()
  | some acpi => validateAcpi now s acpi op

/-- `validate_ae` reads these attributes as strings. -/
def aeReadable (ae : Obj) (op : Operation) : Bool :=
  (op = .update || (ae.get .api).all fun j => j.isNull || j.isString) && (ae.get .rn).all Json.isString

/-- The identifier of a new AE: the originator's own, where it begins with `C` or `S` and goes on; with `S`
alone the one the CSE made gets this first letter. -/
def assignAeId (fr : CStr) (ae : Obj) : Option Obj :=
  match fr with
  | 'C' :: _ :: _ => some (if (ae.get .ri).any Json.isString then ae.set .ri (.str fr) else ae)
  | ['C'] => some ae
  | 'S' :: _ :: _ => some (ae.set .ri (.str fr))
  | ['S'] => (ae.str .ri).bind fun ri => match ri with
    | [] => none
    | _ :: rest => some (ae.set .ri (.str ('S' :: rest)))
  | _ => (ae.str .ri).map fun _ => ae

/-- `aei` is the identifier. -/
def addAei (ae : Obj) : Obj := ((ae.str .ri).map fun ri => ae.add .aei (.str ri)).getD ae

/-- The object `create_ae` stores. The result of the checks is returned after the identifier is assigned. -/
def buildAe (env : Env) (req : Req) (s : Server) (ae : Obj) : Option (Except Resp Obj) :=
  if aeReadable ae .create then
    (assignAeId req.fr (validateAa .create ae .ae)).map fun o =>
      (validateAe env.now s req.rvi ae .create).map fun _ => announceAt env (addAei o)
  else none

namespace Server

/-- `create_ae`. -/
def createAe (env : Env) (req : Req) (s : Server) (parent : RTNode) : Option (Server × Resp) :=
  (s.checkAeiDuplicate req.fr parent).bind fun dup =>
    match (do dup; checkAeiInvalid req.fr) with
    | .error r => some (s, r)
    | .ok () => (checkRnInvalid req.pc).bind fun rn => match rn with
      | .error r => some (s, r)
      | .ok () => do
        let (ae, n) ← addGeneralAttribute env req.pc parent.obj .ae s.riCount
        let s := { s with riCount := n }
        (buildAe env req s ae).bind fun built => match built with
          | .error r => some (s.afterChecks env.now (checkAeNames req.rvi ae .create) (ae.get .acpi), r)
          | .ok o => s.storeResource parent o .ae

/-- `update_ae`; the database's answer is not looked at. -/
def updateAe (env : Env) (kept : Json → List Json) (req : Req) (s : Server) (target : RTNode) :
    Option (Server × Resp) :=
  if [Attr.ty, .pi, .ri, .rn, .ct].any (fun k => req.pc.has k) then
    some (s, handleError .badRequest "unsupported attribute on update")
  else if req.pc.has .acpi && decide (1 < req.pc.length) then
    some (s, handleError .badRequest "only `acpi` should be updated")
  else match validateAe env.now s req.rvi req.pc .update with
    | .error r => some (s.afterChecks env.now (checkAeNames req.rvi req.pc .update) (req.pc.get .acpi), r)
    | .ok () => do
      let ri ← target.ri
      let (body, cleared) := processAnncAtUpdate kept target.obj (validateAa .update req.pc .ae)
      let db := if cleared then s.db.dbUpdateResource [(.at, .null)] ri else s.db
      let body := body.add .lt (.str env.now)
      let obj := target.obj.updateResource body
      let obj := if (obj.get .acpi).any Json.isNull then obj.del .acpi else obj
      let ri ← obj.str .ri
      return ({ s with db := db.dbUpdateResource body ri }.setObj target.id obj, done .updated)

end Server

/-! ## Remote CSEs -/

/-- `check_csi_duplicate`. -/
def Server.checkCsiDuplicate (s : Server) (csi : CStr) (parent : RTNode) : Bool :=
  (s.children parent.id).roots.any fun c => c.ty = .csr && c.obj.str .csi = some csi

/-- `validate_csr`. -/
def validateCsr (s : Server) (parent : RTNode) (csr : Obj) (op : Operation) : Except Resp Unit := do
  validateMandatoryAttrs .csr csr op
  if op = .update ∧ csr.has .cb then .error (handleError .badRequest "attribute `cb` is not allowed")
  if op = .update ∧ csr.has .ct then .error (handleError .badRequest "attribute `ct` is not allowed")
  if (csr.str .csi).any fun csi => s.checkCsiDuplicate csi parent then
    .error (handleError .originatorHasAlreadyRegisterd "originator has already registered")

namespace Server

/-- The end of `create_csr`: an entry of the list of descendant CSEs of the CSEBase, which is made where there is
none. A `csi` that is no string makes no entry. -/
def addDcse (s : Server) (csi : Option CStr) : Server :=
  match s.tree with
  | .nil => s
  | .node cb _ _ => match cb.obj.get .dcse with
    | none => s.setObj cb.id (cb.obj.add .dcse (.arr (csi.toList.map .str)))
    | some (.arr l) => s.setObj cb.id (cb.obj.set .dcse (.arr (l ++ csi.toList.map .str)))
    | some _ => s

/-- The row, the node and the entry of a new CSR. -/
def storeCsr (s : Server) (parent : RTNode) (csr : Obj) : Option (Server × Resp) := do
  let rn ← csr.str .rn
  match s.db.dbStoreResource csr (parent.uri ++ '/' :: rn) with
  | none => return (s, handleError .internalServerError "database error")
  | some db =>
    let n ← createRtnode s.nextId csr .csr
    let s := { s with db := db, nextId := s.nextId + 1 }.addChildResourceTree parent n
    return (s.addDcse (n.obj.str .csi), done .created)

/-- `create_csr`: `csi` is the originator, whatever the body says. -/
def createCsr (env : Env) (req : Req) (s : Server) (parent : RTNode) : Option (Server × Resp) :=
  (checkRnInvalid req.pc).bind fun rn => match rn with
    | .error r => some (s, r)
    | .ok () => do
      let (csr, n) ← addGeneralAttribute env req.pc parent.obj .csr s.riCount
      let s := { s with riCount := n }
      if req.fr = [] then return (s, handleError .badRequest "missing originator")
      let csr := (csr.del .csi).add .csi (.str req.fr)
      match validateCsr s parent csr .create with
      | .error r => return (s, r)
      | .ok () => s.storeCsr parent csr

/-- `update_csr`; the database's answer is not looked at. -/
def updateCsr (env : Env) (req : Req) (s : Server) (target : RTNode) : Option (Server × Resp) :=
  if [Attr.ty, .pi, .ri, .rn, .ct, .csi].any (fun k => req.pc.has k) then
    some (s, handleError .badRequest "unsupported attribute on update")
  else
    -- without a `csi` in the body no sibling is looked at, so any node does for the parent
    match validateCsr s target req.pc .update with
    | .error r => some (s, r)
    | .ok () => do
      let body := req.pc.add .lt (.str env.now)
      let obj := target.obj.updateResource body
      let ri ← obj.str .ri
      return ({ s with db := s.db.dbUpdateResource body ri }.setObj target.id obj, done .updated)

end Server

end TinyIoT
