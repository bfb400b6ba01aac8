/-
Access control policies (`acp.c`): the form of the rules, create and update. No check of `acpi` is made here: a
policy is governed by its own rules.
-/
import TinyIoT.Resource.Container
import TinyIoT.Access.Policy

namespace TinyIoT

/-! ## The rules -/

/-- An entry of `ipv4`: an address, with or without a mask. -/
def ipv4Ok (j : Json) : Bool :=
  match j.valuestring with
  | none => false
  | some entry =>
    let addr := entry.takeWhile fun c => c ≠ '/'
    let mask := match entry.dropWhile fun c => c ≠ '/' with
      | [] => true
      | _ :: digits => 0 ≤ atoi digits && atoi digits ≤ 32
    mask && (inetPton addr).isSome

/-- The items of `acco.acip.ipv4`. -/
def acrAddresses (acr : Json) : List Json :=
  ((((acr.member .acco).bind (Json.member · .acip)).bind (Json.member · .ipv4)).map Json.items).getD []

/-- One rule in `validate_acr`. -/
def validateRule (acr : Json) : Except Resp Unit :=
  if !acr.isObject then .error (handleError .badRequest "attribute `acr` is in invalid form")
  else if !(acr.member .acor).any (fun j => j.isArray && !j.items.isEmpty) then
    .error (handleError .badRequest "attribute `acor` is invalid")
  else if !(acr.member .acop).any (fun j => j.isNumber && 0 ≤ j.valueint && j.valueint ≤ 63) then
    .error (handleError .badRequest "attribute `acop` is invalid")
  else if !(acrAddresses acr).all ipv4Ok then
    .error (handleError .badRequest "ip in attribute `acip` is invalid")
  else .ok ()

/-- `validate_acp_acr`. -/
def validateAcpAcr (privilege : Option Json) (name : String) (requireNonEmpty : Bool) : Except Resp Unit :=
  match privilege with
  | some (.obj o) => match Obj.get o .acr with
    | some (.arr l) =>
      if requireNonEmpty && l.isEmpty then .error (handleError .badRequest "empty `acr` is not allowed")
      else l.forM validateRule
    | _ => .error (handleError .badRequest "insufficient mandatory attribute(s)")
  | _ => .error (handleError .badRequest ("attribute `" ++ name ++ "` is in invalid form"))

/-- `validate_acp`, up to `validate_aa`: both privileges on CREATE, those that are given on UPDATE. -/
def validateAcp (acp : Obj) (op : Operation) : Except Resp Unit := do
  validateMandatoryAttrs .acp acp op
  if op = .create ∨ acp.has .pv then validateAcpAcr (acp.get .pv) "pv" false
  if op = .create ∨ acp.has .pvs then validateAcpAcr (acp.get .pvs) "pvs" true

namespace Server

/-! ## Create and update -/

/-- `create_acp`. -/
def createAcp (env : Env) (req : Req) (s : Server) (parent : RTNode) : Option (Server × Resp) :=
  if parent.ty ≠ .cse ∧ parent.ty ≠ .ae then
    some (s, handleError .invalidChildResourcetype "child type is invalid")
  else do
    let (acp, n) ← addGeneralAttribute env req.pc parent.obj .acp s.riCount
    let s := { s with riCount := n }
    match validateAcp acp .create with
    | .error r => return (s, r)
    | .ok () => s.storeResource parent (announceAt env (validateAa .create acp .acp)) .acp

/-- `update_acp`. The statement on the row is built from the body and succeeds. -/
def updateAcp (env : Env) (kept : Json → List Json) (req : Req) (s : Server) (target : RTNode) :
    Option (Server × Resp) :=
  if [Attr.ty, .pi, .ri, .rn, .ct].any (fun k => req.pc.has k) then
    some (s, handleError .badRequest "unsupported attribute on update")
  else match validateAcp req.pc .update with
    | .error r => some (s, r)
    | .ok () => do
      let ri ← target.ri
      let (body, cleared) := processAnncAtUpdate kept target.obj (validateAa .update req.pc .acp)
      let db := if cleared then s.db.dbUpdateResource [(.at, .null)] ri else s.db
      let body := body.add .lt (.str env.now)
      let obj := target.obj.updateResource body
      let ri ← obj.str .ri
      return ({ s with db := db.dbUpdateResource body ri }.setObj target.id obj, done .updated)

end Server

end TinyIoT
