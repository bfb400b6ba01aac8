/-
Announced resources (`annc.c`): created by the CSE of the original resource, updated by it or, where the resource
is bi-directional, by a request that the CSE of the original accepts.
-/
import TinyIoT.Resource.Container

namespace TinyIoT

/-- `AST_BI_DIRECTIONAL`. -/
def astBiDirectional : Int := 2

/-- The originator is the first part of the address `lnk`. -/
def linkedFrom (fr lnk : CStr) : Bool := fr.isPrefixOf lnk && (lnk.drop fr.length).head? = some '/'

/-- `update_annc` up to the merge; `forwarded` is the answer of the CSE of the original to the update it is
sent, -1 where none is found. -/
def checkAnncUpdate (forwarded : Rsc) (req : Req) (lnk : CStr) (target : Obj) : Except Resp Unit :=
  if linkedFrom req.fr lnk then .ok ()
  else match target.get .ast with
    | none => .error (handleError .badRequest "resource is uni-directional")
    | some ast =>
      if ast.valueint ≠ astBiDirectional then .error (handleError .badRequest "resource is uni-directional")
      else if req.pc ≠ [] ∧ forwarded ≠ .updated then
        .error (handleError .badRequest "failed to update original resource")
      else .ok ()

namespace Server

/-- `create_annc`: nothing of the body is checked. `et` of a CBA is deleted before. -/
def createAnnc (env : Env) (req : Req) (ty : ResourceType) (s : Server) (parent : RTNode) :
    Option (Server × Resp) := do
  let body := if ty = .cba then req.pc.del .et else req.pc
  let (o, n) ← addGeneralAttribute env body parent.obj ty s.riCount
  { s with riCount := n }.storeResource parent o ty

/-- `update_annc`. -/
def updateAnnc (forwarded : Rsc) (req : Req) (s : Server) (target : RTNode) : Option (Server × Resp) :=
  if [Attr.ty, .pi, .ri, .rn, .ct].any (fun k => req.pc.has k) then
    some (s, handleError .badRequest "unsupported attribute on update")
  else (target.obj.get .lnk).bind fun lnk => match lnk.valuestring with
    | none => some (s, handleError .internalServerError "lnk is empty")
    | some lnk => match checkAnncUpdate forwarded req lnk target.obj with
      | .error r => some (s, r)
      | .ok () => do
        let obj := target.obj.updateResource req.pc
        let ri ← obj.str .ri
        return ({ s with db := s.db.dbUpdateResource req.pc ri }.setObj target.id obj, done .updated)

end Server

end TinyIoT
