/-
The switches of `create_onem2m_resource` and `update_onem2m_resource` over every type of resource, with the checks
before them. The privilege check and the check of attribute names only refuse; a request here is one they let
through.
-/
import TinyIoT.Resource.Registration
import TinyIoT.Resource.AccessControl
import TinyIoT.Resource.Announced
import TinyIoT.Resource.Subscription
import TinyIoT.Resource.Group
import TinyIoT.Resource.TimeSeries
import TinyIoT.Resource.FlexContainer

namespace TinyIoT

/-- What the handlers find outside the server's own state. -/
structure World where
  ts : TsEnv
  /-- `get_remote_resource` for a member of another CSE. -/
  remote : CStr → Except Rsc RTNode
  /-- The calls of `validate_grp_member` the stack holds. -/
  depth : Nat
  /-- The announcements kept at an update of `at`. -/
  kept : Json → List Json
  /-- The answer to the verification of a notification target. -/
  verify : CStr → Int

/-- What the handlers of groups find. -/
def World.grp (w : World) : GrpEnv := { w.ts.toEnv with remote := w.remote, depth := w.depth }

/-- What the handlers of every type find. -/
structure Outside extends World where
  sdt : Sdt
  backend : Backend
  /-- `cJSON_PrintUnformatted`. -/
  print : Json → CStr
  /-- `get_local_time` of a number of seconds from now. -/
  later : Int → CStr
  /-- The name a flexContainer's body is wrapped in, where it is not `m2m:fcnt`. -/
  shortname : Option CStr
  /-- The answer of the CSE of an announced resource's original. -/
  forwarded : Rsc

namespace Outside

def env (w : Outside) : Env := w.ts.toEnv

def fcnt (w : Outside) : FcntEnv :=
  { w.env with sdt := w.sdt, backend := w.backend, print := w.print, later := w.later, kept := w.kept }

end Outside

namespace Server

/-- The switch of `create_onem2m_resource`. A type without a case does not pass the comparison with the type of the
body. -/
def createHandler (w : Outside) (req : Req) (ty : ResourceType) (s : Server) (parent : RTNode) : Option (Server × Resp) :=
  match ty with
  | .ae => s.createAe w.env req parent
  | .cnt => s.createCnt w.env req parent
  | .cin => s.createCin w.env req parent
  | .sub => s.createSub w.env w.verify req parent
  | .acp => s.createAcp w.env req parent
  | .grp => s.createGrp w.grp req parent
  | .csr => s.createCsr w.env req parent
  | .ts => s.createTs w.env req parent
  | .tsi => (s.createTsi w.ts req parent).bind Outcome.answer
  | .fcnt => s.createFcnt w.fcnt w.shortname req parent
  | .fcin => some (s, if 4 ≤ req.rvi then handleError .operationNotAllowed "FlexContainerInstance cannot be created via API"
      else handleError .badRequest "resource type not supported")
  | .acpa | .aea | .cba | .cnta | .cina | .grpa | .tsa => s.createAnnc w.env req ty parent
  | _ => some (s, handleError .badRequest "resource type is invalid")

/-- `create_onem2m_resource` for any type; `et` of a CBA is not looked at. -/
def createAny (w : Outside) (req : Req) (ty : ResourceType) (s : Server) (parent : RTNode) : Option (Server × Resp) :=
  if ty = .cba then
    match s.checkRnDuplicate req ty parent with
    | some r => some (s, r)
    | none =>
      if !ResourceType.isValidChildType parent.ty ty then
        some (s, handleError .invalidChildResourcetype "child type error")
      else s.createHandler w req ty parent
  else s.createOnem2mResource w.env req ty (createHandler w req ty) parent

/-- The switch of `update_onem2m_resource`. -/
def updateHandler (w : Outside) (req : Req) (ty : ResourceType) (s : Server) (target : RTNode) : Option (Server × Resp) :=
  match ty with
  | .ae => s.updateAe w.env w.kept req target
  | .cnt => s.updateCnt w.env w.kept req target
  | .sub => s.updateSub w.env w.verify req target
  | .acp => s.updateAcp w.env w.kept req target
  | .grp => s.updateGrp w.grp w.kept req target
  | .csr => s.updateCsr w.env req target
  | .fcnt => s.updateFcnt w.fcnt w.shortname req target
  | .ts => (s.updateTs w.env w.kept req target).bind Outcome.answer
  | .acpa | .aea | .cba | .cnta | .cina | .grpa | .tsa => s.updateAnnc w.forwarded req target
  | _ => some (s, handleError .operationNotAllowed "operation `update` is unsupported")

/-- `update_onem2m_resource` with a body of the type `ty`. -/
def updateAny (w : Outside) (req : Req) (ty : ResourceType) (s : Server) (target : RTNode) : Option (Server × Resp) :=
  if target.ty = .cse then some (s, handleError .operationNotAllowed "CSE cannot be updated")
  else if target.ty = .fcin then some (s, handleError .operationNotAllowed "updating FCIN is forbidden")
  else if target.ty = .cin then some (s, handleError .operationNotAllowed "operation `update` for cin is not allowed")
  else if target.ty = .tsi then some (s, handleError .operationNotAllowed "operation `update` for tsi is not allowed")
  else if target.ty ≠ ty then some (s, handleError .badRequest "resource type is invalid")
  else if req.pc.has .acpi && req.pc.length ≠ 1 then
    some (s, handleError .badRequest "attribute `acpi` shall be the only attribute in an UPDATE request")
  else if !etValid w.env.now req.pc then some (s, handleError .badRequest "attribute `et` is invalid")
  else s.updateHandler w req ty target

/-- What a body is for. -/
inductive Write where
  | create (ty : ResourceType)
  | update (ty : ResourceType)
deriving DecidableEq

namespace Write

/-- The request at the resource it addresses: the parent of the new one, or the one to update. -/
def run (w : Outside) (req : Req) (s : Server) (n : RTNode) : Write → Option (Server × Resp)
  | create ty => s.createAny w req ty n
  | update ty => s.updateAny w req ty n

end Write

/-! ## A request that is accepted went through its handler -/

variable {w : Outside} {req : Req} {ty : ResourceType} {s s' : Server} {n : RTNode} {r : Resp}

theorem checkRnDuplicate_conflict (h : s.checkRnDuplicate req ty n = some r) : r.rsc = .conflict := by
  unfold checkRnDuplicate at h
  split at h
  · cases h
  · dsimp only at h
    split at h
    · cases h
      rfl
    · cases h

/-- A create request is refused at once, or its handler runs. -/
theorem createAny_cases (h : s.createAny w req ty n = some (s', r)) : (s' = s ∧ r.rsc ≠ .created) ∨
    (s.checkRnDuplicate req ty n = none ∧ ResourceType.isValidChildType n.ty ty = true ∧
      ∃ (s₁ : Server), s.createHandler w req ty n = some (s₁, r) ∧
        (s' = s₁ ∨ s' = s₁.incrementParentStatetag w.env.now (.inTree n.id))) := by
  unfold createAny createOnem2mResource at h
  split at h
  · split at h
    · rename_i e he
      cases h
      exact .inl ⟨rfl, by rw [checkRnDuplicate_conflict he]; decide⟩
    · rename_i hdup
      split at h
      · cases h
        exact .inl ⟨rfl, by decide⟩
      · rename_i hchild
        exact .inr ⟨hdup, by simpa using hchild, s', h, .inl rfl⟩
  · split at h
    · rename_i e he
      cases h
      exact .inl ⟨rfl, by rw [checkRnDuplicate_conflict he]; decide⟩
    · rename_i hdup
      split at h
      · cases h
        refine .inl ⟨rfl, ?_⟩
        split <;> decide
      · rename_i hchild
        split at h
        · cases h
          exact .inl ⟨rfl, by decide⟩
        · simp only [Option.bind_eq_bind, Option.bind_eq_some_iff] at h
          obtain ⟨⟨s₁, r₁⟩, hc, h⟩ := h
          dsimp only at h
          split at h
          · cases h
            exact .inr ⟨hdup, by simpa using hchild, s₁, hc, .inr rfl⟩
          · cases h
            exact .inr ⟨hdup, by simpa using hchild, s', hc, .inl rfl⟩

end Server

end TinyIoT
