/-
Subscriptions (`sub.c`): the table that `validate_sub` checks the event types of `enc` against the
notification content type with, create and update. The result of a verification request comes from the
target and is a parameter.
-/
import TinyIoT.Resource.General
import TinyIoT.Server.Address

namespace TinyIoT

/-! ## Event types and content types -/

/-- `NET_REPORT_ON_MISSING_DATA_POINTS`. -/
def netMissing : Int := 8

/-- `NCT_ALL_ATTRIBUTES`, `NCT_TIMESERIES_NOTIFICATION`. -/
def nctAllAttributes : Int := 1

def nctTimeSeries : Int := 5

/-- The content types the switch of `validate_sub` refuses for an event type. -/
def nctRefused (net : Int) : List Int :=
  if net = 1 ∨ net = 2 then [4, 5]
  else if net = 3 ∨ net = 4 ∨ net = 5 then [2, 4, 5]
  else if net = 6 then [2, 1, 3, 5]
  else if net = 7 then [1, 4, 3, 5]
  else []

/-- The table of `validate_sub`: the content type may be used for the event type. -/
def nctAllows (net nct : Int) : Bool :=
  if net = netMissing then nct = nctTimeSeries else nct ∉ nctRefused net

/-- `enc.net` of the criterion, as `cJSON_ArrayForEach` goes through it. -/
def netItems (enc : Option Json) : List Json := ((enc.bind (·.member .net)).map Json.items).getD []

/-- `enc.md.num` is a positive number. -/
def hasMdNum (enc : Option Json) : Bool :=
  match (enc.bind (·.member .md)).bind (·.member (.other "num".toList)) with
  | some (.num v) => 0 < v
  | _ => false

/-! ## `validate_sub` -/

/-- One event type, with the content type of the same body. -/
def checkNet (enc nct : Option Json) (net : Json) : Except Resp Unit :=
  if net.valueint < 0 then .error (handleError .badRequest "attribute `net` is invalid")
  else match nct with
  | none => .ok ()
  | some nct =>
    if net.valueint = netMissing then
      if nct.valueint ≠ nctTimeSeries then
        .error (handleError .badRequest "`nct` must be 5 (timeSeries notification) for `net` 8")
      else if !hasMdNum enc then .error (handleError .badRequest "`enc/md/num` is required for `net` 8")
      else .ok ()
    else if nct.valueint ∈ nctRefused net.valueint then
      .error (handleError .badRequest "attribute `nct` is invalid")
    else .ok ()

/-- The notification targets are a list of strings. -/
def checkNu (nu : Option Json) : Except Resp Unit :=
  match nu with
  | none => .ok ()
  | some (.arr l) =>
    if l = [] ∨ !l.all Json.isString then .error (handleError .badRequest "attribute `nu` is invalid") else .ok ()
  | some _ => .error (handleError .badRequest "attribute `nu` is invalid")

/-- The checks of `validate_sub` before `acpi` is looked up, which stands alone in an update. -/
def checkSubNames (sub : Obj) (op : Operation) : Except Resp Unit := do
  validateMandatoryAttrs .sub sub op
  if sub.has .acpi ∧ op = .update ∧ 1 < sub.length then
    .error (handleError .badRequest "attribute `acpi` shall be the only attribute in an UPDATE request")

/-- The `acpi` of a body. -/
def checkSubAcpi (now : CStr) (s : Server) (sub : Obj) (op : Operation) : Except Resp Unit :=
  match sub.get .acpi with
  | none => .ok ()
  | some acpi => validateAcpi now s acpi op

/-- `validate_sub`. -/
def validateSub (now : CStr) (s : Server) (sub : Obj) (op : Operation) : Except Resp Unit := do
  checkSubNames sub op
  checkSubAcpi now s sub op
  (netItems (sub.get .enc)).forM (checkNet (sub.get .enc) (sub.get .nct))
  checkNu (sub.get .nu)

/-! ## Verification of the targets -/

/-- What `create_sub` makes of the result of a verification request. -/
def verificationResult (rsc : Int) : Except Resp Unit :=
  if rsc = Rsc.subscriptionCreatorHasNoPrivilege.code then
    .error (handleError .subscriptionCreatorHasNoPrivilege "subscription verification error")
  else if rsc = Rsc.subscriptionHostHasNoPrivilege.code then
    .error (handleError .subscriptionHostHasNoPrivilege "subscription verification error")
  else if rsc.tdiv 1000 = 4 ∨ rsc.tdiv 1000 = 5 then
    .error (handleError .subscriptionVerificationInitiationFailed "subscription verification error")
  else .ok ()

/-- What `update_sub` makes of it: a verification that is not completed is only logged. -/
def reverificationResult (rsc : Int) : Except Resp Unit :=
  if rsc = Rsc.subscriptionCreatorHasNoPrivilege.code then
    .error (handleError .subscriptionCreatorHasNoPrivilege "subscription verification failed")
  else if rsc = Rsc.subscriptionHostHasNoPrivilege.code then
    .error (handleError .subscriptionHostHasNoPrivilege "subscription verification failed")
  else .ok ()

/-- A target that is a resource of this CSE: a CSE and the originator's own AE are not asked. -/
def verifyNode (req : Req) (n : RTNode) (ask : Except Resp Unit) : Except Resp Unit :=
  if n.ty = .csr then .ok ()
  else if n.ty ≠ .ae then .error (handleError .subscriptionVerificationInitiationFailed "nu is invalid")
  else if n.obj.str .aei = some req.fr then .ok ()
  else ask

/-- One target in `create_sub`; `verify` is what `send_verification_request` returns. -/
def verifyTarget (now : CStr) (verify : CStr → Int) (req : Req) (s : Server) (nu : Json) : Server × Except Resp Unit :=
  match nu.valuestring with
  | none => (s, .ok ())
  | some addr =>
    let (s, p) := s.findRtnode now addr
    (s, match p.deref s with
      | some n => verifyNode req n (verificationResult (verify addr))
      | none => if addr = req.fr then .ok () else verificationResult (verify addr))

/-- One target in `update_sub`; a target with a protocol binding is not asked. -/
def reverifyTarget (now : CStr) (verify : CStr → Int) (req : Req) (s : Server) (nu : Json) : Server × Except Resp Unit :=
  match nu.valuestring with
  | none => (s, .ok ())
  | some addr =>
    if addr = req.fr then (s, .ok ())
    else
      let ask := if addressingType addr = .protocolBinding then .ok () else reverificationResult (verify addr)
      let (s, p) := s.findRtnode now addr
      (s, match p.deref s with
        | some n => verifyNode req n ask
        | none => ask)

/-- The loop over `nu`, up to the first target that is refused. -/
def verifyAll (target : Server → Json → Server × Except Resp Unit) : Server → List Json → Server × Except Resp Unit
  | s, [] => (s, .ok ())
  | s, nu :: l => match target s nu with
    | (s, .error r) => (s, .error r)
    | (s, .ok ()) => verifyAll target s l

theorem looksUp_verifyTarget (now : CStr) (verify : CStr → Int) (req : Req) (s : Server) (nu : Json) :
    s.LooksUp now (verifyTarget now verify req s nu).1 := by
  unfold verifyTarget
  split
  · exact .refl
  · exact .find _

theorem looksUp_reverifyTarget (now : CStr) (verify : CStr → Int) (req : Req) (s : Server) (nu : Json) :
    s.LooksUp now (reverifyTarget now verify req s nu).1 := by
  unfold reverifyTarget
  split
  · exact .refl
  · split
    · exact .refl
    · exact .find _

theorem looksUp_verifyAll {now : CStr} {target : Server → Json → Server × Except Resp Unit}
    (h : ∀ s nu, Server.LooksUp now s (target s nu).1) (l : List Json) (s : Server) : s.LooksUp now (verifyAll target s l).1 := by
  induction l generalizing s with
  | nil => exact .refl
  | cons nu l ih =>
    have h₁ := h s nu
    unfold verifyAll
    split
    · rename_i s₁ r heq
      rw [heq] at h₁
      exact h₁
    · rename_i s₁ heq
      rw [heq] at h₁
      exact h₁.trans (ih s₁)

/-! ## Create -/

/-- The check of `create_sub` that missing data is reported under a time series only. -/
def checkNetParent (parent : RTNode) (sub : Obj) : Except Resp Unit :=
  if parent.ty ≠ .ts ∧ (netItems (sub.get .enc)).any (fun j => j.isNumber && j.valueint = netMissing) then
    .error (handleError .badRequest "`net` 8 is only allowed under a <timeSeries> resource")
  else .ok ()

/-- The object `create_sub` stores, before its targets are verified. The creator is looked at before the result of the
validation is returned. -/
def buildSub (env : Env) (req : Req) (s : Server) (parent : RTNode) (sub : Obj) : Except Resp Obj :=
  match validateSub env.now s sub .create with
  | .error r => do
    let _ ← assignCreator req sub
    .error r
  | .ok () => do
    checkNetParent parent sub
    let sub := if sub.has .nct then sub else sub.add .nct (.int nctAllAttributes)
    assignCreator req sub

namespace Server

/-- The end of `create_sub`. Under a content instance the row is stored and the request refused. There is no answer where
the parent itself is gone, as one that is below an expired target is. -/
def storeSub (s : Server) (parent : RTNode) (sub : Obj) : Option (Server × Resp) :=
  if parent.ty = .cin then do
    let rn ← sub.str .rn
    match s.db.dbStoreResource sub (parent.uri ++ '/' :: rn) with
    | none => return (s, handleError .internalServerError "DB store fail")
    | some db => return ({ s with db := db }, handleError .targetNotSubscribable "TARGET_NOT_SUBSCRIPBABLE")
  else if (s.node? parent.id).isSome then s.storeResource parent sub .sub
  else none

/-- `create_sub`. -/
def createSub (env : Env) (verify : CStr → Int) (req : Req) (s : Server) (parent : RTNode) :
    Option (Server × Resp) := do
  let (sub, n) ← addGeneralAttribute env req.pc parent.obj .sub s.riCount
  let s := { s with riCount := n }
  match buildSub env req s parent sub with
  | .error r => return (s.afterChecks env.now (checkSubNames sub .create) (sub.get .acpi), r)
  | .ok sub => match verifyAll (verifyTarget env.now verify req) s (sub.arr .nu) with
    | (s, .error r) => return (s, r)
    | (s, .ok ()) => s.storeSub parent sub

end Server

/-! ## Update -/

/-- The attributes `update_sub` refuses. -/
def subInvalidKeys : List Attr := [.ty, .pi, .ri, .rn, .ct, .su]

/-- A criterion set to null becomes the default one, the update of the resource. -/
def defaultEnc (body : Obj) : Obj :=
  match body.get .enc with
  | some .null => body.set .enc (.obj [(.net, .arr [.int 1])])
  | _ => body

namespace Server

/-- `update_sub`; no answer where the subscription itself is gone with an expired target. -/
def updateSub (env : Env) (verify : CStr → Int) (req : Req) (s : Server) (target : RTNode) : Option (Server × Resp) :=
  if subInvalidKeys.any (fun k => req.pc.has k) then
    some (s, handleError .badRequest "\x7b\"m2m:dbg\": \"unsupported attribute on update\"\x7d")
  else match validateSub env.now s req.pc .update with
    | .error r => some (s.afterChecks env.now (checkSubNames req.pc .update) (req.pc.get .acpi), r)
    | .ok () => match verifyAll (reverifyTarget env.now verify req) s (req.pc.arr .nu) with
      | (s, .error r) => some (s, r)
      | (s, .ok ()) => if (s.node? target.id).isNone then none else do
        let body := (defaultEnc req.pc).add .lt (.str env.now)
        let obj := target.obj.updateResource body
        let ri ← obj.str .ri
        let s := s.setObj target.id obj
        return ({ s with db := s.db.dbUpdateResource body ri }, done .updated)

end Server

end TinyIoT
