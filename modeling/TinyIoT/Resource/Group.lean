/-
Groups (`grp.c`): the check of the members with the consistency strategy, create and update, and the
`memberOf` lists of the members. The check goes down into the groups a member names by its `fopt`, as far
as the stack holds; the variable `rt_node` keeps its value from one member to the next.
-/
import TinyIoT.Resource.Container
import TinyIoT.Server.Address
import TinyIoT.Server.Resolve

namespace TinyIoT

/-- What the handlers of groups find outside the server's own state. -/
structure GrpEnv extends Env where
  /-- `get_remote_resource` for a member of another CSE: its node, or the status it sets. -/
  remote : CStr → Except Rsc RTNode
  /-- The calls of `validate_grp_member` the stack holds. -/
  depth : Nat

/-- `CSY_ABANDON_MEMBER`, `CSY_ABANDON_GROUP`, `CSY_SET_MIXED`. -/
def csyAbandonMember : Int := 1

def csyAbandonGroup : Int := 2

def csySetMixed : Int := 3

/-- `isUriFopt`. -/
def isUriFopt (s : CStr) : Bool := "/fopt".toList.isSuffixOf s

theorem isUriFopt_append (id : CStr) : isUriFopt (id ++ "/fopt".toList) = true :=
  List.isSuffixOf_iff_suffix.mpr (List.suffix_append _ _)

/-- `tStr`: the identifier of a member without the suffix. -/
def memberAddr (mid : CStr) : CStr := if isUriFopt mid && 5 < mid.length then mid.take (mid.length - 5) else mid

/-! ## `validate_grp_member` -/

/-- The variable `rt_node`. -/
inductive MemberVar where
  | unset | null | freed
  | node (n : RTNode)

/-- The node `rt_node` points to. -/
def MemberVar.deref : MemberVar → Option RTNode
  | node n => some n
  | _ => none

/-- The variables of the loop: the group, whose `mt` may change, `mt`, `rt_node` and `final_mid`; and the server, which
loses what a lookup finds expired. -/
structure Checking where
  server : Server
  grp : Obj
  mt : Int
  rtNode : MemberVar
  final : List CStr

/-- What one member, or the whole list, leads to: the loop goes on, the group is refused, or the stack
does not hold the calls. -/
inductive Checked where
  | next (c : Checking)
  | refused (rsc : Rsc) (s : Server)
  | deep

/-- What the lookup of a member leads to; a node that is not of this CSE is freed after its use. -/
inductive Sought where
  | refused (rsc : Rsc)
  | skipped (v : MemberVar)
  | held (v : MemberVar) (isRemote : Bool)

/-- A member that is not there. With a strategy of no meaning the loop goes on with what `rt_node` holds. -/
def seekFailed (csy : Int) (rsc : Rsc) (v : MemberVar) (isRemote : Bool) : Sought :=
  if csy = csyAbandonGroup then .refused rsc
  else if csy = csyAbandonMember ∨ csy = csySetMixed then .skipped v
  else .held v isRemote

/-- The status a group is refused with for a member of another CSE. -/
def remoteRefusal (rsc : Rsc) : Rsc :=
  if rsc = .originatorHasNoPrivilege then .receiverHasNoPrivileges else .groupmemberTypeInconsistent

section

variable (g : GrpEnv) (s : Server)

/-- A member of this CSE. -/
def seekLocal (csy : Int) (addr : CStr) : Server × Sought :=
  let (s, p) := s.findRtnode g.now addr
  match p.deref s with
  | some n => (s, .held (.node n) false)
  | none => (s, seekFailed csy .badRequest .null false)

/-- The lookup of a member; `prev` is what `rt_node` holds. -/
def seekMember (csy : Int) (prev : MemberVar) (addr : CStr) : Server × Sought :=
  match addressingType addr with
  | .cseRelative => seekLocal g s csy addr
  | .spRelative =>
    if isSpRelativeLocal addr then seekLocal g s csy (addr.drop (cseBaseRi.length + 2))
    else match g.remote addr with
      | .ok n => (s, .held (.node n) true)
      | .error rsc => (s, seekFailed csy (remoteRefusal rsc) .null true)
  | _ => (s, seekFailed csy .badRequest prev false)

end

/-- What a test of a member's node leads to. -/
inductive Fit where
  | on (c : Checking)
  | skip (c : Checking)
  | refuse (rsc : Rsc) (c : Checking)
  | deep

/-- The group becomes one of mixed types. -/
def setMixed (grp : Obj) : Obj :=
  match grp.get .mt with
  | none => grp.add .mt (.int ResourceType.mixed.code)
  | some mt => grp.set .mt (mt.setIntValue ResourceType.mixed.code)

/-- The test of a member's type; a member named by its `fopt` passes. -/
def fitType (csy : Int) (fopt : Bool) (c : Checking) (n : RTNode) : Fit :=
  if !fopt && c.mt ≠ ResourceType.mixed.code && n.ty.code ≠ c.mt then
    if csy = csyAbandonGroup then .refuse .groupmemberTypeInconsistent c
    else if csy = csySetMixed then .on { c with grp := setMixed c.grp, mt := ResourceType.mixed.code }
    else .skip c
  else .on c

/-- What the check of a nested group leads to: only an inconsistent type among its members counts. -/
def nestedFit (csy : Int) (c : Checking) : Checked → Fit
  | .deep => .deep
  | .refused .groupmemberTypeInconsistent s =>
    if csy = csyAbandonGroup then .refuse .groupmemberTypeInconsistent { c with server := s }
    else if csy = csyAbandonMember then .skip { c with server := s }
    else .on { c with server := s }
  | .refused _ s => .on { c with server := s }
  | .next c' => .on { c with server := c'.server }

/-- The variables a test leaves. -/
def Fit.vars : Fit → Option Checking
  | on c | skip c | refuse _ c => some c
  | deep => none

/-- The test of a group named by its `fopt`. There is no answer when the lookups of its members remove the group
itself, whose list the loop is on. -/
def fitGroup (nested : Server → Obj → Int → Option Checked) (csy : Int) (fopt isRemote : Bool) (c : Checking)
    (n : RTNode) : Option Fit :=
  if fopt && n.ty = .grp then
    (nested c.server n.obj c.mt).bind fun r =>
      let fit := nestedFit csy c r
      if isRemote || fit.vars.all fun c => (c.server.node? n.id).isSome then some fit else none
  else some (.on c)

/-- The identifier a member is listed with. -/
def memberId (isRemote : Bool) (n : RTNode) : Option CStr := if isRemote then some n.uri else n.ri

/-- A member joins `final_mid`, unless the list has its identifier. -/
def addMember (fopt isRemote : Bool) (c : Checking) (n : RTNode) : Option Checking :=
  (memberId isRemote n).map fun id =>
    if c.final.contains id then c else { c with final := c.final ++ [if fopt then id ++ "/fopt".toList else id] }

/-- The use of the node found for a member. -/
def useMember (nested : Server → Obj → Int → Option Checked) (csy : Int) (fopt isRemote : Bool) (c : Checking) (n : RTNode) :
    Option Checked :=
  let after : MemberVar := if isRemote then .freed else c.rtNode
  match fitType csy fopt c n with
  | .refuse rsc c => some (.refused rsc c.server)
  | .skip c => some (.next { c with rtNode := after })
  | .deep => some .deep
  | .on c => (fitGroup nested csy fopt isRemote c n).bind fun fit => match fit with
    | .refuse rsc c => some (.refused rsc c.server)
    | .skip c => some (.next { c with rtNode := after })
    | .deep => some .deep
    | .on c => (addMember fopt isRemote c n).map fun c => .next { c with rtNode := after }

section

variable (g : GrpEnv) (nested : Server → Obj → Int → Option Checked) (csy : Int)

/-- One member. -/
def checkMember (c : Checking) (entry : Json) : Option Checked :=
  entry.valuestring.bind fun mid =>
    let (s, sought) := seekMember g c.server csy c.rtNode (memberAddr mid)
    match sought with
    | .refused rsc => some (.refused rsc s)
    | .skipped v => some (.next { c with server := s, rtNode := v })
    | .held v isRemote =>
      v.deref.bind fun n => useMember nested csy (isUriFopt mid) isRemote { c with server := s, rtNode := v } n

/-- The loop over `mid`. -/
def checkMembers : List Json → Checking → Option Checked
  | [], c => some (.next c)
  | entry :: rest, c => (checkMember g nested csy c entry).bind fun r => match r with
    | .next c => checkMembers rest c
    | r => some r

end

/-- `validate_grp_member`, with the calls the stack still holds. -/
def validateGrpMember (g : GrpEnv) : Nat → Server → Obj → (csy mt : Int) → Option Checked
  | 0, _, _, _, _ => some .deep
  | depth + 1, s, grp, csy, mt =>
    checkMembers g (fun s grp mt => validateGrpMember g depth s grp csyAbandonGroup mt) csy (grp.arr .mid)
      ⟨s, grp, mt, .unset, []⟩

/-- The list of members becomes the checked one. -/
def storeMembers (grp : Obj) (final : List CStr) : Obj := (grp.del .mid).add .mid (.arr (final.map .str))

/-! ## `validate_grp` -/

/-- `mt`, mixed where it is not given. -/
def memberType (grp : Obj) : Obj × Int :=
  match grp.get .mt with
  | none => (grp.add .mt (.int ResourceType.mixed.code), ResourceType.mixed.code)
  | some mt => (grp, mt.valueint)

/-- `csy`, with its default. -/
def consistency (grp : Obj) : Int := ((grp.get .csy).map Json.valueint).getD csyAbandonMember

/-- The check of `csy`. -/
def checkCsy (grp : Obj) : Except Resp Unit :=
  if consistency grp < 0 ∨ 3 < consistency grp then .error (handleError .badRequest "`csy` is invalid") else .ok ()

/-- The check of `gn`. -/
def checkGn (grp : Obj) : Except Resp Unit :=
  match grp.get .gn with
  | none => .ok ()
  | some gn => match gn.valuestring with
    | none => .error (handleError .badRequest "`gn` should be string")
    | some name =>
      if isBlank name then .error (handleError .badRequest "`gn` should not be empty")
      else if 30 < name.length then .error (handleError .badRequest "`gn` is too long")
      else .ok ()

/-- The list of members is an array, where it is given. -/
def checkMid (grp : Obj) : Except Resp Unit :=
  if (grp.get .mid).all Json.isArray then .ok () else .error (handleError .badRequest "`mid` should be array")

/-- The check of `macp` in a create request; an empty list is reported and let pass. -/
def checkMacp (now : CStr) (s : Server) (grp : Obj) : Except Resp Unit :=
  match grp.get .macp with
  | none => .ok ()
  | some macp =>
    if !macp.isArray then .error (handleError .badRequest "`macp` should be array")
    else if macp.items = [] then .ok ()
    else validateAcpi now s macp .create

/-- The checks of `validate_grp` before `macp` is looked up. -/
def checkGrpNames (grp : Obj) : Except Resp Unit := do
  checkGn grp
  checkMid grp
  if (grp.get .mnm).any fun mnm => decide (mnm.valueint < ((grp.arr .mid).length : Int)) then
    .error (handleError .maxNumberOfMemberExceeded "`mnm` is less than `mid` size")

/-- The checks of `validate_grp` that a group with `mtv` true does not go through, up to the members. -/
def checkGrp (now : CStr) (s : Server) (grp : Obj) : Except Resp Unit := do
  checkGrpNames grp
  checkMacp now s grp
  match grp.get .acpi with
  | none => .ok ()
  | some acpi => validateAcpi now s acpi .create

/-- What the lookups of `checkGrp` leave, where it refuses the group. -/
def afterGrp (now : CStr) (s : Server) (grp : Obj) : Server :=
  match checkMacp now s grp with
  | .error _ => s.afterChecks now (checkGrpNames grp) (grp.get .macp)
  | .ok () => s.afterChecks now (checkGrpNames grp) (grp.get .acpi)

/-- The members of a new group; those that pass are listed and the group is valid. -/
def checkedGrp (g : GrpEnv) (s : Server) (grp : Obj) (mt : Int) : Option (Server × Except Resp Obj) :=
  (validateGrpMember g g.depth s grp (consistency grp) mt).bind fun r => match r with
    | .deep => none
    | .refused rsc s => some (s, .error (handleError rsc "GRP member is invalid"))
    | .next c => some (c.server, .ok (validateAa .create (storeMembers (c.grp.add .mtv (.bool true)) c.final) .grp))

/-- `validate_grp`, from the object with the general attributes. -/
def validateGrp (g : GrpEnv) (s : Server) (grp : Obj) : Option (Server × Except Resp Obj) :=
  match (do validateMandatoryAttrs .grp grp .create; checkCsy grp) with
  | .error r => some (s, .error r)
  | .ok () =>
    if (grp.get .mtv).any Json.isTrue then some (s, .ok (memberType grp).1)
    else match checkGrp g.now s grp with
      | .error r => some (afterGrp g.now s grp, .error r)
      | .ok () => checkedGrp g s (memberType grp).1 (memberType grp).2

/-! ## Membership -/

namespace Server

/-- A member gets the group on its `memberOf` list, in memory and in its row. -/
def joinGroup (now grpUri : CStr) (s : Server) (mid : Json) : Server :=
  match mid.valuestring with
  | none => s
  | some addr =>
    let (s, p) := s.findRtnode now addr
    match p.deref s with
    | none => s
    | some m =>
      if m.memberOf.contains grpUri then s
      else
        let memberOf := m.memberOf ++ [grpUri]
        let s := s.setMemberOf p memberOf
        match m.ri with
        | none => s
        | some ri => { s with db := s.db.dbUpdateResource [(.memberOf, .arr (memberOf.map .str))] ri }

/-- `set_grp_member`. There is no answer when the lookups of the members remove the group. -/
def setGrpMember (now : CStr) (s : Server) (grp : RTNode) : Option Server :=
  let s := (grp.obj.arr .mid).foldl (joinGroup now grp.uri) s
  (s.node? grp.id).map fun _ => s

/-- A member of the request that is not in `final_mid` loses what the request names the group by. -/
def leaveUnlisted (now grpAddr : CStr) (final : List CStr) (s : Server) (mid : Json) : Server :=
  match mid.valuestring with
  | none => s
  | some addr =>
    if final.contains addr then s
    else
      let (s, p) := s.findRtnode now addr
      match p.deref s with
      | none => s
      | some m => s.setMemberOf p (m.memberOf.erase grpAddr)

end Server

/-! ## Create -/

/-- `cnm`: the number of members listed. -/
def addCnm (grp : Obj) : Obj := grp.add .cnm (.int (grp.arr .mid).length)

namespace Server

/-- `create_grp`. There is no answer when the lookups of the members remove the parent. -/
def createGrp (g : GrpEnv) (req : Req) (s : Server) (parent : RTNode) : Option (Server × Resp) := do
  let (grp, n) ← addGeneralAttribute g.toEnv req.pc parent.obj .grp s.riCount
  let s := { s with riCount := n }
  let (s, checked) ← validateGrp g s grp
  match checked with
  | .error r => return (s, r)
  | .ok grp => match assignCreator req grp with
    | .error r => return (s, r)
    | .ok grp =>
      let _ ← s.node? parent.id
      let (s', r) ← s.storeResource parent (addCnm (announceAt g.toEnv grp)) .grp
      match s'.node? s.nextId with
      | none => return (s', r)
      | some node => if r.rsc = .created then (s'.setGrpMember g.now node).map fun s => (s, r) else return (s', r)

end Server

/-! ## Update -/

/-- The attributes `update_grp` refuses. -/
def grpInvalidKeys : List Attr := [.ty, .pi, .ri, .rn, .ct, .mtv]

/-- The checks of `mnm` in an update: the limit that will hold, against the members of the body and the
number of members there are. -/
def checkMnm (old body : Obj) : Option (Except Resp Unit) :=
  match body.get .mnm with
  | some mnm =>
    if mnm.valueint < (body.arr .mid).length then
      some (.error (handleError .maxNumberOfMemberExceeded "`mnm` is less than `mid` size"))
    else (old.get .cnm).map fun cnm =>
      if mnm.valueint < cnm.valueint then
        .error (handleError .maxNumberOfMemberExceeded "`mnm` can't be smaller than `cnm` size")
      else .ok ()
  | none =>
    if (old.get .mnm).any fun mnm => decide (mnm.valueint < ((body.arr .mid).length : Int)) then
      some (.error (handleError .maxNumberOfMemberExceeded "`mnm` is less than `mid` size"))
    else some (.ok ())

/-- The checks of `validate_grp_update` before `acpi` is looked up. -/
def checkGrpUpdateNames (body : Obj) : Except Resp Unit := do
  validateMandatoryAttrs .grp body .update
  if body.has .acpi ∧ 1 < body.length then
    .error (handleError .badRequest "`acpi` should be only attribute when updating")

/-- The checks of `validate_grp_update` up to `mnm`. -/
def checkGrpUpdate (now : CStr) (s : Server) (body : Obj) : Except Resp Unit := do
  checkGrpUpdateNames body
  match body.get .acpi with
  | none => .ok ()
  | some acpi => validateAcpi now s acpi .update
  if body.has .mt then .error (handleError .badRequest "`mt` is not updatable")
  if body.has .csy then .error (handleError .badRequest "`csy` is not updatable")
  checkMid body

/-- `macp` in an update; a null one is dropped from the body. -/
def updateMacp (now : CStr) (s : Server) (body : Obj) : Except Resp Obj :=
  match body.get .macp with
  | none => .ok body
  | some macp => match validateAcpi now s macp .update with
    | .error r => .error { r with rsc := .badRequest }
    | .ok () => .ok (if macp.items = [] then body.del .macp else body)

/-- The members of an update, checked with the group's own type and strategy. Members of the request that
are not listed then lose the group. -/
def updateMembers (g : GrpEnv) (req : Req) (s : Server) (old body : Obj) : Option (Server × Except Resp Obj) :=
  if body.has .mid then
    (validateGrpMember g g.depth s body (consistency old) (((old.get .mt).map Json.valueint).getD 0)).bind fun r =>
      match r with
      | .deep => none
      | .refused rsc s => some (s, .error (handleError rsc "GRP member is invalid"))
      | .next c => some ((body.arr .mid).foldl (Server.leaveUnlisted g.now req.target c.final) c.server,
          .ok (storeMembers c.grp c.final))
  else some (s, .ok body)

/-- `validate_grp_update`, up to `validate_aa`: `acpi` stands alone, and `macp` comes after the other checks. -/
def validateGrpUpdate (g : GrpEnv) (req : Req) (s : Server) (old : Obj) : Option (Server × Except Resp Obj) :=
  match checkGrpUpdate g.now s req.pc with
  | .error r => some (s.afterChecks g.now (checkGrpUpdateNames req.pc) (req.pc.get .acpi), .error r)
  | .ok () => (checkMnm old req.pc).bind fun ok => match ok with
    | .error r => some (s, .error r)
    | .ok () => match updateMacp g.now s req.pc with
      | .error r => some (s.afterAcpi g.now (req.pc.get .macp), .error r)
      | .ok body => updateMembers g req s old body

/-- The group's own count of the members of an update. -/
def countMembers (old body : Obj) : Obj :=
  if body.has .mid then
    match old.get .cnm with
    | none => old
    | some cnm => old.set .cnm (cnm.setIntValue (body.arr .mid).length)
  else old

namespace Server

/-- `update_grp`. There is no answer when the lookups of the members remove the group. -/
def updateGrp (g : GrpEnv) (kept : Json → List Json) (req : Req) (s : Server) (target : RTNode) :
    Option (Server × Resp) :=
  if grpInvalidKeys.any (fun k => req.pc.has k) then
    some (s, handleError .badRequest "\x7b\"m2m:dbg\": \"unsupported attribute on update\"\x7d")
  else do
    let (s, checked) ← validateGrpUpdate g req s target.obj
    match checked with
    | .error r => return (s, r)
    | .ok body =>
      let _ ← s.node? target.id
      let ri ← target.ri
      let (body, cleared) := processAnncAtUpdate kept target.obj (validateAa .update body .grp)
      let db := if cleared then s.db.dbUpdateResource [(.at, .null)] ri else s.db
      let body' := body.add .lt (.str g.now)
      let obj := (countMembers target.obj body).updateResource body'
      let ri ← obj.str .ri
      let s := { s with db := db.dbUpdateResource body' ri }.setObj target.id obj
      (s.setGrpMember g.now { target with obj := obj }).map fun s => (s, done .updated)

end Server

end TinyIoT
