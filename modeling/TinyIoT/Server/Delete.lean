/-
Deletion (`onem2m.c`): `delete_process`, which visits a subtree from its leaves and undoes what each
resource left elsewhere (counters of its parent, subscription and CSR lists, group membership), the
notifications it sends through `notify_via_sub`, and `delete_onem2m_resource`.
-/
import TinyIoT.Resource.Instances

namespace TinyIoT

/-- The request primitive, as far as the handlers read it; `pc` is the resource object in the body, and `named` the name it
has there where that is not the key of `ty`, as with a flexContainer. -/
structure Req where
  op : Operation
  fr : CStr
  target : CStr
  ty : Int := 0
  rvi : Int := 3
  ip : Option CStr := none
  pc : Obj := []
  named : Option CStr := none

/-- The key of the resource object in the body. -/
def Req.key (req : Req) : CStr :=
  req.named.getD (((ResourceType.ofCode req.ty).map getResourceKey).getD "general").toList

/-- What the body has under the key of a type. -/
def Req.content (req : Req) (ty : ResourceType) : Obj := if req.key = (getResourceKey ty).toList then req.pc else []

/-! ## Notification -/

/-- `isAptEnc`: every attribute of `atr` is in what the request has for the type of its target, and `chty`, where present,
has the type of the request. -/
def isAptEnc (req : Req) (target : ResourceType) (sub : RTNode) : Bool :=
  match sub.obj.get .enc with
  | some (.obj enc) =>
    (Obj.arr enc .atr).all (fun j => match j.valuestring with
      | none => false
      | some name => (req.content target).any fun e => e.1.name.map Char.toLower = name.map Char.toLower)
    && (match Obj.get enc .chty with
      | none => true
      | some chty => chty.items.any fun j => j.valueint = req.ty)
  | _ => true

/-- The event types of `enc`. -/
def encNet (sub : RTNode) : List Json :=
  match sub.obj.get .enc with
  | some (.obj enc) => match Obj.get enc .net with
    | some (.arr l) => l
    | _ => []
  | _ => []

/-- `sub_has_net`. -/
def subHasNet (sub : RTNode) (net : Int) : Bool :=
  (encNet sub).any fun j => j.isNumber && j.valueint = net

/-- The object of a group without its first member `ri`, its count adjusted. -/
def dropMember (ri : CStr) (grp : Obj) : Obj :=
  match grp.get .mid with
  | some (.arr mid) =>
    if mid.any (Json.isStr ri) then
      let mid' := mid.eraseP (Json.isStr ri)
      let grp := grp.set .mid (.arr mid')
      match grp.get .cnm with
      | none => grp
      | some cnm => grp.set .cnm (cnm.setIntValue mid'.length)
    else grp
  | _ => grp

/-- A group that loses a member keeps its other attributes. -/
theorem get_dropMember {ri : CStr} {o : Obj} {k : Attr} (h1 : k ≠ .mid) (h2 : k ≠ .cnm) :
    (dropMember ri o).get k = o.get k := by
  unfold dropMember
  split
  · split
    · dsimp only
      split
      · exact Assoc.get_set_ne (Ne.symm h1)
      · show Assoc.get _ _ = _
        rw [Assoc.get_set_ne (Ne.symm h2), Assoc.get_set_ne (Ne.symm h1)]
    · rfl
  · rfl

namespace Server

/-- One group of a `memberOf` list loses the member `ri` (`delete_process`, last loop). -/
def leaveGroup (now : CStr) (ri : CStr) (s : Server) (grpUri : CStr) : Server :=
  let (s, p) := s.findRtnode now grpUri
  match p.deref s with
  | none => s
  | some grp => s.persist p (dropMember ri grp.obj)

/-- The groups a resource is a member of drop it. -/
def leaveGroups (now : CStr) (s : Server) (n : RTNode) : Server :=
  match n.ri with
  | none => s
  | some ri => n.memberOf.foldl (leaveGroup now ri) s

/-- A resource that is in no group leaves none. -/
theorem leaveGroups_nil {now : CStr} {n : RTNode} (s : Server) (h : n.memberOf = []) : s.leaveGroups now n = s := by
  unfold leaveGroups
  rw [h]
  cases n.ri <;> rfl

/-- `delete_process`, `db_delete_onem2m_resource` and `free_rtnode` of an exhausted subscription. -/
def removeSub (now : CStr) (s : Server) (sub : RTNode) : Server :=
  let s := match s.parentId sub.id with
    | none => s
    | some j => s.detachSubs j sub.id
  let s := s.leaveGroups now sub
  { s with db := s.db.dbDeleteOnem2mResource sub }.freeRtnode sub.id

/-- One subscription of the list in `notify_via_sub`: what sending does to its `exc`. -/
def notifySub (now : CStr) (req : Req) (target : ResourceType) (net : Int) (s : Server) (subId : Nat) : Server :=
  match s.node? subId with
  | none => s
  | some sub =>
    if !isAptEnc req target sub || !subHasNet sub net then s
    else match sub.obj.get .exc with
      | none => s
      | some exc =>
        let left := exc.valueint - 1
        let obj := sub.obj.set .exc (exc.setIntValue left)
        if left = 0 then (s.setObj subId obj).removeSub now sub
        else s.persist (.inTree subId) obj

/-- `notify_via_sub` for a deleted resource: the subscriptions of its parent hear of it. -/
def notifyDelete (now : CStr) (req : Req) (s : Server) (p : Ptr) (n : RTNode) : Server :=
  if n.ty = .sub then s
  else match (p.parent s).deref s with
    | none => s
    | some parent => if 0 < parent.subCnt then parent.subs.foldl (notifySub now req n.ty 4) s else s

/-! ## `delete_process` -/

end Server

/-- The value of an attribute that is a number. -/
def Obj.num (o : Obj) (k : Attr) : Option Int :=
  match o.get k with
  | some j => if j.isNumber then some j.valueint else none
  | none => none

/-- A number is assigned; a value of another kind is replaced. -/
def Obj.putNum (o : Obj) (k : Attr) (n : Int) : Obj :=
  match o.num k with
  | some _ => o.set k (.int n)
  | none => (o.del k).add k (.int n)

/-- A string is replaced or added. -/
def Obj.putStr (o : Obj) (k : Attr) (v : CStr) : Obj := if o.has k then o.set k (.str v) else o.add k (.str v)

/-- The object of a time series after one of its instances is counted out, never below zero. -/
def countOutTsi (now : CStr) (ts tsi : Obj) : Obj :=
  let cs := (tsi.num .cs).getD 0
  let cni := ((ts.num .cni).map fun n => max 0 (n - 1)).getD 0
  let cbs := ((ts.num .cbs).map fun n => max 0 (n - cs)).getD 0
  ((ts.putNum .cni cni).putNum .cbs cbs).putStr .lt now

namespace Server

/-- Assign to `rtnode->memberOf`. -/
def setMemberOf (s : Server) (p : Ptr) (l : List CStr) : Server :=
  match p with
  | .inTree i => s.modifyNode i fun n => { n with memberOf := l }
  | _ => s

/-- A member loses the group from its `memberOf` list, in memory and in its row. -/
def dropMembership (now : CStr) (grpUri : CStr) (s : Server) (mid : Json) : Server :=
  match mid.valuestring with
  | none => s
  | some addr =>
    let (s, p) := s.findRtnode now addr
    match p.deref s with
    | none => s
    | some m =>
      let memberOf := m.memberOf.erase grpUri
      let s := s.setMemberOf p memberOf
      match m.ri with
      | none => s
      | some ri => { s with db := s.db.dbUpdateResource [(.memberOf, .arr (memberOf.map .str))] ri }

/-- The counters of a time series when one of its instances goes. -/
def dropTsi (now : CStr) (s : Server) (parent : Ptr) (tsi : Obj) : Server :=
  match parent.deref s with
  | none => s
  | some p => if p.ty ≠ .ts then s else s.persist parent (countOutTsi now p.obj tsi)

/-- The CSEBase forgets a registered CSE. -/
def dropDcse (s : Server) (csi : CStr) : Server :=
  match s.tree with
  | .nil => s
  | .node cb _ _ => match cb.obj.get .dcse with
    | some (.arr l) => s.setObj cb.id (cb.obj.set .dcse (.arr (l.eraseP (Json.isStr csi))))
    | _ => s

/-- `increment_parent_statetag`. -/
def incrementParentStatetag (now : CStr) (s : Server) (parent : Ptr) : Server :=
  match parent.deref s with
  | none => s
  | some p =>
    if p.ty ≠ .fcnt then s
    else match p.obj.get .st with
      | some st =>
        if st.isNumber then
          let v := Json.int (cInt (st.valueint + 1))
          let s := s.assign parent (p.obj.set .st v)
          match p.ri with
          | none => s
          | some ri => { s with db := s.db.dbUpdateResource [(.st, v), (.lt, .str now)] ri }
        else s
      | none => s

/-- The switch of `delete_process` on the type of the resource. -/
def deleteSwitch (now : CStr) (s : Server) (p : Ptr) (n : RTNode) : Option Server :=
  match n.ty with
  | .cin => s.dropCnt (p.parent s) n.obj
  | .fcin => some (s.adjustFcnt (p.parent s) n.obj (-1))
  | .sub => match p.parent s, p with
    | .inTree j, .inTree i => some (s.detachSubs j i)
    | _, _ => some s
  | .csr => do
    let csi ← n.obj.str .csi
    let s := s.dropDcse csi
    match p with
    | .inTree i => return s.detachCsrlist i
    | _ => return s
  | .grp => some ((n.obj.arr .mid).foldl (dropMembership now n.uri) s)
  | .tsi => some (s.dropTsi now (p.parent s) n.obj)
  | _ => some s

/-- `delete_process` for one resource, after its children. -/
def deleteOne (now : CStr) (req : Req) (s : Server) (p : Ptr) : Option Server :=
  match p.deref s with
  | none => some s
  | some n => do
    let s ← s.deleteSwitch now p n
    let s := s.leaveGroups now n
    let s := s.notifyDelete now req p n
    if (n.ty = .cnt ∨ n.ty = .fcnt) then return s.incrementParentStatetag now (p.parent s)
    return s

/-- The addresses `delete_process` visits below a node and the node itself, children first. -/
def deleteOrder (s : Server) : Ptr → List Ptr
  | .inTree i => (s.children i).postorder.map (fun n => .inTree n.id) ++ [.inTree i]
  | p => [p]

/-- `delete_process`. -/
def deleteProcess (now : CStr) (req : Req) (s : Server) (p : Ptr) : Option Server :=
  (s.deleteOrder p).foldlM (fun s q => s.deleteOne now req q) s

/-- The end of `delete_onem2m_resource` for a content instance: the cached latest one takes over the
object of the next latest, any other node is freed. -/
def freeCin (s : Server) (p : Ptr) (n : RTNode) : Server :=
  if n.rn = "la".toList then
    match p, (p.parent s).deref s with
    | .inTree i, some cnt => match cnt.ri.bind (s.db.dbGetLaol .cin · true) with
      | none => s.freeRtnode i
      | some o => s.setObj i o
    | _, _ => s.freePtr p
  else s.freePtr p

/-- The end of `delete_onem2m_resource` for a flexContainer instance: the node of the tree with its
`ri` goes as well. -/
def freeFcin (s : Server) (p : Ptr) (n : RTNode) (rvi : Int) : Server :=
  if rvi < 4 then s.freePtr p
  else
    let s := match n.ri, p.parent s with
      | some ri, .inTree j =>
        let twin := (s.children j).roots.find? fun m : RTNode =>
          m.ty = ResourceType.fcin && m.ri = some ri && (match p with
            | .inTree i => m.id ≠ i
            | _ => true)
        match twin with
        | none => s
        | some m => s.freeRtnode m.id
      | _, _ => s
    s.freePtr p

/-- `delete_onem2m_resource` once the privilege check has passed. -/
def deleteOnem2mResource (now : CStr) (req : Req) (s : Server) (p : Ptr) : Option (Server × Resp) :=
  match p.deref s with
  | none => none
  | some n =>
    if n.ty = .cse then some (s, handleError .operationNotAllowed "CSE can not be deleted")
    else do
      let s ← s.deleteProcess now req p
      let s := { s with db := s.db.dbDeleteOnem2mResource n }
      let s := match n.ty with
        | .cin => s.freeCin p n
        | .fcin => s.freeFcin p n req.rvi
        | _ => s.freePtr p
      return (s, done .deleted)

end Server

end TinyIoT
