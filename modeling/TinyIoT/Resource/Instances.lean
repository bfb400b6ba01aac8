/-
How a container accounts for its content instances: `update_cnt_cin`, which adjusts `cni` and `cbs`
when an instance comes or goes and removes the cached instances that are older than `mia`, and
`delete_cin_under_cnt_mni_mbs`, which evicts instances from the database until the container is
within `mni` and `mbs`. A dereference of a missing attribute gives `none`.
-/
import TinyIoT.Server.Lookup

namespace TinyIoT

/-- What a request finds outside the server's own state: the clock, and the answers of remote CSEs. -/
structure Env where
  /-- `get_local_time(0)`. -/
  now : CStr
  /-- `get_local_time(DEFAULT_EXPIRE_TIME)`. -/
  expireAt : CStr
  /-- `time(NULL)`. -/
  time : Int
  /-- `timegm` of what `strptime` reads in a creation time. -/
  created : CStr → Int
  /-- `create_remote_annc` for an entry of `at`: the address of the announced resource, if one was made. -/
  remoteAnnc : CStr → Option CStr

/-! ## Eviction -/

/-- A limit of the container, or its default when the attribute is absent. -/
def limit (cnt : Obj) (k : Attr) (default : Int) : Int :=
  match cnt.get k with
  | none => default
  | some j => j.valueint

/-- The loop of `delete_cin_under_cnt_mni_mbs` over the list from the database. -/
def evictLoop (mni mbs : Int) : List RTNode → Db → Int → Int → Option (Db × Int × Int)
  | [], db, cni, cbs => some (db, cni, cbs)
  | head :: right, db, cni, cbs =>
    if (0 ≤ mni ∧ mni < cni) ∨ (0 ≤ mbs ∧ mbs < cbs) then do
      let cs ← head.obj.get .cs
      evictLoop mni mbs right (db.dbDeleteOnem2mResource head) (cInt (cni - 1)) (cInt (cbs - cs.valueint))
    else some (db, cni, cbs)

/-- The first removal of `delete_cin_under_cnt_mni_mbs`: one instance when the container is exactly one
above `mni`. -/
def evictOne (cntRi : CStr) (mni : Int) (db : Db) (cni cbs : Int) : Db × Int × Int :=
  if cni = mni + 1 then
    let (db', cs) := db.dbDeleteOneCinMni cntRi
    (db', cInt (cni - 1), cInt (cbs - cs))
  else (db, cni, cbs)

/-- The removals of `delete_cin_under_cnt_mni_mbs`: the rows and the counters they leave. -/
def evictRows (cntRi : CStr) (mni mbs : Int) (db : Db) (cni cbs : Int) : Option (Db × Int × Int) :=
  let (db, cni, cbs) := evictOne cntRi mni db cni cbs
  if mni < cni ∨ mbs < cbs then evictLoop mni mbs (db.dbGetCinRtnodeList cntRi) db cni cbs
  else some (db, cni, cbs)

/-- `delete_cin_under_cnt_mni_mbs`: the container's object and the rows it leaves. -/
def deleteCinUnderCntMniMbs (cnt : Obj) (db : Db) : Option (Obj × Db) := do
  let cniObj ← cnt.get .cni
  let cbsObj ← cnt.get .cbs
  let mni := limit cnt .mni defaultMaxNrInstances
  let mbs := limit cnt .mbs defaultMaxByteSize
  if cniObj.valueint ≤ mni ∧ cbsObj.valueint ≤ mbs then return (cnt, db)
  let ri ← cnt.str .ri
  let (db, cni, cbs) ← evictRows ri mni mbs db cniObj.valueint cbsObj.valueint
  let cnt := (cnt.set .cni (cniObj.assignInt cni)).set .cbs (cbsObj.assignInt cbs)
  let st ← cnt.get .st
  let cnt := cnt.set .st (st.setIntValue (cInt (st.valueint + 1)))
  return (cnt, db.dbUpdateResource cnt ri)

/-! ## `update_cnt_cin` -/

/-- The counters of `update_cnt_cin`: `cni`, `cbs` and the state tag. -/
def bumpCnt (cnt cin : Obj) (sign : Int) : Option Obj := do
  let cni ← cnt.get .cni
  let cbs ← cnt.get .cbs
  let st ← cnt.get .st
  let cs ← cin.get .cs
  let cnt := cnt.set .cni (cni.setIntValue (cInt (cni.valueint + sign)))
  let cnt := cnt.set .cbs (cbs.setIntValue (cInt (cbs.valueint + sign * cs.valueint)))
  return cnt.set .st (st.setIntValue (cInt (st.valueint + 1)))

/-- The instance was created more than `mia` seconds before the clock. -/
def tooOld (env : Env) (mia : Int) (n : RTNode) : Bool :=
  mia < env.time - ((n.obj.str .ct).map env.created).getD 0

/-- The instances in memory that are older than `mia`, at most 128 of them. -/
def expiredCins (env : Env) (mia : Int) (kids : List RTNode) : Option (List RTNode) :=
  let cins := kids.filter fun n => n.ty = .cin
  if cins.all fun n => (n.obj.str .ct).isSome then
    some ((cins.filter (tooOld env mia)).take 128)
  else none

namespace Server

/-- `update_cnt_cin` with sign -1: an instance goes. A NULL container is left alone. -/
def dropCnt (s : Server) (cnt : Ptr) (cin : Obj) : Option Server :=
  match cnt.deref s with
  | none => some s
  | some n => (bumpCnt n.obj cin (-1)).map (s.persist cnt)

/-- The removal of the expired instances, one after another. -/
def dropExpired (cnt : Ptr) : List RTNode → Server → Option Server
  | [], s => some s
  | n :: rest, s => do
    let s ← s.dropCnt cnt n.obj
    dropExpired cnt rest ({ s with db := s.db.dbDeleteOnem2mResource n }.freeRtnode n.id)

/-- The `mia` part of `update_cnt_cin`. -/
def expireByMia (env : Env) (s : Server) (cnt : Ptr) (n : RTNode) : Option Server :=
  match n.obj.get .mia with
  | none => some s
  | some mia =>
    if 0 < mia.valueint then do
      let kids := match cnt with
        | .inTree i => (s.children i).roots
        | _ => []
      let expired ← expiredCins env mia.valueint kids
      dropExpired cnt expired s
    else some s

/-- `update_cnt_cin` with sign 1: an instance is about to be stored. -/
def addCnt (env : Env) (s : Server) (cnt : Ptr) (cin : Obj) : Option Server := do
  let n ← cnt.deref s
  let s ← s.expireByMia env cnt n
  let n ← cnt.deref s
  let o ← bumpCnt n.obj cin 1
  let (o, db) ← deleteCinUnderCntMniMbs o s.db
  return { s with db := db }.persist cnt o

end Server

end TinyIoT
