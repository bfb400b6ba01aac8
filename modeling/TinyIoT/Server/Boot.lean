/-
The state after the first start (`init_server`, `bootstrap_cse`): the CSEBase and the default access
control policy below it, in the tree and in the database.
-/
import TinyIoT.Resource.General

namespace TinyIoT

/-- `ALL_ACOP`. -/
def allAcop : Int := 63

/-- `DEFAULT_ACOP`: CREATE. -/
def defaultAcop : Int := 1

/-- The attributes `init_cse` gives the CSEBase that the server reads again. -/
def initCse (env : Env) : Obj :=
  [(.ct, .str env.now), (.ri, .str cseBaseRi), (.lt, .str env.now), (.rn, .str cseBaseName),
   (.acpi, .arr [.str (cseBaseName ++ "/defaultACP".toList)]), (.pi, .str []), (.ty, .int ResourceType.cse.code),
   (.uri, .str cseBaseName), (.csi, .str ('/' :: cseBaseRi)), (.rr, .bool true)]

/-- One access control rule. -/
def acrEntry (acor : List CStr) (acop : Int) : Json :=
  .obj [(.acor, .arr (acor.map .str)), (.acop, .int acop)]

/-- `init_acp`. -/
def initAcp (env : Env) (n : Nat) : Obj × Nat :=
  let (ri, n) := resourceIdentifier .acp env.now n
  ([(.ct, .str env.now), (.lt, .str env.now), (.ri, .str ri), (.pi, .str cseBaseRi),
    (.rn, .str "defaultACP".toList),
    (.pv, .obj [(.acr, .arr [acrEntry ["all".toList] defaultAcop,
      acrEntry ["/id-in".toList, "/id-mn".toList] allAcop])]),
    (.pvs, .obj [(.acr, .arr [acrEntry [adminAeId] allAcop])]),
    (.ty, .int ResourceType.acp.code), (.et, .str env.expireAt)], n)

/-- `bootstrap_cse` on an empty database. -/
def boot (env : Env) : Option Server := do
  let cse := initCse env
  let db ← Db.dbStoreResource [] cse cseBaseName
  let cb ← createRtnode 0 cse .cse
  let (acp, n) := initAcp env 0
  let db ← db.dbStoreResource acp (cseBaseName ++ "/defaultACP".toList)
  let node ← createRtnode 1 acp .acp
  let s : Server := ⟨.node cb .nil .nil, [], db, 2, n⟩
  return s.addChildResourceTree cb node

/-- The first state: two nodes without subscriptions and their rows. -/
theorem boot_some {env : Env} {s : Server} (h : boot env = some s) :
    ∃ cb acp r q, s.tree = .node cb (.node acp .nil .nil) .nil ∧ s.csrList = [] ∧ s.db = [r, q] ∧ s.nextId = 2 ∧
      cb.id = 0 ∧ cb.ty = .cse ∧ cb.rn = cseBaseName ∧ cb.uri = cseBaseName ∧ cb.subs = [] ∧ cb.subCnt = 0 ∧
      cb.memberOf = [] ∧ cb.ri = some cseBaseRi ∧
      acp.id = 1 ∧ acp.ty = .acp ∧ acp.rn = "defaultACP".toList ∧ acp.subs = [] ∧ acp.subCnt = 0 ∧
      acp.memberOf = [] ∧ r.ty = .cse ∧ r.obj.get .uri = none ∧ q.ty = .acp ∧ q.obj.get .uri = none := by
  cases h
  refine ⟨_, _, _, _, rfl, rfl, rfl, rfl, rfl, rfl, rfl, rfl, rfl, rfl, rfl, rfl, rfl, rfl, rfl, rfl, rfl, rfl, rfl,
    ?_, rfl, ?_⟩
  · exact (Assoc.get_drop _ _ _).trans (if_pos rfl)
  · exact (Assoc.get_drop _ _ _).trans (if_pos rfl)

/-- The state after the first start, at some time. -/
def Booted (s : Server) : Prop := ∃ env, boot env = some s

/-! ## A first day -/

/-- A day, a year before resources made on it expire. -/
def firstDay : Env where
  now := "20240101T000000".toList
  expireAt := "20250101T000000".toList
  time := 0
  created := fun _ => 0
  remoteAnnc := fun _ => none

/-- A request of the administrator to this address. -/
def adminReq (op : Operation) (target : String) (ty : ResourceType) (pc : Obj) : Req :=
  { op := op, fr := adminAeId, target := target.toList, ty := ty.code, pc := pc }

end TinyIoT
