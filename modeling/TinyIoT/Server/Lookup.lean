/-
Resource lookup (`rtManager.c`): by structured address with the database behind the tree, by resource
identifier, by the hybrid form of a parent identifier and a virtual name, and `find_rtnode`, which
picks one of the three by the shape of the address and removes what it finds expired.
-/
import Mathlib.Logic.Relation
import TinyIoT.Server.Db

namespace TinyIoT

/-! ## C string functions -/

/-- The tokens `strtok` cuts at slashes: the non-empty segments. -/
def tokens : CStr → List CStr
  | [] => []
  | c :: s =>
    if c = '/' then tokens s
    else if s.head? = none ∨ s.head? = some '/' then [c] :: tokens s
    else match tokens s with
      | [] => [[c]]
      | t :: ts => (c :: t) :: ts

/-- The text before the first occurrence of `pat`, and whether there is one (`strstr`). -/
def cutAt (pat : CStr) : CStr → CStr × Bool
  | [] => ([], pat.isPrefixOf [])
  | c :: s =>
    if pat.isPrefixOf (c :: s) then ([], true)
    else ((c :: (cutAt pat s).1), (cutAt pat s).2)

/-- The text before and after the first slash (`strchr`). -/
def cutSlash : CStr → Option (CStr × CStr)
  | [] => none
  | c :: s =>
    if c = '/' then some ([], s)
    else (cutSlash s).map fun p => (c :: p.1, p.2)

def isLatest (name : CStr) : Bool := name = "la".toList || name = "latest".toList

def isOldest (name : CStr) : Bool := name = "ol".toList || name = "oldest".toList

/-! ## By structured address -/

/-- The sibling with this name and its children. -/
def sibling? (name : CStr) : Forest RTNode → Option (RTNode × Forest RTNode)
  | .nil => none
  | .node a c s => if a.rn = name then some (a, c) else sibling? name s

/-- Where the path walk of `find_rtnode_by_rn` ends: at a node, or at the first token no sibling has,
with the node walked through last. -/
inductive Walk where
  | found (n : RTNode)
  | missed (parent : Option RTNode) (name : CStr) (rest : List CStr)

/-- The path walk over the tokens of an address. -/
def walk : Option RTNode → CStr → List CStr → Forest RTNode → Walk
  | parent, name, [], sibs => match sibling? name sibs with
    | none => .missed parent name []
    | some (n, _) => .found n
  | parent, name, name' :: rest, sibs => match sibling? name sibs with
    | none => .missed parent name (name' :: rest)
    | some (n, c) => walk (some n) name' rest c

namespace Server

/-- A node made from a row the database returned, hung under `parent`. -/
def looseNode (o : Option Obj) (ty : ResourceType) (parent : Ptr) : Ptr :=
  match o.bind (createRtnode 0 · ty) with
  | none => .null
  | some n => .loose n parent

/-- The database fallback of `find_rtnode_by_rn` for the instance type `ty` under `parent`. -/
def findInstance (s : Server) (parent : RTNode) (ty : ResourceType) (name addr : CStr) : Ptr :=
  let obj :=
    if isLatest name then parent.ri.bind (s.db.dbGetLaol ty · true)
    else if isOldest name then parent.ri.bind (s.db.dbGetLaol ty · false)
    else s.db.dbGetResourceByUri addr ty
  looseNode obj ty (.inTree parent.id)

/-- The first child of a container, when its object carries the name looked for. -/
def firstChildNamed (s : Server) (parent : RTNode) (name : CStr) : Option RTNode :=
  match s.children parent.id with
  | .nil => none
  | .node a _ _ => if a.obj.str .rn = some name then some a else none

/-- What `find_rtnode_by_rn` does when the walk stops below `parent` at `name`. -/
def findBelow (s : Server) (parent : RTNode) (name : CStr) (rest : List CStr) (addr : CStr) : Ptr :=
  match parent.ty with
  | .cnt => match s.firstChildNamed parent name with
    | some n => .inTree n.id
    | none => if rest = [] then s.findInstance parent .cin name addr else .null
  | .fcnt => if rest = [] then s.findInstance parent .fcin name addr else .null
  | .ts => if rest = [] then s.findInstance parent .tsi name addr else .null
  | _ => .null

/-- What the end of the walk gives. -/
def findFrom (s : Server) (addr : CStr) : Walk → Ptr
  | .found n => .inTree n.id
  | .missed none _ _ => .null
  | .missed (some parent) name rest => s.findBelow parent name rest addr

/-- `find_rtnode_by_rn`. -/
def findRtnodeByRn (s : Server) (addr : CStr) : Ptr :=
  match tokens addr with
  | [] => .null
  | name :: rest =>
    if name = ['-'] then
      match s.tree with
      | .nil => .null
      | .node _ c _ => match rest with
        | [] => match c with
          | .nil => .null
          | .node a _ _ => .inTree a.id
        | name' :: rest' => s.findFrom addr (walk none name' rest' c)
    else s.findFrom addr (walk none name rest s.tree)

/-! ## By identifier -/

/-- `rt_search_ri`: the first node in preorder with this `ri`. -/
def rtSearchRi (s : Server) (ri : CStr) : Option RTNode := s.tree.find? fun n => n.ri = some ri

/-- `find_rtnode_by_ri`: an identifier of a content instance is looked up in the database only, and
its parent is what its own uri resolves to. -/
def findRtnodeByRi (s : Server) (ri : CStr) : Ptr :=
  if "4-".toList.isPrefixOf ri then
    match (s.db.dbGetResource ri .cin).bind (createRtnode 0 · .cin) with
    | none => .null
    | some n => .loose n (s.findRtnodeByRn n.uri)
  else match s.rtSearchRi ri with
    | none => .null
    | some n => .inTree n.id

/-- The instance type a hybrid address reaches through `la` and `ol` of a parent of this type. -/
def instanceType : ResourceType → Option ResourceType
  | .cnt => some .cin
  | .fcnt => some .fcin
  | .ts => some .tsi
  | _ => none

/-- The child in memory with this name. -/
def findChild (s : Server) (p : Ptr) (name : CStr) : Ptr :=
  match p with
  | .inTree i => match sibling? name (s.children i) with
    | none => .null
    | some (a, _) => .inTree a.id
  | _ => .null

/-- Steps 3 to 5 of `find_rtnode_by_hybrid`: `la` and `ol` from the database, another name among the
children in memory. -/
def findVirtual (s : Server) (p : Ptr) (n : RTNode) (name : CStr) : Ptr :=
  match instanceType n.ty with
  | some ty =>
    if isLatest name then looseNode (n.ri.bind (s.db.dbGetLaol ty · true)) ty p
    else if isOldest name then looseNode (n.ri.bind (s.db.dbGetLaol ty · false)) ty p
    else s.findChild p name
  | none => s.findChild p name

/-- `find_rtnode_by_hybrid`: parent identifier, slash, virtual name. -/
def findRtnodeByHybrid (s : Server) (addr : CStr) : Ptr :=
  match cutSlash addr with
  | none => .null
  | some (parentRi, rest) =>
    if parentRi = [] ∨ rest = [] then .null
    else
      let (name, suffix) := (cutSlash rest).getD (rest, [])
      let p := s.findRtnodeByRi parentRi
      match p.deref s with
      | none => .null
      | some n =>
        if name = "fopt".toList ∨ name = "sfop".toList then
          if n.ty = .grp then p else .null
        else if suffix ≠ [] then .null
        else s.findVirtual p n name

/-! ## `find_rtnode` -/

/-- The address starts with the name of the CSEBase, or with its short form, and goes on below it. -/
def isStructured (addr : CStr) : Bool :=
  (cseBaseName ++ ['/']).isPrefixOf addr || ['-', '/'].isPrefixOf addr

/-- The resolution of `find_rtnode`, before the test for expiry. -/
def resolve (s : Server) (addr : CStr) : Ptr :=
  if addr = cseBaseName ∨ addr = ['-'] then
    match s.tree with
    | .nil => .null
    | .node a _ _ => .inTree a.id
  else if isStructured addr then s.findRtnodeByRn (cutAt "/fopt".toList addr).1
  else if '/' ∈ addr then s.findRtnodeByHybrid addr
  else s.findRtnodeByRi addr

/-- The address is the CSEBase itself, which `find_rtnode` returns without looking at its `et`. -/
def isBase (addr : CStr) : Bool := addr = cseBaseName || addr = ['-']

end Server

/-- `isExpired`: the expiration time lies before the clock. -/
def isExpired (now : CStr) (n : RTNode) : Bool :=
  match n.obj.str .et with
  | none => false
  | some et => strLt et now

/-- The counters of an aggregate after one instance comes or goes (`update_fcnt_fcin`): unchanged
when a counter or the instance's size is missing. -/
def updateFcntFcin (fcnt fcin : Obj) (sign : Int) : Option Obj := do
  let cni ← fcnt.get .cni
  let cbs ← fcnt.get .cbs
  let cs ← fcin.get .cs
  let fcnt := fcnt.set .cni (cni.setIntValue (cInt (cni.valueint + sign)))
  return fcnt.set .cbs (cbs.setIntValue (cInt (cbs.valueint + sign * cs.valueint)))

namespace Server

/-- Assign to the object a pointer reaches; a node outside the tree is not kept. -/
def assign (s : Server) (p : Ptr) (o : Obj) : Server :=
  match p with
  | .inTree i => s.setObj i o
  | _ => s

/-- Assign to the object of a node and write it to its row (`db_update_resource` of the whole object). -/
def persist (s : Server) (p : Ptr) (o : Obj) : Server :=
  let s := s.assign p o
  match o.str .ri with
  | none => s
  | some ri => { s with db := s.db.dbUpdateResource o ri }

/-- Writing back changes the tree as the assignment does. -/
theorem persist_tree (s : Server) (i : Nat) (o : Obj) : (s.persist (.inTree i) o).tree = (s.setObj i o).tree := by
  unfold persist assign
  dsimp only
  split <;> rfl

/-- `update_fcnt_fcin` on the parent of an instance. -/
def adjustFcnt (s : Server) (parent : Ptr) (fcin : Obj) (sign : Int) : Server :=
  match parent.deref s with
  | none => s
  | some n => match updateFcntFcin n.obj fcin sign with
    | none => s
    | some o => s.persist parent o

@[simp] theorem assign_db (s : Server) (p : Ptr) (o : Obj) : (s.assign p o).db = s.db := by
  unfold assign
  split <;> rfl

/-- `free_rtnode` of what a pointer points to. -/
def freePtr (s : Server) : Ptr → Server
  | .inTree i => s.freeRtnode i
  | _ => s

/-- The expiry branch of `find_rtnode`: the row and the node go, with all below them, and the counters
of a flexContainer are adjusted; nothing else is told. -/
def expire (s : Server) (p : Ptr) (n : RTNode) : Server :=
  let s := if n.ty = .fcin then s.adjustFcnt (p.parent s) n.obj (-1) else s
  { s with db := s.db.dbDeleteOnem2mResource n }.freePtr p

/-- `find_rtnode` at the time `now`: an expired resource is removed and not returned. -/
def findRtnode (now : CStr) (s : Server) (addr : CStr) : Server × Ptr :=
  let p := s.resolve addr
  match p.deref s with
  | none => (s, .null)
  | some n => if !isBase addr && isExpired now n then (s.expire p n, .null) else (s, p)

/-- What `find_rtnode` returns. -/
def findNode (now : CStr) (s : Server) (addr : CStr) : Ptr := (s.findRtnode now addr).2

/-- What a number of lookups on the way leave of the server. -/
def LooksUp (now : CStr) : Server → Server → Prop :=
  Relation.ReflTransGen fun s s' => ∃ addr, s' = (s.findRtnode now addr).1

end Server

end TinyIoT
