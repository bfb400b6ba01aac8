/-
The state of the CSE: the resource tree in memory and the rows of the database. A node's address is
its `id`; the tree is the chain of `child` and `sibling_right` pointers. `create_rtnode`,
`add_child_resource_tree` and `free_rtnode` are modelled here with what they do to the nodes of the
tree.
-/
import TinyIoT.Base.Types
import TinyIoT.Lib.Forest

namespace TinyIoT

/-- `RTNode`, with its pointers to parent, child and siblings given by its place in the tree. -/
structure RTNode where
  id : Nat
  ty : ResourceType
  rn : CStr
  uri : CStr
  obj : Obj
  memberOf : List CStr := []
  /-- The nodes on the list `subs`, in order. -/
  subs : List Nat := []
  subCnt : Int := 0

/-- A row of the table `general` joined with the row of its type's table. -/
structure Row where
  uri : CStr
  ty : ResourceType
  obj : Obj

/-- The rows in the order of their database `id`. -/
abbrev Db := List Row

structure Server where
  /-- `rt->cb` and what is below it. -/
  tree : Forest RTNode
  /-- The nodes on `rt->csr_list`, in order. -/
  csrList : List Nat
  db : Db
  /-- The next unused node address. -/
  nextId : Nat
  /-- The static counter of `resource_identifier`. -/
  riCount : Nat

/-- An `RTNode *`: NULL, a node of the tree, or a node made from a database row that is not linked into
the tree but has its `parent` set. -/
inductive Ptr where
  | null
  | inTree (id : Nat)
  | loose (n : RTNode) (parent : Ptr)

namespace RTNode

/-- `get_ri_rtnode`. -/
def ri (n : RTNode) : Option CStr := n.obj.str .ri

def hasId (i : Nat) (n : RTNode) : Bool := n.id == i

end RTNode

namespace Row

def ri (r : Row) : Option CStr := r.obj.str .ri

def pi (r : Row) : Option CStr := r.obj.str .pi

end Row

/-! ## Making a node -/

/-- A flag kept as a number in the database becomes a boolean again. -/
def boolify (o : Obj) (k : Attr) : Obj :=
  match o.get k with
  | none => o
  | some (.bool _) => o
  | some v => o.set k (.bool (v.valueint = 1))

/-- `create_rtnode`; it reads `rn`, and a `uri` that is there, as a string. -/
def createRtnode (id : Nat) (obj : Obj) (ty : ResourceType) : Option RTNode := do
  let uri ← (obj.get .uri).elim (some []) Json.valuestring
  let memberOf := (obj.arr .memberOf).filterMap Json.valuestring
  let obj := boolify (boolify (boolify ((obj.del .uri).del .memberOf) .rr) .mtv) .mdd
  let rn ← obj.str .rn
  return ⟨id, ty, rn, uri, obj, memberOf, [], 0⟩

/-- The prefixes of `resource_identifier`. -/
def riPrefix : ResourceType → CStr
  | .ae => "CAE".toList | .cnt => "3-".toList | .cin => "4-".toList | .sub => "23-".toList
  | .ts => "29-".toList | .tsi => "30-".toList | .acp => "1-".toList | .grp => "9-".toList
  | .csr => "16-".toList | .acpa => "10001-".toList | .cba => "10005-".toList | .aea => "10002-".toList
  | .cnta => "10003-".toList | .grpa => "10009-".toList | .tsa => "10029-".toList
  | .cina => "10004-".toList | .fcnta => "10028-".toList | .fcnt => "28-".toList | .fcin => "58-".toList
  | _ => []

/-- `%04d` of a number below 10000. -/
def pad4 (n : Nat) : CStr :=
  [n / 1000 % 10, n / 100 % 10, n / 10 % 10, n % 10].map Nat.digitChar

/-- `resource_identifier`, with the counter it uses and the one it leaves. -/
def resourceIdentifier (ty : ResourceType) (ct : CStr) (n : Nat) : CStr × Nat :=
  (riPrefix ty ++ ct ++ pad4 n, (n + 1) % 10000)

/-! ## The tree -/

/-- The walk of `add_child_resource_tree` along the siblings: past every right sibling of a type not
above the child's, then the child goes in after the node reached. -/
def insertAfter (x : RTNode) : Forest RTNode → Forest RTNode
  | .nil => .node x .nil .nil
  | .node a c .nil => .node a c (.node x .nil .nil)
  | .node a c (.node b d s) =>
    if b.ty.code ≤ x.ty.code then .node a c (insertAfter x (.node b d s))
    else .node a c (.node x .nil (.node b d s))

/-- Where `add_child_resource_tree` links a new child among the children of its parent. -/
def insertChild (x : RTNode) : Forest RTNode → Forest RTNode
  | .nil => .node x .nil .nil
  | .node a c s =>
    let moved := match s with
      | .nil => false
      | .node b _ _ => b.ty.code ≤ x.ty.code
    if !moved && x.ty.code < a.ty.code then .node x .nil (.node a c s)
    else insertAfter x (.node a c s)

namespace Server

/-- The node with address `i`. -/
def node? (s : Server) (i : Nat) : Option RTNode := s.tree.find? (RTNode.hasId i)

/-- The children of the node with address `i`. -/
def children (s : Server) (i : Nat) : Forest RTNode :=
  ((s.tree.cell? (RTNode.hasId i)).map (·.2)).getD .nil

/-- The address of the parent of the node with address `i`. -/
def parentId (s : Server) (i : Nat) : Option Nat := (s.tree.parent? (RTNode.hasId i)).map (·.id)

def modifyNode (s : Server) (i : Nat) (f : RTNode → RTNode) : Server :=
  { s with tree := s.tree.modify (RTNode.hasId i) f }

/-- Assign to `rtnode->obj`. -/
def setObj (s : Server) (i : Nat) (o : Obj) : Server := s.modifyNode i fun n => { n with obj := o }

/-- `free_rtnode` of a node of the tree: it and all below it go; no list of other nodes changes. -/
def freeRtnode (s : Server) (i : Nat) : Server :=
  { s with tree := s.tree.remove (RTNode.hasId i) }

/-- `add_subs`. -/
def addSubs (s : Server) (parent sub : Nat) : Server :=
  s.modifyNode parent fun n => { n with subs := n.subs ++ [sub], subCnt := n.subCnt + 1 }

/-- `detach_subs`: the first entry of the list that is `sub`. -/
def detachSubs (s : Server) (parent sub : Nat) : Server :=
  s.modifyNode parent fun n =>
    if sub ∈ n.subs then { n with subs := n.subs.erase sub, subCnt := n.subCnt - 1 } else n

/-- `add_csrlist`. -/
def addCsrlist (s : Server) (csr : Nat) : Server := { s with csrList := s.csrList ++ [csr] }

/-- `detach_csrlist`. -/
def detachCsrlist (s : Server) (csr : Nat) : Server := { s with csrList := s.csrList.erase csr }

/-- `add_child_resource_tree`. -/
def addChildResourceTree (s : Server) (parent : RTNode) (child : RTNode) : Server :=
  let child := { child with uri := parent.uri ++ '/' :: child.rn }
  let s := { s with tree := s.tree.graft (RTNode.hasId parent.id) (insertChild child) }
  let s := if child.ty = .csr then s.addCsrlist child.id else s
  if child.ty = .sub then s.addSubs parent.id child.id else s

end Server

namespace Ptr

/-- The node a pointer points to. -/
def deref (s : Server) : Ptr → Option RTNode
  | null => none
  | inTree i => s.node? i
  | loose n _ => some n

/-- The address, for a node of the tree. -/
def treeId : Ptr → Option Nat
  | inTree i => some i
  | _ => none

theorem eq_inTree {p : Ptr} {i : Nat} (h : p.treeId = some i) : p = .inTree i := by
  cases p with
  | null => cases h
  | inTree j => cases h; rfl
  | loose n q => cases h

/-- `rtnode->parent`. -/
def parent (s : Server) : Ptr → Ptr
  | null => null
  | inTree i => match s.parentId i with
    | none => null
    | some j => inTree j
  | loose _ p => p

end Ptr

end TinyIoT
