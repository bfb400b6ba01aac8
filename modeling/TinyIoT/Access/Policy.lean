/-
Access control (`util.c`): what an access control policy grants an originator, which policy governs a
resource, and the three checks built on them. A dereference of a missing attribute gives `none`.
-/
import TinyIoT.Server.Delete
import TinyIoT.Server.Boot
import TinyIoT.Server.Address
import TinyIoT.Lib.Prune

namespace TinyIoT

/-- A set of access control operations, as the bits of an `int`. -/
abbrev Acop := BitVec 32

namespace Acop

def create : Acop := 1
def retrieve : Acop := 2
def update : Acop := 4
def delete : Acop := 8
def notify : Acop := 16
def discovery : Acop := 32

/-- `ALL_ACOP`. -/
def all : Acop := 63

/-- `DEFAULT_ACOP`. -/
def fallback : Acop := create

/-- `(granted & wanted) == wanted`. -/
def covers (granted wanted : Acop) : Bool := granted &&& wanted = wanted

/-- What the elements of a list grant together. -/
def union {α : Type} (f : α → Option Acop) (l : List α) : Option Acop :=
  l.foldlM (fun acop x => (f x).map (acop ||| ·)) 0

end Acop

/-- `op_to_acop`. -/
def opToAcop : Operation → Acop
  | .create => .create
  | .retrieve => .retrieve
  | .update => .update
  | .delete => .delete
  | .notify => .notify
  | .discovery => .discovery

/-! ## Access control contexts -/

/-- One decimal octet of `inet_pton`: one to three digits without a leading zero, at most 255. -/
def octet (s : CStr) : Option Nat :=
  let n := s.foldl (fun n c => 10 * n + (c.toNat - '0'.toNat)) 0
  if s ≠ [] ∧ s.all Char.isDigit ∧ n ≤ 255 ∧ (s.length = 1 ∨ s.head? ≠ some '0') then some n else none

/-- The text cut at every dot. -/
def cutDots : CStr → List CStr
  | [] => [[]]
  | c :: s =>
    if c = '.' then [] :: cutDots s
    else match cutDots s with
      | [] => [[c]]
      | t :: ts => (c :: t) :: ts

/-- `inet_pton(AF_INET, ..)`: `s_addr` of a little-endian machine. -/
def inetPton (s : CStr) : Option (BitVec 32) :=
  match (cutDots s).map octet with
  | [some a, some b, some c, some d] => some (BitVec.ofNat 32 (a + 256 * b + 65536 * c + 16777216 * d))
  | _ => none

/-- `atoi`. -/
def atoi (s : CStr) : Int :=
  let s := s.dropWhile fun c => c = ' ' || ('\t' ≤ c && c ≤ '\r')
  let digits (s : CStr) : Int := ((s.takeWhile Char.isDigit).foldl (fun n c => 10 * n + (c.toNat - '0'.toNat)) 0 : Nat)
  match s with
  | '-' :: s => -digits s
  | '+' :: s => digits s
  | s => digits s

/-- The mask `check_acco` builds for a prefix length: its low bits. -/
def accoMask (n : Int) : BitVec 32 := BitVec.allOnes 32 >>> (32 - max 1 (min n 32)).toNat

/-- One entry of `ipv4` against the address of the originator. -/
def ipMatches (entry ip : CStr) : Bool :=
  match cutSlash entry with
  | none => entry = ip
  | some (addr, bits) => match inetPton addr, inetPton ip with
    | some a, some b => a &&& accoMask (atoi bits) = b &&& accoMask (atoi bits)
    | _, _ => false

/-- The first test that succeeds decides; an entry that is no string is dereferenced. -/
def anyString (p : CStr → Bool) : List Json → Option Bool
  | [] => some false
  | j :: l => do
    let s ← j.valuestring
    if p s then return true
    anyString p l

/-- `check_acco`. -/
def checkAcco (acco : Option Json) (ip : Option CStr) : Option Bool :=
  match acco, ip with
  | none, _ => some true
  | _, none => some true
  | some j, some ip =>
    if j.items.isEmpty then some true
    else anyString (ipMatches · ip) (j.items.flatMap fun c =>
      (((c.member .acip).bind (Json.member · .ipv4)).map Json.items).getD [])

/-! ## What a policy grants -/

/-- An entry of `acor` without the local CSE prefix. -/
def localOrigin (acor : CStr) : CStr :=
  let pre := '/' :: cseBaseRi ++ ['/']
  if pre.isPrefixOf acor then acor.drop pre.length else acor

/-- The originators an access control rule is for. -/
def originators (acr : Json) : List Json := ((acr.member .acor).map Json.items).getD []

/-- The access control rules of `pv` or `pvs`. -/
def rules (acp : Obj) (k : Attr) : List Json := (((acp.get k).bind (Json.member · .acr)).map Json.items).getD []

namespace Server

/-- `acor_matches_group_member`. -/
def acorMatchesGroupMember (now : CStr) (s : Server) (acor origin : CStr) : Bool :=
  match (s.findNode now acor).deref s with
  | none => false
  | some grp =>
    if grp.ty ≠ .grp then false
    else match grp.obj.get .mid with
      | some (.arr mid) => mid.any (Json.isStr origin)
      | _ => false

/-- An entry of `acor` stands for the originator: by wildcard, by name, as a member of the group it
names, or because it is `all`. -/
def acorMatches (now : CStr) (s : Server) (origin acor : CStr) : Bool :=
  let acor := localOrigin acor
  if '*' ∈ acor then
    let pre := acor.takeWhile (· ≠ '*')
    let suf := (acor.dropWhile (· ≠ '*')).tail
    pre.isPrefixOf origin && suf.isSuffixOf origin
  else acor = origin || s.acorMatchesGroupMember now acor origin || acor = "all".toList

/-- One rule of `get_acop_origin`: what it adds. -/
def ruleAcop (now : CStr) (s : Server) (ip : Option CStr) (origin : CStr) (acr : Json) : Option Acop := do
  if ← anyString (s.acorMatches now origin) (originators acr) then
    if ← checkAcco (acr.member .acco) ip then
      let acop ← acr.member .acop
      return BitVec.ofInt 32 acop.valueint
    else return 0
  else return 0

/-- `get_acop_origin`, with `self` for its flag. -/
def getAcopOrigin (now : CStr) (s : Server) (ip : Option CStr) (origin : CStr) (acp : RTNode) (self : Bool) :
    Option Acop :=
  if origin = adminAeId then some .all
  else Acop.union (s.ruleAcop now ip origin) (rules acp.obj (if self then .pvs else .pv))

/-- The policy an entry of `acpi` or `macp` names. -/
def policyNode (now : CStr) (s : Server) (entry : Json) : Option RTNode :=
  match entry.valuestring with
  | none => none
  | some addr => match (s.findNode now addr).deref s with
    | none => none
    | some acp => if acp.ty = .acp then some acp else none

/-- The policies a list names that are there, in order. -/
def policyNodes (now : CStr) (s : Server) (l : List Json) : List RTNode := l.filterMap (s.policyNode now)

/-- What the policies of a list grant together. -/
def unionAcop (now : CStr) (s : Server) (ip : Option CStr) (origin : CStr) (acps : List RTNode) : Option Acop :=
  Acop.union (s.getAcopOrigin now ip origin · false) acps

/-- `get_acop` for a resource that is governed by its own `acpi`: the default when no entry resolves. -/
def getAcop (now : CStr) (s : Server) (ip : Option CStr) (origin : CStr) (n : RTNode) : Option Acop :=
  if origin = adminAeId then some .all
  else if n.ty = .acp then s.getAcopOrigin now ip origin n true
  else match n.obj.get .acpi with
    | none => some .fallback
    | some acpi => match s.policyNodes now acpi.items with
      | [] => some .fallback
      | acps => s.unionAcop now ip origin acps

/-! ## Which policy governs -/

/-- A node and its ancestors, along `parent`. -/
def ancestry (s : Server) : Ptr → List RTNode
  | .null => []
  | .inTree i => (s.tree.path? (RTNode.hasId i)).getD []
  | .loose n p => n :: s.ancestry p

end Server

/-- Where the search of `check_privilege` for an `acpi` ends. -/
inductive Policy where
  | acpi (n : RTNode)
  | owner (ae : RTNode)
  | creator

/-- The search along the ancestors: an `acpi`, or an AE without one, ends it. -/
def governing : List RTNode → Policy
  | [] => .creator
  | n :: up =>
    if n.obj.has .acpi then .acpi n
    else if n.ty = .ae then .owner n
    else governing up

/-- A type of an announced resource. -/
def isAnnounced (ty : ResourceType) : Bool := 10000 < ty.code && ty.code < 20000

namespace Server

/-- `get_normalized_originator`. -/
def normalizedOriginator (now : CStr) (s : Server) (fr : CStr) : CStr :=
  if isSPIDLocal fr then ((s.findNode now fr).deref s |>.bind RTNode.ri).getD fr else fr

/-- The shortcuts of `check_privilege` before any policy: the registered CSE itself, the CSE of an
original resource on its announced one, and the CSEs a resource announces itself to. -/
def shortcut (req : Req) (origin : CStr) (acop : Acop) (n : RTNode) : Option Bool := do
  let isOwner ← if acop ≠ .create ∧ n.ty = .csr then do
      let csi ← n.obj.str .csi
      pure (decide (origin = csi))
    else pure false
  let isOriginal ← if acop ≠ .create ∧ isAnnounced n.ty then do
      let lnk ← n.obj.str .lnk
      pure ((acop = .update || acop = .delete) && checkResourceCseID lnk req.fr)
    else pure false
  if isOwner || isOriginal then return true
  match n.obj.get .ast with
  | none => return false
  | some ast =>
    if acop = .update ∧ ast.valueint = 2 then
      anyString (checkResourceCseID · req.fr) (n.obj.arr .at)
    else return false

/-- The last part of `check_privilege`: the governing policy decides. -/
def policyAllows (now : CStr) (s : Server) (req : Req) (origin : CStr) (wanted : Acop) (p : Ptr) (n : RTNode) :
    Option Bool :=
  match governing (s.ancestry p) with
  | .acpi m => (s.getAcop now req.ip origin m).map (Acop.covers · wanted)
  | .owner ae => some (ae.ri = some origin)
  | .creator => some (n.obj.str .cr = some origin)

/-- What `check_privilege` wants: a subscription is created with the right to retrieve. -/
def wantedAcop (req : Req) (acop : Acop) : Acop :=
  if req.op = .create ∧ req.ty = ResourceType.sub.code then acop ||| .retrieve else acop

/-- `check_privilege`: whether it lets the request through. -/
def checkPrivilege (now : CStr) (s : Server) (req : Req) (p : Ptr) (acop : Acop) : Option Bool :=
  match p.deref s with
  | none => some false
  | some n =>
    if req.fr = adminAeId then some true
    else if req.fr = [] ∨ req.fr = ['C'] then
      some (req.op = .create && req.ty = ResourceType.ae.code)
    else
      let origin := s.normalizedOriginator now req.fr
      if n.ty = .acp then
        (s.getAcopOrigin now req.ip origin n true).map (Acop.covers · (wantedAcop req acop))
      else do
        if ← shortcut req origin acop n then return true
        s.policyAllows now req origin (wantedAcop req acop) p n

end Server

end TinyIoT
