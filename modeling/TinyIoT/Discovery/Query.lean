/-
Finding descendants in the database (`db_get_descendants`, in both backends). The WHERE clause is made from the
filter criteria: a pattern for the address, what the originator must not see, the depth, and the criteria joined
by `fo`. Without criteria on columns of a type's own table there is one query over the table `general`; with them,
and on PostgreSQL also for results with attributes, there is a union of one query for each type found before. What
becomes of a row in the response is left out: the result here is the rows, with their `id`. The buffers the texts are
made in come next.
-/
import TinyIoT.Database.Columns
import TinyIoT.Lib.Paging
import Mathlib.Data.List.Dedup

namespace TinyIoT

/-! ## Filter criteria -/

/-- The members of a filter criteria that a condition is made from, and the two that shape it. -/
inductive FcTag where
  | fo | lvl | cra | crb | exa | exb | ms | us | ty | lbl
  | cty | sza | szb | con | cnf | cs | cr | sts | stb | st | mni | cni | api | aei | apn | poa
  | mid | macp | gn | nu | pv | pvs | lnk
  deriving DecidableEq, Repr

/-- A filter criteria, by what `cJSON_GetObjectItem` finds in it. -/
structure FilterCriteria where
  get : FcTag → Option Json
  lim : Option Json
  ofst : Option Json

/-- `(int)item->valuedouble`. -/
def Json.valuedouble : Json → Int
  | .num v => (Json.num v).valueint
  | _ => 0

/-- A condition of a WHERE clause; NULL does not select. -/
abbrev Cond := Row → Bool

/-! ## Columns -/

/-- A column as a text; NULL where it is not set. -/
def Row.text (print : Json → CStr) (r : Row) (k : Attr) : Option CStr :=
  if k = .uri then some r.uri
  else (r.obj.get k).bind fun
    | .null => none
    | .str s => some s
    | .num v => some (Decimal.ofInt (Json.num v).valueint)
    | .bool b => some (if b then ['1'] else ['0'])
    | j => some (print j)

/-- A column of integers. -/
def Row.int (r : Row) (k : Attr) : Option Int :=
  (r.obj.get k).bind fun
    | .num v => some (Json.num v).valueint
    | .bool b => some (if b then 1 else 0)
    | _ => none

/-- The columns of integers that a criterion can be about. -/
def intColumns : List Attr := [.cs, .st, .mni, .cni]

/-! ## The criteria of `general` -/

/-- The criteria on times: the column, and whether it is to come after the given time. -/
def timeCriteria : List (FcTag × Attr × Bool) :=
  [(.cra, .ct, true), (.crb, .ct, false), (.exa, .et, true), (.exb, .et, false), (.ms, .lt, true), (.us, .lt, false)]

/-- `_APPEND_TIME`. -/
def timeCond (print : Json → CStr) (k : Attr) (after : Bool) (v : CStr) : Cond := fun r =>
  (r.text print k).any fun t => if after then strLt v t else !strLt v t

/-- What a list element is looked for as in the text of a list. -/
def quotedPattern (v : CStr) : CStr := '%' :: '"' :: v ++ ['"', '%']

def labelCond (b : Backend) (print : Json → CStr) (v : CStr) : Cond := fun r =>
  (r.text print .lbl).any (b.like (quotedPattern v))

def typeCond (n : Int) : Cond := fun r => r.ty.code = n

def anyCond (l : List Cond) : Cond := fun r => l.any fun c => c r

def allCond (l : List Cond) : Cond := fun r => l.all fun c => c r

/-- The types a criterion asks for. PostgreSQL does not accept the empty parentheses of no types at all. -/
def typeCriterion (b : Backend) : Json → Option Cond
  | .arr [] => match b with
    | .postgresql => none
    | .sqlite => some fun _ => true
  | .arr l => some (anyCond (l.map fun j => typeCond j.valuedouble))
  | .num v => some (typeCond (Json.num v).valuedouble)
  | j => match b with
    | .postgresql => none
    | .sqlite => some (typeCond j.valuedouble)

/-- The labels a criterion asks for. PostgreSQL does not accept what is written for an element that is no string. -/
def labelCriterion (b : Backend) (print : Json → CStr) : Json → Option Cond
  | .str v => some (labelCond b print v)
  | .arr l => match b with
    | .postgresql => if l = [] then none else (l.mapM Json.valuestring).map fun vs => anyCond (vs.map (labelCond b print))
    | .sqlite =>
      if l.filterMap Json.valuestring = [] then some fun _ => true
      else some (anyCond ((l.filterMap Json.valuestring).map (labelCond b print)))
  | _ => match b with
    | .postgresql => none
    | .sqlite => some fun _ => true

/-- The criteria on the columns of `general`, in the order they are written; `none` is a text SQL does not accept. -/
def generalCriteria (b : Backend) (print : Json → CStr) (fc : FilterCriteria) : List (Option Cond) :=
  (timeCriteria.filterMap fun c => ((fc.get c.1).bind Json.valuestring).map fun v => some (timeCond print c.2.1 c.2.2 v)) ++
    ((fc.get .ty).map (typeCriterion b)).toList ++ ((fc.get .lbl).map (labelCriterion b print)).toList

/-- The depth pattern: as many levels below as `lvl` says, and one more. -/
def levelPattern (uri : CStr) (lvl : Int) : CStr :=
  uri ++ '/' :: '%' :: (List.replicate lvl.toNat ['/', '%']).flatten

/-- The depth asked for; SQLite wants a number. -/
def FilterCriteria.level (b : Backend) (fc : FilterCriteria) : Option Int :=
  match fc.get .lvl with
  | none => none
  | some (.num v) => some (Json.num v).valuedouble
  | some j => match b with
    | .postgresql => some j.valuedouble
    | .sqlite => none

/-- The head of the WHERE clause: below the target, none of the addresses that are forbidden, not too deep. -/
def baseCond (b : Backend) (forbidden : List CStr) (uri : CStr) (fc : FilterCriteria) : Cond := fun r =>
  b.like (uri ++ ['/', '%']) r.uri && forbidden.all (fun pat => !b.like pat r.uri) &&
    (fc.level b).all fun lvl => !b.like (levelPattern uri lvl) r.uri

/-! ## The criteria of a type's own table -/

inductive FcOp where
  | eq | lt | ge | contains | inArray | exists
  deriving DecidableEq, Repr

/-- A line of `RES_FC_MAP`, `DESC_FC_MAP` on SQLite. -/
structure ResFcMap where
  tag : FcTag
  ty : ResourceType
  col : Attr
  op : FcOp

/-- `con` and `lnk` are compared by `=` in the table of PostgreSQL, and by LIKE in the query all the same. -/
def Backend.textOp : Backend → FcOp
  | .postgresql => .eq
  | .sqlite => .contains

/-- `RES_FC_MAP`, `DESC_FC_MAP`. -/
def resFcMap (b : Backend) : List ResFcMap :=
  [⟨.cty, .cin, .cnf, .eq⟩, ⟨.sza, .cin, .cs, .ge⟩, ⟨.szb, .cin, .cs, .lt⟩, ⟨.con, .cin, .con, b.textOp⟩,
   ⟨.cnf, .cin, .cnf, .eq⟩, ⟨.cs, .cin, .cs, .eq⟩, ⟨.cr, .cin, .cr, .contains⟩, ⟨.sts, .cin, .st, .lt⟩,
   ⟨.stb, .cin, .st, .ge⟩, ⟨.st, .cin, .st, .eq⟩,
   ⟨.sts, .cnt, .st, .lt⟩, ⟨.stb, .cnt, .st, .ge⟩, ⟨.st, .cnt, .st, .eq⟩, ⟨.mni, .cnt, .mni, .eq⟩,
   ⟨.cni, .cnt, .cni, .eq⟩, ⟨.cr, .cnt, .cr, .contains⟩,
   ⟨.api, .ae, .api, .eq⟩, ⟨.aei, .ae, .aei, .eq⟩, ⟨.apn, .ae, .other "apn".toList, .contains⟩, ⟨.poa, .ae, .poa, .inArray⟩,
   ⟨.mid, .grp, .mid, .inArray⟩, ⟨.macp, .grp, .macp, .inArray⟩, ⟨.gn, .grp, .gn, .contains⟩,
   ⟨.nu, .sub, .nu, .inArray⟩,
   ⟨.pv, .acp, .pv, .exists⟩, ⟨.pvs, .acp, .pvs, .exists⟩,
   ⟨.lnk, .acpa, .lnk, b.textOp⟩, ⟨.lnk, .aea, .lnk, b.textOp⟩, ⟨.lnk, .cnta, .lnk, b.textOp⟩, ⟨.lnk, .cina, .lnk, b.textOp⟩,
   ⟨.lnk, .cba, .lnk, b.textOp⟩, ⟨.lnk, .grpa, .lnk, b.textOp⟩, ⟨.lnk, .fcnta, .lnk, b.textOp⟩, ⟨.lnk, .tsa, .lnk, b.textOp⟩]

/-- `get_res_specific_fc_attrs`. -/
def resAttrs (b : Backend) (fc : FilterCriteria) : List ResFcMap := (resFcMap b).filter fun m => (fc.get m.tag).isSome

/-- `fc_needs_ty`. -/
def fcNeedsTy (b : Backend) (fc : FilterCriteria) (ty : ResourceType) : Bool := (resAttrs b fc).any fun m => m.ty = ty

/-- The criteria that take `*` for any text. -/
def takesStar : FcTag → Bool
  | .con => true
  | .lnk => true
  | _ => false

/-- The loop of `append_res_fc` over a text with `*`: `i < str[i] != '\0'` compares the index with the character, and
characters beyond ASCII are negative. -/
def pgStars : Nat → CStr → CStr
  | _, [] => []
  | i, c :: s => if i < c.toNat ∧ c.toNat < 128 then (if c = '*' then '%' else c) :: pgStars (i + 1) s else c :: s

/-- `fc_to_query`: nothing is written where the operator does not go with the value, and the connective before it
stays in the buffer and is written once more, which SQL does not accept. -/
def fcToQuery (print : Json → CStr) (k : Attr) : FcOp → Json → Option Cond
  | _, .str [] => none
  | .eq, .str v =>
    if intColumns.contains k then (Decimal.strtol v).map fun n r => r.int k = some n
    else some fun r => r.text print k = some v
  | .contains, .str v => some fun r => (r.text print k).any (like ('%' :: v ++ ['%']))
  | .inArray, .str v => some fun r => (r.text print k).any (like (quotedPattern v))
  | .exists, .str _ => some fun r => (r.text print k).isSome
  | .eq, .num v => if intColumns.contains k then some fun r => r.int k = some (Json.num v).valueint else none
  | .lt, .num v => some fun r => (r.int k).any (· < (Json.num v).valueint)
  | .ge, .num v => some fun r => (r.int k).any ((Json.num v).valueint ≤ ·)
  | _, _ => none

/-- The lines whose names are new. -/
def firstByTag : List FcTag → List ResFcMap → List ResFcMap
  | _, [] => []
  | seen, m :: l => if seen.contains m.tag then firstByTag seen l else m :: firstByTag (m.tag :: seen) l

/-- `append_res_fc`, one condition for each name, whatever the type. -/
def pgResCriteria (print : Json → CStr) (fc : FilterCriteria) : List (Option Cond) :=
  (firstByTag [] (resAttrs .postgresql fc)).map fun m => match fc.get m.tag with
    | none => none
    | some val => if takesStar m.tag then fcToQuery print m.col .contains (match val with
        | .str s => .str (pgStars 0 s)
        | j => j)
      else fcToQuery print m.col m.op val

/-- `append_res_fc` reads through the text of `con` and `lnk`, which is NULL where they are no strings. -/
def starsReadable (fc : FilterCriteria) : Bool :=
  [FcTag.con, .lnk].all fun t => (fc.get t).all fun j => j.valuestring.isSome

/-- An integer column against a text: as a number where it is one, and else below every text. -/
def sqliteCompare (op : FcOp) (i : Int) (v : CStr) : Bool :=
  match Decimal.strtol v with
  | some n => match op with
    | .lt => i < n
    | .ge => n ≤ i
    | _ => i = n
  | none => op = .lt

/-- One condition of `desc_build_res_where`; `none` where it writes nothing. -/
def sqliteCondition (print : Json → CStr) (m : ResFcMap) (val : Json) : Option Cond :=
  match m.op, val with
  | .exists, _ => some fun r => (r.text print m.col).isSome
  | _, .str [] => none
  | .contains, .str v =>
    let v := if takesStar m.tag then v.map fun c => if c = '*' then '%' else c else v
    some fun r => (r.text print m.col).any (likeNoCase ('%' :: v ++ ['%']))
  | .inArray, .str v => some fun r => (r.text print m.col).any (likeNoCase (quotedPattern v))
  | op, .str v =>
    if intColumns.contains m.col then some fun r => (r.int m.col).any fun i => sqliteCompare op i v
    else some fun r => (r.text print m.col).any fun t => match op with
      | .lt => strLt t v
      | .ge => !strLt t v
      | _ => t = v
  | .lt, .num v => some fun r => (r.int m.col).any (· < (Json.num v).valuedouble)
  | .ge, .num v => some fun r => (r.int m.col).any ((Json.num v).valuedouble ≤ ·)
  | _, .num v =>
    if intColumns.contains m.col then some fun r => r.int m.col = some (Json.num v).valuedouble
    else some fun r => r.text print m.col = some (Decimal.ofInt (Json.num v).valuedouble)
  | _, _ => none

/-- `desc_build_res_where`: the conditions of one type. -/
def sqliteResCriteria (print : Json → CStr) (fc : FilterCriteria) (ty : ResourceType) : List Cond :=
  ((resFcMap .sqlite).filter fun m => m.ty = ty).filterMap fun m => (fc.get m.tag).bind (sqliteCondition print m)

/-! ## The WHERE clause -/

/-- `fo`; one of the parsers adds it to every filter criteria. -/
def FilterCriteria.operation (fc : FilterCriteria) : Int := ((fc.get .fo).map Json.valuedouble).getD 0

/-- The criteria in parentheses: the first after AND, the others after the operator of `fo`. -/
def joinCriteria (b : Backend) (fo : Int) : List Cond → Option Cond
  | [] => some fun _ => true
  | [c] => some c
  | l => match b with
    | .postgresql => if fo = 1 then some (allCond l) else if fo = 2 then some (anyCond l) else none
    | .sqlite => some (if fo = 2 then anyCond l else allCond l)

/-- Criteria that are all accepted, joined. -/
def joinAll (b : Backend) (fc : FilterCriteria) (l : List (Option Cond)) : Option Cond :=
  (l.mapM id).bind (joinCriteria b fc.operation)

def bothCond (c d : Cond) : Cond := fun r => c r && d r

/-- The WHERE clause over `general`. -/
def generalWhere (b : Backend) (print : Json → CStr) (forbidden : List CStr) (uri : CStr) (fc : FilterCriteria) :
    Option Cond :=
  (joinAll b fc (generalCriteria b print fc)).map (bothCond (baseCond b forbidden uri fc))

/-- The WHERE clause over `general` and the table of a type. PostgreSQL goes on in the open parentheses, SQLite opens
new ones. -/
def joinedWhere (b : Backend) (print : Json → CStr) (forbidden : List CStr) (uri : CStr) (fc : FilterCriteria)
    (ty : ResourceType) : Option Cond :=
  match b with
  | .postgresql =>
    if (resAttrs .postgresql fc).all fun m => (columns ty).any fun k => k = m.col then
      (joinAll b fc (generalCriteria b print fc ++ pgResCriteria print fc)).map (bothCond (baseCond b forbidden uri fc))
    else none
  | .sqlite => do
    let general ← generalWhere b print forbidden uri fc
    let specific ← joinCriteria b fc.operation (sqliteResCriteria print fc ty)
    return bothCond general specific

/-! ## The queries -/

/-- A row with its `id`. -/
abbrev Entry := Row × Nat

/-- The rows, with the highest `id` first: ORDER BY id DESC. -/
def entriesDesc (db : Db) : List Entry := db.zipIdx.reverse

/-- What a condition selects. -/
def rowsWhere (db : Db) (cond : Cond) : List Entry := (entriesDesc db).filter fun e => cond e.1

/-- LIMIT and OFFSET; PostgreSQL does not accept a negative one. -/
def Backend.window (b : Backend) (lim ofst : Int) (l : List Entry) : Option (List Entry) :=
  match b with
  | .postgresql => if lim < 0 ∨ ofst < 0 then none else some (Paging.window lim.toNat ofst.toNat l)
  | .sqlite => some (if lim < 0 then l.drop ofst.toNat else Paging.window lim.toNat ofst.toNat l)

/-- `DEFAULT_DISCOVERY_LIMIT`. -/
def defaultDiscoveryLimit : Int := 150

/-- The limit of the queries. -/
def FilterCriteria.limit (fc : FilterCriteria) : Int :=
  match fc.lim with
  | some (.num v) => if defaultDiscoveryLimit < (Json.num v).valueint then (Json.num v).valueint else defaultDiscoveryLimit + 1
  | _ => defaultDiscoveryLimit + 1

def FilterCriteria.offset (fc : FilterCriteria) : Int :=
  match fc.ofst with
  | some (.num v) => (Json.num v).valueint
  | _ => 0

/-- SELECT DISTINCT ty. -/
def typesOf (l : List Entry) : List ResourceType := (l.map fun e => e.1.ty).dedup

/-- The types present that the criteria on columns are about. -/
def joinTys (b : Backend) (fc : FilterCriteria) (rows : List Entry) : List ResourceType :=
  (typesOf rows).filter (fcNeedsTy b fc)

/-- The query of one type. -/
def typeQuery (db : Db) (cond : Cond) (ty : ResourceType) : List Entry :=
  (entriesDesc db).filter fun e => decide (e.1.ty = ty) && cond e.1

/-- The union over types, in the order of `id`, and the page of it. On PostgreSQL each branch has its own ORDER BY and
LIMIT, which is an `int`. -/
def unionQuery (b : Backend) (db : Db) (fc : FilterCriteria) (cond : ResourceType → Option Cond)
    (tys : List ResourceType) : Option (List Entry) :=
  match b with
  | .postgresql =>
    if cInt (fc.limit + fc.offset) < 0 then none
    else (tys.mapM fun ty => (cond ty).map fun c => (typeQuery db c ty).take (cInt (fc.limit + fc.offset)).toNat).bind
      fun branches => Backend.window .postgresql fc.limit fc.offset (Paging.sortDesc Prod.snd branches.flatten)
  | .sqlite =>
    (tys.mapM fun ty => (cond ty).map fun c => typeQuery db c ty).bind fun branches =>
      Backend.window .sqlite fc.limit fc.offset (Paging.sortDesc Prod.snd branches.flatten)

/-- What comes of a union that fails: no rows, but the path for details goes on to read the result it has cleared. -/
def answered (b : Backend) (details : Bool) : Option (List Entry) → Option (List Entry)
  | some l => some l
  | none => if b = .postgresql ∧ details then none else some []

/-- `has_res_fc`. -/
def hasResFc (b : Backend) (fc : FilterCriteria) : Bool := !(resAttrs b fc).isEmpty

/-- The queries of `db_get_descendants`, for results with the attributes (`need_details`) or without; `none` where it
does not return. The types come from a query of their own: with criteria on a type's own table from all the rows, else
from the page alone. -/
def queryDescendants (b : Backend) (print : Json → CStr) (forbidden : List CStr) (db : Db) (uri : CStr)
    (fc : FilterCriteria) (details : Bool) : Option (List Entry) :=
  match generalWhere b print forbidden uri fc with
  | none => some []
  | some cond =>
    if hasResFc b fc then
      if typesOf (rowsWhere db cond) = [] then some []
      else if b = .postgresql ∧ starsReadable fc = false then none
      else if joinTys b fc (rowsWhere db cond) = [] then some []
      else answered b details (unionQuery b db fc (joinedWhere b print forbidden uri fc) (joinTys b fc (rowsWhere db cond)))
    else if b = .postgresql ∧ details then
      match b.window fc.limit fc.offset (rowsWhere db cond) with
      | none => some []
      | some page =>
        if typesOf page = [] then some []
        else answered b details (unionQuery b db fc (fun _ => some cond) (typesOf page))
    else some ((b.window fc.limit fc.offset (rowsWhere db cond)).getD [])

end TinyIoT
