/-
The texts `db_get_descendants` and `getForbiddenUri` make, and the buffers they make them in: `buf`, in which one
condition is printed, `general_where_buf` and `res_where_buf`, to which the conditions are appended, and `sql`, to which
the queries of the types are. SQLite has growing texts besides `buf`. A text that is cut or that does not fit is given up
here: what the query then is, or what lies behind the buffer, is not described.
-/
import TinyIoT.Discovery.Query

namespace TinyIoT

/-- What discovery leaves out: resources, and with `ops` what begins with the address of one. -/
structure Forbidden where
  uris : List CStr := []
  starts : List CStr := []

def Forbidden.patterns (f : Forbidden) : List CStr := f.uris ++ f.starts.map (· ++ ['%'])

/-- A part of a clause. -/
inductive Piece where
  /-- Printed in `buf` first. -/
  | buf (t : CStr)
  /-- Appended as it is. -/
  | lit (t : CStr)

namespace Piece

def text : Piece → CStr
  | buf t => t
  | lit t => t

/-- `buf` has room for `n` characters and the 0 behind them. -/
def fits (n : Nat) : Piece → Bool
  | buf t => byteLen t < n
  | lit _ => true

end Piece

/-- A clause as a text. -/
def clause (l : List Piece) : CStr := (l.map Piece.text).flatten

/-- Conditions with something between them. -/
def separated (t : CStr) (l : List Piece) : List Piece := l.intersperse (.lit t)

/-! ## PostgreSQL -/

/-- `fo_ops`. -/
def FilterCriteria.operator (fc : FilterCriteria) : CStr :=
  if fc.operation = 1 then "AND".toList
  else if fc.operation = 2 then "OR".toList
  else if fc.operation = 3 then "XOR".toList
  else []

/-- A text in quotes. -/
def literal (pre v post : CStr) : CStr := '\'' :: pre ++ Backend.postgresql.escaped v ++ post ++ ['\'']

/-- One group of `append_forbidden`. -/
def forbiddenPieces (post : CStr) : List CStr → List Piece
  | [] => []
  | l => .lit " AND (".toList ::
      separated " AND ".toList (l.map fun u => .buf ("uri NOT LIKE ".toList ++ literal [] u post)) ++ [.lit [')']]

/-- The depth in `append_general_fc`. -/
def levelPieces (uri : CStr) (fc : FilterCriteria) : List Piece :=
  match fc.get .lvl with
  | none => []
  | some j =>
    [.buf (" AND uri NOT LIKE '".toList ++ Backend.postgresql.escaped uri ++ "/%".toList),
     .lit (List.replicate j.valuedouble.toNat "/%%".toList).flatten, .lit ['\'']]

/-- `_APPEND_TIME`, after the word `conn`. -/
def timePieces (k : Attr) (after : Bool) (v : CStr) (conn : CStr) : List Piece :=
  [.buf (' ' :: conn ++ ' ' :: k.name ++ (if after then " > ".toList else " <= ".toList) ++ literal [] v [])]

/-- The resource types in `append_general_fc`. -/
def typePieces (j : Json) (conn : CStr) : List Piece :=
  let one (j : Json) : Piece := .buf ("ty = ".toList ++ Decimal.ofInt j.valuedouble)
  .buf (' ' :: conn ++ " (".toList) :: (match j with
    | .arr l => separated " OR ".toList (l.map one)
    | .num v => [one (.num v)]
    | _ => []) ++ [.lit [')']]

/-- The labels in `append_general_fc`. -/
def labelPieces (j : Json) (conn : CStr) : List Piece :=
  let one (j : Json) : Piece := match j.valuestring with
    | some v => .buf ("lbl LIKE ".toList ++ literal "%\"".toList v "\"%".toList)
    | none => .lit []
  .buf (' ' :: conn ++ " (".toList) :: (match j with
    | .arr l => separated " OR ".toList (l.map one)
    | .str v => [one (.str v)]
    | _ => []) ++ [.lit [')']]

/-- The criteria of `append_general_fc`, in the order they are written. -/
def criterionPieces (fc : FilterCriteria) : List (CStr → List Piece) :=
  (timeCriteria.filterMap fun c => ((fc.get c.1).bind Json.valuestring).map (timePieces c.2.1 c.2.2)) ++
    ((fc.get .ty).map typePieces).toList ++ ((fc.get .lbl).map labelPieces).toList

/-- `append_general_fc`. -/
def generalPieces (f : Forbidden) (uri : CStr) (fc : FilterCriteria) : List Piece :=
  .buf ("WHERE uri LIKE ".toList ++ literal [] uri "/%".toList) :: forbiddenPieces [] f.uris ++
    forbiddenPieces ['%'] f.starts ++ levelPieces uri fc ++ (match criterionPieces fc with
      | [] => []
      | c :: l => c "AND (".toList ++ l.flatMap fun c => c fc.operator)

/-- The text of `fc_to_query`. -/
def fcText (k : Attr) : FcOp → Json → Option CStr
  | _, .str [] => none
  | .eq, .str v => some (k.name ++ " = ".toList ++ literal [] v [])
  | .contains, .str v => some (k.name ++ " LIKE ".toList ++ literal ['%'] v ['%'])
  | .inArray, .str v => some (k.name ++ " LIKE ".toList ++ literal "%\"".toList v "\"%".toList)
  | .exists, .str _ => some (k.name ++ " IS NOT NULL".toList)
  | .eq, .num v => some (k.name ++ " = ".toList ++ Decimal.ofInt (Json.num v).valueint)
  | .lt, .num v => some (k.name ++ " < ".toList ++ Decimal.ofInt (Json.num v).valueint)
  | .ge, .num v => some (k.name ++ " >= ".toList ++ Decimal.ofInt (Json.num v).valueint)
  | _, _ => none

/-- One criterion in `append_res_fc`. Where `fc_to_query` writes nothing the word is written once more. -/
def resPieces (fc : FilterCriteria) (conn : CStr) (m : ResFcMap) : List Piece :=
  [.buf conn, .buf (((fc.get m.tag).bind (fcText m.col (if takesStar m.tag then .contains else m.op))).getD conn)]

/-- `append_res_fc`. -/
def specificPieces (fc : FilterCriteria) : List Piece :=
  let op := ' ' :: fc.operator ++ [' ']
  (match firstByTag [] (resAttrs .postgresql fc) with
    | [] => []
    | m :: l => resPieces fc (if (criterionPieces fc).isEmpty then " AND (".toList else op) m ++ l.flatMap (resPieces fc op)) ++
    [.lit [')']]

/-- The query of one type in the union; `first` is the first. -/
def branchText (general specific : CStr) (fc : FilterCriteria) (details first : Bool) (ty : ResourceType) : CStr :=
  let source := tableName ty ++ " USING(id) ".toList ++ general ++ ' ' :: specific ++ " ORDER BY id DESC LIMIT ".toList ++
    Decimal.ofInt (cInt (fc.limit + fc.offset))
  if details then
    (if first then " ".toList else " UNION ALL ".toList) ++
      "SELECT id, ri, pi, ty, jsonb_strip_nulls(to_jsonb(x) - 'id') as obj FROM (SELECT *FROM general JOIN ".toList ++
      source ++ ") as x".toList
  else
    (if first then "(".toList else " UNION ALL (".toList) ++
      "SELECT id, ty, rn, uri, ri FROM general JOIN ".toList ++ source ++ [')']

/-- The union over types. -/
def unionText (general specific cols : CStr) (fc : FilterCriteria) (details : Bool) (tys : List ResourceType) : CStr :=
  "WITH combined AS (".toList ++ (match tys with
    | [] => []
    | ty :: l => branchText general specific fc details true ty ++
        l.flatMap (branchText general specific fc details false)) ++
    ") SELECT ".toList ++ (if details then "ri, pi, ty, obj".toList else cols) ++
    " FROM combined ORDER BY id DESC LIMIT ".toList ++ Decimal.ofInt fc.limit ++ " OFFSET ".toList ++
    Decimal.ofInt fc.offset ++ [';']

/-- The texts of `db_get_descendants` of PostgreSQL fit, for rows with the types `found`: `buf[512]`,
`general_where_buf[3000]`, `res_where_buf[3000]`, `sql[12288]`. -/
def pgFits (f : Forbidden) (uri : CStr) (fc : FilterCriteria) (cols : CStr) (details : Bool)
    (found : List ResourceType) : Bool :=
  let general := generalPieces f uri fc
  general.all (Piece.fits 512) && decide (byteLen (clause general) < 3000) &&
    if hasResFc .postgresql fc then
      let specific := specificPieces fc
      found.isEmpty || specific.all (Piece.fits 512) && decide (byteLen (clause specific) < 3000) &&
        (let tys := found.filter (fcNeedsTy .postgresql fc)
         tys.isEmpty || decide (byteLen (unionText (clause general) (clause specific) cols fc details tys) < 12288))
    else
      -- the parenthesis is closed in the buffer
      let closed := clause general ++ if (criterionPieces fc).isEmpty then [] else [')']
      !details || found.isEmpty || decide (byteLen closed < 3000) &&
        decide (byteLen (unionText closed [] cols fc details found) < 12288)

/-! ## SQLite -/

/-- What `desc_build_general_where` prints in its `buf[512]`. -/
def sqliteGeneralTexts (f : Forbidden) (uri : CStr) (fc : FilterCriteria) : List CStr :=
  let quoted (s : CStr) : CStr := Backend.postgresql.escaped s
  ["WHERE uri LIKE '".toList ++ quoted uri ++ "/%'".toList] ++
    (f.uris.map fun u => " AND uri NOT LIKE '".toList ++ quoted u ++ ['\'']) ++
    (f.starts.map fun u => " AND uri NOT LIKE '".toList ++ quoted u ++ "%'".toList) ++
    (if (fc.level .sqlite).isSome then [" AND uri NOT LIKE '".toList ++ quoted uri ++ "/%".toList] else []) ++
    (timeCriteria.filterMap fun c => ((fc.get c.1).bind Json.valuestring).map fun v =>
      c.2.1.name ++ (if c.2.2 then " > ".toList else " <= ".toList) ++ literal [] v []) ++
    (match fc.get .lbl with
      | some (.arr l) => match l.filterMap Json.valuestring with
        | [] => []
        | v :: l => ("lbl LIKE ".toList ++ literal "%\"".toList v "\"%".toList) ::
            l.map fun v => " OR lbl LIKE ".toList ++ literal "%\"".toList v "\"%".toList
      | some (.str v) => ["lbl LIKE ".toList ++ literal "%\"".toList v "\"%".toList]
      | _ => [])

/-- What `desc_build_res_where` prints in its `buf[1024]` for one line of the table. -/
def sqliteResText (m : ResFcMap) : Json → CStr
  | .str v => match m.op with
    | .exists => []
    | .contains => m.col.name ++ " LIKE ".toList ++ literal ['%'] v ['%']
    | .inArray => m.col.name ++ " LIKE ".toList ++ literal "%\"".toList v "\"%".toList
    | .lt => m.col.name ++ " < ".toList ++ literal [] v []
    | .ge => m.col.name ++ " >= ".toList ++ literal [] v []
    | .eq => m.col.name ++ " = ".toList ++ literal [] v []
  -- a name, an operator and a number are short
  | _ => []

/-- No text of `db_get_descendants` of SQLite is cut, for rows with the types `found`. -/
def sqliteFits (f : Forbidden) (uri : CStr) (fc : FilterCriteria) (found : List ResourceType) : Bool :=
  (sqliteGeneralTexts f uri fc).all (fun t => byteLen t < 512) &&
    (found.filter (fcNeedsTy .sqlite fc)).all fun ty =>
      ((resFcMap .sqlite).filter fun m => m.ty = ty).all fun m => (fc.get m.tag).all fun j => byteLen (sqliteResText m j) < 1024

/-! ## The functions -/

/-- The types the first query of `db_get_descendants` finds. -/
def typesFound (b : Backend) (print : Json → CStr) (f : Forbidden) (db : Db) (uri : CStr) (fc : FilterCriteria) :
    List ResourceType :=
  match generalWhere b print f.patterns uri fc with
  | none => []
  | some cond =>
    if hasResFc b fc then typesOf (rowsWhere db cond)
    else typesOf ((b.window fc.limit fc.offset (rowsWhere db cond)).getD [])

/-- The texts fit. -/
def textsFit (b : Backend) (print : Json → CStr) (f : Forbidden) (db : Db) (uri : CStr) (fc : FilterCriteria)
    (cols : CStr) (details : Bool) : Bool :=
  match b with
  | .postgresql => pgFits f uri fc cols details (typesFound .postgresql print f db uri fc)
  | .sqlite => sqliteFits f uri fc (typesFound .sqlite print f db uri fc)

/-- `db_get_descendants`, with `ref_cols` for the columns of a result without attributes. -/
def dbGetDescendants (b : Backend) (print : Json → CStr) (f : Forbidden) (db : Db) (uri : CStr) (fc : FilterCriteria)
    (cols : CStr) (details : Bool) : Option (List Entry) :=
  if textsFit b print f db uri fc cols details then queryDescendants b print f.patterns db uri fc details else none

/-- The conditions of `getForbiddenUri`, each printed in a buffer. -/
def forbiddenConditions (b : Backend) (acps : List CStr) : List Piece :=
  match b with
  | .postgresql => separated " OR ".toList (acps.map fun u => .buf ("acpi LIKE ".toList ++ literal "%\"".toList u "\"%".toList))
  | .sqlite => acps.map fun u => .buf ("acpi LIKE '%\"".toList ++ u ++ "\"%' OR ".toList)

/-- `condition[512]`, on SQLite `buf[256]`, and `sql[2048]` hold the texts of `getForbiddenUri`. -/
def forbiddenFits (b : Backend) (acps : List CStr) : Bool :=
  let l := forbiddenConditions b acps
  match b with
  | .postgresql => l.all (Piece.fits 512) && decide (byteLen ("SELECT uri FROM general WHERE ".toList ++ clause l ++ [';']) < 2048)
  | .sqlite => l.all (Piece.fits 256) && decide (byteLen ("SELECT uri FROM 'general' WHERE ".toList ++ clause l) < 2048)

/-- `getForbiddenUri`: the addresses of the rows whose `acpi` has one of the texts in quotes. -/
def getForbiddenUri (b : Backend) (print : Json → CStr) (db : Db) (acps : List CStr) : Option (List CStr) :=
  if forbiddenFits b acps then
    some (((db.filter fun r => acps.any fun u => (r.text print .acpi).any (b.like (quotedPattern u))).map Row.uri).filter
      fun uri => b = .sqlite || !uri.isEmpty)
  else none

variable {b : Backend} {print : Json → CStr} {f : Forbidden} {db : Db} {uri cols : CStr} {fc : FilterCriteria}
  {details : Bool} {rows : List Entry}

/-- What is answered is what the queries give. -/
theorem queryDescendants_of_some (h : dbGetDescendants b print f db uri fc cols details = some rows) :
    queryDescendants b print f.patterns db uri fc details = some rows :=
  (Option.ite_none_right_eq_some.mp h).2

theorem dbGetDescendants_of_fit (h : textsFit b print f db uri fc cols details = true) :
    dbGetDescendants b print f db uri fc cols details = queryDescendants b print f.patterns db uri fc details :=
  if_pos h

end TinyIoT
