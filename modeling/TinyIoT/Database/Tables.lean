/-
The two backends (`postgresql_implement.c`, `sqlite_implement.c`) as tables: a resource has a row in
`general` and one with the same `id` in the table of its type. A DELETE names the table `general`, by the
pattern of a uri or by an `ri`; what becomes of the row in the type's table is up to the foreign keys.
-/
import TinyIoT.Server.Db
import TinyIoT.Lib.Reach

namespace TinyIoT

/-- `DB_TYPE`. -/
inductive Backend where
  | postgresql | sqlite
  deriving DecidableEq, Repr

/-- The `LIKE` of SQLite: it takes no notice of the case of ASCII letters and has no escape character. -/
def likeNoCase : (pat : CStr) → (s : CStr) → Bool
  | [], s => s.isEmpty
  | '%' :: p, s => s.tails.any (likeNoCase p)
  | '_' :: p, s => match s with
    | [] => false
    | _ :: s' => likeNoCase p s'
  | c :: p, s => match s with
    | [] => false
    | d :: s' => c.toLower = d.toLower && likeNoCase p s'

namespace Backend

def like : Backend → CStr → CStr → Bool
  | postgresql => TinyIoT.like
  | sqlite => likeNoCase

/-- Do the foreign keys of the type tables take effect? SQLite ignores `PRAGMA foreign_keys = ON` inside a
transaction, and `init_dbp` of `sqlite_implement.c` gives it after `BEGIN TRANSACTION`. -/
def cascades : Backend → Bool
  | postgresql => true
  | sqlite => false

/-- Is a text that is put between quotes read back as it is? `PQescapeStringConn` doubles the quotes of the
text; for SQLite it is put there unchanged. -/
def quotable : Backend → CStr → Bool
  | postgresql, _ => true
  | sqlite, s => s.all fun c => c != '\''

/-- `PQescapeStringConn`: the quotes are doubled; for SQLite a text is put into a statement as it is. -/
def escaped : Backend → CStr → CStr
  | postgresql, s => s.flatMap fun c => if c = '\'' then [c, c] else [c]
  | sqlite, s => s

end Backend

/-- The rows of `general`, each by its `id` and with what the type's table has for it, and the rows of the
type tables. -/
structure Tables where
  general : List (Nat × Row)
  typed : List (ResourceType × Nat)
  nextId : Nat

/-- The row `db_store_resource` inserts. -/
def storedRow (obj : Obj) (uri : CStr) : Option Row := do
  let ty ← obj.get .ty
  let tbl ← ResourceType.ofTable ty.valueint
  return ⟨uri, tbl, Assoc.drop (Assoc.overlay column obj []) .uri⟩

theorem dbStoreResource_eq (db : Db) (obj : Obj) (uri : CStr) :
    db.dbStoreResource obj uri = (storedRow obj uri).map fun r => db ++ [r] := by
  unfold Db.dbStoreResource storedRow
  cases obj.get .ty with
  | none => rfl
  | some ty =>
    cases h : ResourceType.ofTable ty.valueint with
    | none => simp [h]
    | some tbl => simp [h]

/-- The row of a resource after `db_update_resource` with `obj`. -/
def Row.update (r : Row) (obj : Obj) (ri : CStr) : Row :=
  if r.ri = some ri then
    { r with uri := (obj.str .uri).getD r.uri, obj := Assoc.drop (Assoc.overlay column obj r.obj) .uri }
  else r

namespace Tables

/-- `db_store_resource`. -/
def store (t : Tables) (obj : Obj) (uri : CStr) : Option Tables :=
  (storedRow obj uri).map fun r => ⟨t.general ++ [(t.nextId, r)], t.typed ++ [(r.ty, t.nextId)], t.nextId + 1⟩

/-- `db_update_resource`. -/
def update (t : Tables) (obj : Obj) (ri : CStr) : Tables :=
  { t with general := t.general.map fun e => (e.1, e.2.update obj ri) }

/-- `DELETE FROM general WHERE p`. -/
def deleteWhere (b : Backend) (t : Tables) (p : Row → Bool) : Tables :=
  { t with
    general := t.general.filter fun e => !p e.2
    typed := if b.cascades then t.typed.filter fun x => t.general.all fun e => e.1 ≠ x.2 || !p e.2 else t.typed }

/-- The WHERE clause of `db_delete_onem2m_resource`. -/
def deleteMatches (b : Backend) (uri ri : CStr) (r : Row) : Bool :=
  b.like (uri ++ ['/', '%']) r.uri || r.ri = some ri

/-- The statement of `db_delete_onem2m_resource`. -/
def deleteText (b : Backend) (uri ri : CStr) : CStr :=
  "DELETE FROM general WHERE uri LIKE '".toList ++ b.escaped uri ++ "/%' OR ri='".toList ++ b.escaped ri ++ "';".toList

/-- `sprintf` writes it into `char sql[1024]`. -/
def deleteFits (b : Backend) (uri ri : CStr) : Bool := (deleteText b uri ri).length < 1024

/-- `db_delete_onem2m_resource` of a node; a text with a quote in it leaves no DELETE statement, and one that is too long
runs over the buffer. -/
def deleteResource (b : Backend) (t : Tables) (uri ri : CStr) : Option Tables :=
  if b.quotable uri && b.quotable ri && deleteFits b uri ri then some (t.deleteWhere b (deleteMatches b uri ri)) else none

/-- `DELETE FROM general WHERE ri='...'`, as `db_delete_one_cin_mni` gives it. -/
def deleteRi (b : Backend) (t : Tables) (ri : CStr) : Tables := t.deleteWhere b fun r => r.ri = some ri

end Tables

end TinyIoT
