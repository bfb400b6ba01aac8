/-
The database layer (`postgresql_implement.c`) over a list of rows in the order of their `id`. A row
keeps the attributes of the object that was stored; an SQL statement selects rows by the columns its
WHERE clause names. A string comes back as the string that was stored, a number by its `%d` text and a
boolean as 0 or 1; NULL and empty columns are not returned.
-/
import TinyIoT.Server.State

namespace TinyIoT

/-- `strcmp(s, t) < 0`. -/
def strLt : CStr → CStr → Bool
  | [], [] => false
  | [], _ :: _ => true
  | _ :: _, [] => false
  | a :: s, b :: t => a < b || (a = b && strLt s t)

/-- SQL `s LIKE pat`: `%` stands for any text, `_` for one character, a backslash quotes the next. -/
def like : (pat : CStr) → (s : CStr) → Bool
  | [], s => s.isEmpty
  | '%' :: p, s => s.tails.any (like p)
  | '_' :: p, s => match s with
    | [] => false
    | _ :: s' => like p s'
  | '\\' :: c :: p, s => match s with
    | [] => false
    | d :: s' => c = d && like p s'
  | c :: p, s => match s with
    | [] => false
    | d :: s' => c = d && like p s'

/-- ORDER BY .. ASC LIMIT 1: the first of the smallest. -/
def firstMin {α : Type} (lt : α → α → Bool) : List α → Option α
  | [] => none
  | a :: l => match firstMin lt l with
    | none => some a
    | some b => if lt b a then some b else some a

/-- ORDER BY .. DESC, id DESC LIMIT 1: the last of the greatest. -/
def lastMax {α : Type} (lt : α → α → Bool) : List α → Option α
  | [] => none
  | a :: l => match lastMax lt l with
    | none => some a
    | some b => if lt b a then some a else some b

theorem firstMin_mem {α : Type} {lt : α → α → Bool} {l : List α} {a : α} (h : firstMin lt l = some a) :
    a ∈ l := by
  induction l generalizing a with
  | nil => cases h
  | cons b l ih =>
    unfold firstMin at h
    split at h
    · cases h; exact List.mem_cons_self
    · rename_i c hc
      split at h
      · cases h; exact List.mem_cons_of_mem _ (ih hc)
      · cases h; exact List.mem_cons_self

theorem firstMin_eq_none {α : Type} {lt : α → α → Bool} {l : List α} (h : firstMin lt l = none) : l = [] := by
  cases l with
  | nil => rfl
  | cons b l =>
    unfold firstMin at h
    split at h
    · cases h
    · split at h <;> cases h

theorem lastMax_mem {α : Type} {lt : α → α → Bool} {l : List α} {a : α} (h : lastMax lt l = some a) :
    a ∈ l := by
  induction l generalizing a with
  | nil => cases h
  | cons b l ih =>
    unfold lastMax at h
    split at h
    · cases h; exact List.mem_cons_self
    · rename_i c hc
      split at h
      · cases h; exact List.mem_cons_self
      · cases h; exact List.mem_cons_of_mem _ (ih hc)

/-- What a column holds of a value and gives back: nothing for null and for an empty string. -/
def column : Json → Option Json
  | .null => none
  | .str [] => none
  | .num v => some (.int (Json.num v).valueint)
  | .bool b => some (.int (if b then 1 else 0))
  | j => some j

/-- The value a column keeps of a string and of a size. -/
theorem column_str {x : CStr} (h : x ≠ []) : column (.str x) = some (.str x) := by
  cases x with
  | nil => exact absurd rfl h
  | cons c x => rfl

theorem column_int {c : Int} (h0 : intMin ≤ c) (h1 : c ≤ intMax) : column (.int c) = some (.int c) := by
  show some (Json.int (Json.int c).valueint) = _
  rw [Json.valueint_int h0 h1]

/-- The object `SELECT *` gives for a row. -/
def Row.load (r : Row) : Obj := (.uri, .str r.uri) :: r.obj

/-- The order of rows by a text column; a row without it comes after those with it. -/
def rowLt (k : Attr) (r q : Row) : Bool :=
  match r.obj.str k, q.obj.str k with
  | some a, some b => strLt a b
  | some _, none => true
  | none, _ => false

theorem strLt_asymm {a b : CStr} (h : strLt a b = true) : strLt b a = false := by
  induction a generalizing b with
  | nil =>
    cases b with
    | nil => cases h
    | cons y b => rfl
  | cons x a ih =>
    cases b with
    | nil => cases h
    | cons y b =>
      have hlt : ∀ c d : Char, c < d ↔ c.toNat < d.toNat := fun _ _ => UInt32.lt_iff_toNat_lt
      simp only [strLt, Bool.or_eq_true, Bool.and_eq_true, decide_eq_true_eq, hlt] at h
      simp only [strLt, Bool.or_eq_false_iff, Bool.and_eq_false_iff, decide_eq_false_iff_not, hlt]
      rcases h with h | ⟨rfl, h⟩
      · refine ⟨by omega, .inl ?_⟩
        rintro rfl
        omega
      · exact ⟨by omega, .inr (ih h)⟩

theorem rowLt_asymm {k : Attr} {r q : Row} (h : rowLt k r q = true) : rowLt k q r = false := by
  unfold rowLt at h ⊢
  cases hr : r.obj.str k with
  | none =>
    rw [hr] at h
    cases h
  | some a =>
    cases hq : q.obj.str k with
    | none => rfl
    | some b =>
      rw [hr, hq] at h
      exact strLt_asymm h

namespace Db

/-- `db_store_resource`: fails when `ty` is missing or names no table. -/
def dbStoreResource (db : Db) (obj : Obj) (uri : CStr) : Option Db := do
  let ty ← obj.get .ty
  let tbl ← ResourceType.ofTable ty.valueint
  return db ++ [⟨uri, tbl, Assoc.drop (Assoc.overlay column obj []) .uri⟩]

/-- `db_update_resource`: the columns `obj` names, of the row with this `ri`. -/
def dbUpdateResource (db : Db) (obj : Obj) (ri : CStr) : Db :=
  db.map fun r =>
    if r.ri = some ri then
      { r with uri := (obj.str .uri).getD r.uri, obj := Assoc.drop (Assoc.overlay column obj r.obj) .uri }
    else r

/-- The WHERE clause of `db_delete_onem2m_resource`. -/
def deleteMatches (uri ri : CStr) (r : Row) : Bool :=
  like (uri ++ ['/', '%']) r.uri || r.ri = some ri

/-- `db_delete_onem2m_resource`; a node without `ri` deletes nothing. -/
def dbDeleteOnem2mResource (db : Db) (n : RTNode) : Db :=
  match n.ri with
  | none => db
  | some ri => db.filter fun r => !deleteMatches n.uri ri r

/-- The rows of the type's table under a parent, in `id` order. -/
def instances (db : Db) (ty : ResourceType) (pi : CStr) : List Row :=
  db.filter fun r => r.ty = ty && r.pi = some pi

/-- `db_delete_one_cin_mni`: the instance with the lowest `lt` goes; its `cs`, or 0 when there is none. Which of several
with the same `lt` the query leaves open; here it is the one stored first. -/
def dbDeleteOneCinMni (db : Db) (cntRi : CStr) : Db × Int :=
  match firstMin (rowLt .lt) (db.instances .cin cntRi) with
  | none => (db, 0)
  | some r => (db.filter (fun q => q.ri ≠ r.ri), ((r.obj.get .cs).map Json.valueint).getD 0)

/-- `db_get_cin_rtnode_list`: the instances as nodes, oldest `id` first. -/
def dbGetCinRtnodeList (db : Db) (cntRi : CStr) : List RTNode :=
  (db.instances .cin cntRi).filterMap fun r => createRtnode 0 r.load .cin

/-- The order of `db_get_cin_laol` (`lt`), `db_get_tsi_laol` (`ct`) and `db_get_fcin_laol` (`st`). -/
def laolLt : ResourceType → Row → Row → Bool
  | .tsi => rowLt .ct
  | .fcin => fun r q => ((r.obj.get .st).map Json.valueint).getD 0 < ((q.obj.get .st).map Json.valueint).getD 0
  | _ => rowLt .lt

/-- `db_get_cin_laol`, `db_get_fcin_laol`, `db_get_tsi_laol`: the latest or the oldest instance. -/
def dbGetLaol (db : Db) (ty : ResourceType) (pi : CStr) (latest : Bool) : Option Obj :=
  let pick := if latest then lastMax (laolLt ty) else firstMin (laolLt ty)
  (pick (db.instances ty pi)).map Row.load

/-- `db_get_resource_by_uri`. -/
def dbGetResourceByUri (db : Db) (uri : CStr) (ty : ResourceType) : Option Obj :=
  (db.find? fun r => r.uri = uri && r.ty = ty).map Row.load

/-- `db_get_resource`. -/
def dbGetResource (db : Db) (ri : CStr) (ty : ResourceType) : Option Obj :=
  (db.find? fun r => r.ri = some ri && r.ty = ty).map Row.load

end Db

end TinyIoT
