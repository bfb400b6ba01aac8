/-
What becomes of an attribute in the database. The writer (`db_store_resource`) chooses a cell by the JSON type
of the value; the reader (`db_get_resource`, and the other row readers with the same loop) guesses the type
back from the cell: on PostgreSQL every cell is a text, which is an array or an object where it parses as one,
a number where `strtol` takes all of it, and a string otherwise; on SQLite an integer cell is a number and a
text is copied to a buffer of 256 bytes first.
-/
import TinyIoT.Database.Tables
import TinyIoT.Lib.Decimal

namespace TinyIoT

def Json.isContainer : Json → Bool
  | .arr _ => true
  | .obj _ => true
  | _ => false

/-- `cJSON_PrintUnformatted` and `cJSON_Parse`, with what the readers rely on: an array or an object is printed
as something, and the digits of a number are parsed as neither. -/
structure CJson where
  print : Json → CStr
  parse : CStr → Option Json
  print_ne_nil : ∀ j, j.isContainer = true → print j ≠ []
  parse_decimal : ∀ i : Int, (parse (Decimal.ofInt i)).all (fun j => !j.isContainer) = true

/-- A cell of a row. -/
inductive SqlCell where
  | null
  | int (i : Int)
  | text (s : CStr)

/-! ## The tables of attributes -/

/-- `ATTRIBUTES["general"]`. -/
def generalAttrs : List Attr := [.rn, .ri, .pi, .ct, .et, .lt, .uri, .acpi, .lbl, .ty, .memberOf]

/-- `ATTRIBUTES[get_resource_key(ty)]`. -/
def specificAttrs : ResourceType → List Attr
  | .ae => [.api, .aei, .rr, .poa, .other "apn".toList, .srv, .at, .aa, .ast]
  | .cnt => [.cr, .mni, .mbs, .mia, .st, .cni, .cbs, .at, .aa, .ast]
  | .cin => [.cs, .cr, .con, .cnf, .st, .at, .aa, .ast]
  | .acp => [.pv, .pvs, .at, .aa, .ast]
  | .sub => [.enc, .exc, .nu, .other "gpi".toList, .other "nfu".toList, .other "bn".toList, .other "rl".toList,
      .other "sur".toList, .nct, .cr, .su]
  | .grp => [.gn, .cr, .mt, .cnm, .mnm, .mid, .macp, .mtv, .csy, .at, .aa, .ast]
  | .csr => [.other "cst".toList, .poa, .cb, .dcse, .csi, .other "mei".toList, .other "tri".toList, .other "csz".toList,
      .rr, .other "nl".toList, .srv, .other "spi".toList]
  | .cse => [.other "cst".toList, .csi, .srt, .rr, .poa, .srv, .at, .aa, .ast, .other "spi".toList]
  | .acpa => [.lnk, .pv, .pvs, .ast]
  | .cba => [.lnk, .other "cst".toList, .csi, .srt, .poa, .srv, .rr, .ast]
  | .aea => [.lnk, .api, .aei, .rr, .poa, .other "apn".toList, .srv, .ast]
  | .cnta => [.lnk, .cr, .mni, .mbs, .st, .cni, .cbs, .ast]
  | .grpa => [.lnk, .cr, .mt, .cnm, .mnm, .mid, .macp, .mtv, .csy, .gn, .at, .aa, .ast]
  | .cina => [.lnk, .cs, .cr, .con, .cnf, .st, .ast]
  | .fcnt => [.cnd, .other "oref".toList, .other "nl".toList, .cr, .at, .aa, .ast, .st, .cs, .fcied, .mni, .mbs, .mia,
      .cni, .cbs, .other "loc".toList, .other "daci".toList]
  | .fcin => [.cs, .st, .other "org".toList, .other "loc".toList, .at, .aa, .ast]
  | .ts => [.cr, .mni, .mbs, .mia, .cni, .cbs, .cnf, .pei, .peid, .mdd, .mdn, .mdt, .mdc, .mdlt, .at, .aa, .ast]
  | .tsa => [.lnk, .cr, .mni, .mbs, .mia, .cni, .cbs, .cnf, .pei, .peid, .mdd, .mdn, .mdt, .ast]
  | .tsi => [.dgt, .con, .snr, .cs]
  | _ => []

/-- The columns a resource of the type is stored in. -/
def columns (ty : ResourceType) : List Attr := generalAttrs ++ specificAttrs ty

/-! ## Writing and reading -/

/-- What the writer puts into a column: `db_test_and_bind_value`, and the INSERT statement of PostgreSQL. SQLite
does not bind a negative number. -/
def bindValue (b : Backend) (cj : CJson) : Option Json → SqlCell
  | none => .null
  | some .null => .null
  | some (.bool x) => .int (if x then 1 else 0)
  | some (.num v) => if b = .sqlite ∧ (Json.num v).valueint < 0 then .null else .int (Json.num v).valueint
  | some (.str s) => .text s
  | some j => .text (cj.print j)

/-- The columns `db_store_resource` writes. -/
def storeColumns (b : Backend) (cj : CJson) (obj : Obj) (uri : CStr) (ty : ResourceType) : List (Attr × SqlCell) :=
  (columns ty).map fun k => (k, if k = .uri then .text uri else bindValue b cj (obj.get k))

/-- The name `get_table_name` gives the table of a type. -/
def tableName : ResourceType → CStr
  | .cse => "cb".toList | .ae => "ae".toList | .cnt => "cnt".toList | .cin => "cin".toList | .acp => "acp".toList
  | .grp => "grp".toList | .sub => "sub".toList | .csr => "csr".toList | .acpa => "acpA".toList | .aea => "aeA".toList
  | .cba => "cbA".toList | .cnta => "cntA".toList | .grpa => "grpA".toList | .tsa => "tsA".toList | .cina => "cinA".toList
  | .fcnt => "fcnt".toList | .fcin => "fcin".toList | .ts => "ts".toList | .tsi => "tsi".toList
  | _ => []

/-- A cell in the INSERT statement of PostgreSQL. -/
def SqlCell.literal : SqlCell → CStr
  | .null => "NULL".toList
  | .int i => Decimal.ofInt i
  | .text s => '\'' :: Backend.postgresql.escaped s ++ ['\'']

/-- Texts with commas between them. -/
def commaList (l : List CStr) : CStr := (l.intersperse [',']).flatten

/-- The INSERT statement of PostgreSQL, for the cells of the general attributes and of those of the type. -/
def insertText (ty : ResourceType) (general specific : List (Attr × SqlCell)) : CStr :=
  "WITH ins AS (INSERT INTO general (".toList ++ commaList (general.map fun c => c.1.name) ++ ") VALUES (".toList ++
    commaList (general.map fun c => c.2.literal) ++ ") RETURNING id) INSERT INTO ".toList ++ tableName ty ++ " (id, ".toList ++
    commaList (specific.map fun c => c.1.name) ++ ") SELECT id, ".toList ++ commaList (specific.map fun c => c.2.literal) ++
    " FROM ins;".toList

/-- `strlen`. -/
def byteLen (s : CStr) : Nat := (s.map Char.utf8Size).sum

/-- `db_store_resource` has a table for the type, and its `malloc(4096)` holds the statement of PostgreSQL. SQLite binds
the values. -/
def insertFits (b : Backend) (ty : ResourceType) (cells : List (Attr × SqlCell)) : Bool :=
  ResourceType.tables.contains ty && (b = .sqlite ||
    byteLen (insertText ty (cells.take generalAttrs.length) (cells.drop generalAttrs.length)) < 4096)

/-- A text that does not parse as an array or an object. -/
def plainText (cj : CJson) (s : CStr) : Bool := (cj.parse s).all fun j => !j.isContainer

/-- What PostgreSQL's reader makes of a text. -/
def readText (cj : CJson) (k : Attr) (s : CStr) : Option Json :=
  if s = [] then none
  else if plainText cj s then
    match Decimal.strtol s with
    | some n => some (if k = .fcied then .bool (cInt n ≠ 0) else .int n)
    | none => some (.str s)
  else cj.parse s

/-- The value a column is read as. -/
def readCell (b : Backend) (cj : CJson) (k : Attr) : SqlCell → Option Json
  | .null => none
  | .int i => match b with
    | .postgresql => readText cj k (Decimal.ofInt i)
    | .sqlite => some (if k = .fcied then .bool (i ≠ 0) else .int i)
  | .text s => match b with
    | .postgresql => readText cj k s
    | .sqlite => if plainText cj s then some (.str s) else cj.parse s

/-- Does a cell fit the reader's buffer, with the NUL after it? -/
def fits (b : Backend) : SqlCell → Bool
  | .text s => b = .postgresql || byteLen s ≤ 255
  | _ => true

/-- The reader's loop over the columns; it writes past its buffer where a cell does not fit. -/
def readColumns (b : Backend) (cj : CJson) (cells : List (Attr × SqlCell)) : Option Obj :=
  if cells.all fun c => fits b c.2 then
    some (cells.filterMap fun c => (readCell b cj c.1 c.2).map fun v => (c.1, v))
  else none

/-- A resource is stored, and read back with the values it was stored with. -/
def ReadBack (b : Backend) (cj : CJson) (obj : Obj) (uri : CStr) (ty : ResourceType) : Prop :=
  insertFits b ty (storeColumns b cj obj uri ty) = true ∧
    ∃ o, readColumns b cj (storeColumns b cj obj uri ty) = some o ∧ ∀ k ∈ columns ty, k ≠ .uri → o.get k = obj.get k

/-- The values that come back: a string that looks like neither JSON nor, on PostgreSQL, a number, and is not
empty there; an `int`, on SQLite none below zero; a boolean in `fcied` alone; an array or an object that is
parsed as it was printed. -/
def Comes (b : Backend) (cj : CJson) (k : Attr) : Json → Prop
  | .null => False
  | .bool _ => k = .fcied
  | .num v => k ≠ .fcied ∧ v = (Json.num v).valueint ∧ (b = .sqlite → 0 ≤ (Json.num v).valueint)
  | .str s => plainText cj s = true ∧ (b = .postgresql → s ≠ [] ∧ Decimal.strtol s = none)
  | j => cj.parse (cj.print j) = some j

variable {b : Backend} {cj : CJson} {k : Attr}

/-! ## One column -/

/-- An `int` comes back as a number, or as a boolean under `fcied`. -/
theorem readCell_int {i : Int} (h₀ : intMin ≤ i) (h₁ : i ≤ intMax) :
    readCell b cj k (.int i) = some (if k = .fcied then .bool (i ≠ 0) else .int i) := by
  cases b with
  | sqlite => rfl
  | postgresql =>
    have hne : Decimal.ofInt i ≠ [] := by
      unfold Decimal.ofInt
      split
      · exact List.cons_ne_nil _ _
      · exact Decimal.ofNat_ne_nil _
    have hlong : Decimal.strtol (Decimal.ofInt i) = some i := by
      refine Decimal.strtol_ofInt (le_trans ?_ h₀) (le_trans h₁ ?_)
      · decide
      · decide
    show readText cj k (Decimal.ofInt i) = _
    unfold readText
    rw [if_neg hne, if_pos (show plainText cj _ = true from cj.parse_decimal i), hlong]
    simp only [cInt_eq h₀ h₁]

theorem plainText_eq_false {s : CStr} : plainText cj s = false ↔ ∃ j, cj.parse s = some j ∧ j.isContainer = true := by
  unfold plainText
  cases cj.parse s with
  | none => simp
  | some j => simp

/-- A text comes back as the string it was. -/
theorem readCell_text_str {s : CStr} : readCell b cj k (.text s) = some (.str s) ↔ Comes b cj k (.str s) := by
  have hparse : plainText cj s = false → cj.parse s ≠ some (.str s) := by
    intro h he
    obtain ⟨j, hj, hc⟩ := plainText_eq_false.mp h
    cases Option.some.inj (hj.symm.trans he)
    cases hc
  cases b with
  | sqlite =>
    show (if plainText cj s then some (Json.str s) else cj.parse s) = some (.str s) ↔
      plainText cj s = true ∧ (Backend.sqlite = Backend.postgresql → s ≠ [] ∧ Decimal.strtol s = none)
    cases hp : plainText cj s with
    | true => simp
    | false => simpa using hparse hp
  | postgresql =>
    show readText cj k s = some (.str s) ↔ plainText cj s = true ∧ (Backend.postgresql = Backend.postgresql → s ≠ [] ∧ Decimal.strtol s = none)
    unfold readText
    by_cases hs : s = []
    · simp [hs]
    · cases hp : plainText cj s with
      | false => simpa [hs] using hparse hp
      | true =>
        cases hd : Decimal.strtol s with
        | none => simp [hs]
        | some n => by_cases hk : k = .fcied <;> simp [hs, hk, Json.int]

/-- A printed array or object comes back where it is parsed as it was printed. -/
theorem readCell_text_container {j : Json} (hj : j.isContainer = true) :
    readCell b cj k (.text (cj.print j)) = some j ↔ cj.parse (cj.print j) = some j := by
  have hread : plainText cj (cj.print j) = false → readCell b cj k (.text (cj.print j)) = cj.parse (cj.print j) := by
    intro hp
    cases b with
    | sqlite => simp [readCell, hp]
    | postgresql => simp [readCell, readText, hp, cj.print_ne_nil j hj]
  cases hp : plainText cj (cj.print j) with
  | false => rw [hread hp]
  | true =>
    have hparse : cj.parse (cj.print j) ≠ some j := by
      intro he
      rw [plainText_eq_false.mpr ⟨j, he, hj⟩] at hp
      cases hp
    refine iff_of_false ?_ hparse
    cases b with
    | sqlite =>
      simp only [readCell, hp, if_true, Option.some.injEq]
      intro he
      rw [← he] at hj
      cases hj
    | postgresql =>
      simp only [readCell, readText, hp, if_true, cj.print_ne_nil j hj, if_false]
      cases Decimal.strtol (cj.print j) with
      | none =>
        simp only [Option.some.injEq]
        intro he
        rw [← he] at hj
        cases hj
      | some n =>
        simp only [Option.some.injEq]
        intro he
        rw [← he] at hj
        split at hj <;> cases hj

/-- A value comes back from its column exactly when it is of a kind that does. -/
theorem readCell_bindValue_iff {v : Json} : readCell b cj k (bindValue b cj (some v)) = some v ↔ Comes b cj k v := by
  cases v with
  | null => exact iff_of_false (fun h => by cases h) fun h => h
  | bool x =>
    show readCell b cj k (.int _) = _ ↔ k = .fcied
    rw [readCell_int (by cases x <;> decide) (by cases x <;> decide)]
    by_cases hk : k = .fcied
    · cases x <;> simp [hk]
    · simp [hk, Json.int]
  | num v =>
    show readCell b cj k (if b = .sqlite ∧ (Json.num v).valueint < 0 then SqlCell.null else .int (Json.num v).valueint) = _ ↔
      k ≠ .fcied ∧ v = (Json.num v).valueint ∧ (b = .sqlite → 0 ≤ (Json.num v).valueint)
    by_cases hneg : b = .sqlite ∧ (Json.num v).valueint < 0
    · rw [if_pos hneg]
      refine iff_of_false (fun h => by cases h) ?_
      rintro ⟨_, _, h⟩
      exact absurd (h hneg.1) (Int.not_le.mpr hneg.2)
    · rw [if_neg hneg, readCell_int (Json.valueint_ge _) (Json.valueint_le _)]
      have hpos : b = .sqlite → 0 ≤ (Json.num v).valueint := fun hb => Int.not_lt.mp fun h => hneg ⟨hb, h⟩
      by_cases hk : k = .fcied
      · simp [hk]
      · simp only [hk, if_false, Json.int, Option.some.injEq, Json.num.injEq, ne_eq, not_false_eq_true, true_and]
        exact ⟨fun h => ⟨h.symm, hpos⟩, fun h => h.1.symm⟩
  | str s => exact readCell_text_str
  | arr l => exact readCell_text_container rfl
  | obj m => exact readCell_text_container rfl

/-! ## A row -/

theorem get_filterMap {f : Attr → Option Json} {l : List Attr} (h : k ∈ l) :
    Assoc.get (l.filterMap fun k => (f k).map fun v => (k, v)) k = f k := by
  induction l with
  | nil => cases h
  | cons a l ih =>
    by_cases hk : a = k
    · subst hk
      cases hf : f a with
      | some v => simp [hf]
      | none =>
        rw [List.filterMap_cons_none (by simp [hf])]
        by_cases hmem : a ∈ l
        · exact (ih hmem).trans hf
        · refine Assoc.get_eq_none_iff.mpr fun hkeys => hmem ?_
          obtain ⟨e, he, hea⟩ := List.mem_map.mp hkeys
          obtain ⟨a', ha', hm⟩ := List.mem_filterMap.mp he
          obtain ⟨v, _, rfl⟩ := Option.map_eq_some_iff.mp hm
          cases hea
          exact ha'
    · have hmem : k ∈ l := (List.mem_cons.mp h).resolve_left fun he => hk he.symm
      cases hf : f a with
      | none => rw [List.filterMap_cons_none (by simp [hf]), ih hmem]
      | some v =>
        rw [List.filterMap_cons_some (by rw [hf]; rfl)]
        simpa [hk] using ih hmem

/-- Printing and parsing as far as objects without arrays and objects need them. -/
def numberCodec : CJson where
  print
    | .arr _ => "[]".toList
    | .obj _ => "\x7b\x7d".toList
    | _ => []
  parse s := (Decimal.strtol s).map Json.int
  print_ne_nil j hj := by
    cases j with
    | arr l => exact List.cons_ne_nil _ _
    | obj m => exact List.cons_ne_nil _ _
    | _ => cases hj
  parse_decimal i := by
    cases Decimal.strtol (Decimal.ofInt i) with
    | none => rfl
    | some n => rfl

/-- An instance whose content is a string of digits. -/
def digitsCin : Obj :=
  [(.con, .str "123".toList), (.rn, .str "x".toList), (.ri, .str "4-1".toList), (.pi, .str "3-1".toList), (.ty, .int 4),
    (.cs, .int 3), (.st, .int 1)]

end TinyIoT
