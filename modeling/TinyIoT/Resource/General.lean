/-
What the handlers of every resource type share: the attributes `add_general_attribute` appends, the
checks of `acpi`, `aa`, `cr` and of the resource name, the treatment of `at`, and the storing of a new
resource in the database and in the tree.
-/
import TinyIoT.Server.Delete
import TinyIoT.Server.Resolve

namespace TinyIoT

/-- `is_blank_string`. -/
def isBlank (s : CStr) : Bool := s.all fun c => c = ' ' || ('\t' ≤ c && c ≤ '\r')

/-- The names of `ANNC_ATTR_TABLE` a resource of the type may list in `aa`. -/
def oaFields : ResourceType → List CStr
  | .ae => ["daci", "loc", "apn", "api", "aei", "poa", "or", "nl", "rr", "csz", "regs", "trps", "scp"].map
      String.toList
  | .cnt => ["daci", "loc", "mni", "mbs", "mia", "li", "or", "disr"].map String.toList
  | .cin => ["loc", "cnf", "conr", "or", "con"].map String.toList
  | .grp => ["daci", "spty", "cnm", "mnm", "mid", "macp", "mtv", "csy", "gn", "ssi", "nar", "scen", "scal",
      "mt"].map String.toList
  | .ts => ["daci", "loc", "mni", "mbs", "mia", "pei", "peid", "mdn", "mdt", "or", "cnf"].map String.toList
  | .fcnt => ["daci", "loc", "or", "nl", "mni", "mia", "mbs", "cni", "cbs"].map String.toList
  | _ => []

/-- `validate_aa`: only the names that may be announced stay; when none does, an UPDATE carries null and
a CREATE drops the attribute. -/
def validateAa (op : Operation) (o : Obj) (ty : ResourceType) : Obj :=
  match o.get .aa with
  | none => o
  | some .null => o
  | some aa =>
    let kept := aa.items.filter fun e => match e.valuestring with
      | none => false
      | some name => name ∈ oaFields ty
    if kept ≠ [] then o.set .aa (.arr kept)
    else if op = .update then o.set .aa .null
    else o.del .aa

/-- The `cr` attribute of a CREATE: null asks for the originator, any other value is refused. -/
def assignCreator (req : Req) (o : Obj) : Except Resp Obj :=
  match o.get .cr with
  | none => .ok o
  | some .null => .ok ((o.del .cr).add .cr (.str req.fr))
  | some _ => .error (handleError .badRequest "creator attribute with arbitary value is not allowed")

/-- `handle_annc_create` and what its caller does with the addresses it got. -/
def announceAt (env : Env) (o : Obj) : Obj :=
  let final := (o.arr .at).filterMap fun j => (j.valuestring.bind env.remoteAnnc).map Json.str
  if final ≠ [] then (o.del .at).add .at (.arr final) else o.del .at

/-- One entry of `acpi`. -/
def validateAcpiEntry (now : CStr) (s : Server) (j : Json) : Except Resp Unit :=
  match j.valuestring with
  | none => .error (handleError .badRequest "attribute `acpi` contains an invalid resource identifier")
  | some addr =>
    if isBlank addr then
      .error (handleError .badRequest "attribute `acpi` contains an invalid resource identifier")
    else match (s.findNode now addr).deref s with
      | none => .error (handleError .badRequest "resource `acp` is not found")
      | some acp =>
        if acp.ty ≠ .acp then
          .error (handleError .badRequest
            "attribute `acpi` does not reference an accessControlPolicy resource")
        else .ok ()

/-- What `validate_acpi` returns; what it leaves of the server is `afterAcpi`. -/
def validateAcpi (now : CStr) (s : Server) (acpi : Json) (op : Operation) : Except Resp Unit :=
  match acpi with
  | .null =>
    if op = .update then .ok () else .error (handleError .badRequest "attribute `acpi` is null")
  | .arr [] => .error (handleError .badRequest "attribute `acpi` is empty")
  | .arr l => l.forM (validateAcpiEntry now s)
  | _ => .error (handleError .badRequest "attribute `acpi` is in invalid form")

namespace Server

/-- The lookup of one entry; an expired resource goes. -/
def afterAcpiEntry (now : CStr) (s : Server) (j : Json) : Server :=
  match j.valuestring with
  | none => s
  | some addr => if isBlank addr then s else (s.findRtnode now addr).1

/-- What `validate_acpi` leaves of the server: it stops at the first entry it refuses, and what the entries before it name
is there. -/
def afterAcpi (now : CStr) (s : Server) (acpi : Option Json) : Server :=
  match acpi with
  | some (.arr l) =>
    ((l.find? fun j => (validateAcpiEntry now s j).toOption.isNone).map (s.afterAcpiEntry now)).getD s
  | _ => s

/-- What a check of `acpi` leaves that comes after others. -/
def afterChecks (now : CStr) (s : Server) (before : Except Resp Unit) (acpi : Option Json) : Server :=
  match before with
  | .error _ => s
  | .ok () => s.afterAcpi now acpi

variable {now : CStr} {s : Server}

theorem LooksUp.find (addr : CStr) : LooksUp now s (s.findRtnode now addr).1 := .single ⟨addr, rfl⟩

theorem looksUp_afterAcpi (acpi : Option Json) : LooksUp now s (s.afterAcpi now acpi) := by
  unfold afterAcpi
  split
  · rename_i l
    cases l.find? fun j => (validateAcpiEntry now s j).toOption.isNone with
    | none => exact .refl
    | some j =>
      show LooksUp now s (s.afterAcpiEntry now j)
      unfold afterAcpiEntry
      split
      · exact .refl
      · split
        · exact .refl
        · exact .find _
  · exact .refl

theorem looksUp_afterChecks (before : Except Resp Unit) (acpi : Option Json) : LooksUp now s (s.afterChecks now before acpi) := by
  unfold afterChecks
  split
  · exact .refl
  · exact looksUp_afterAcpi _

/-- Nothing that `acpi` names is expired. -/
def AcpiSettled (now : CStr) (s : Server) : Option Json → Prop
  | some (.arr l) => ∀ j ∈ l, ∀ addr ∈ j.valuestring, s.Settled now addr
  | _ => True

instance (now : CStr) (s : Server) : (acpi : Option Json) → Decidable (s.AcpiSettled now acpi)
  | some (.arr l) => inferInstanceAs (Decidable (∀ j ∈ l, ∀ addr ∈ j.valuestring, s.Settled now addr))
  | none | some .null | some (.bool _) | some (.num _) | some (.str _) | some (.obj _) =>
    isTrue trivial

theorem findRtnode_fst_settled {addr : CStr} (h : s.Settled now addr) : (s.findRtnode now addr).1 = s := by
  rcases findRtnode_settled h with hf | ⟨n, -, hf⟩ <;> rw [hf]

/-- The checks leave a server alone where nothing they look up is expired. -/
theorem afterAcpi_settled {acpi : Option Json} (h : s.AcpiSettled now acpi) : s.afterAcpi now acpi = s := by
  unfold afterAcpi
  split
  · rename_i l
    cases hj : l.find? fun j => (validateAcpiEntry now s j).toOption.isNone with
    | none => rfl
    | some j =>
      show s.afterAcpiEntry now j = s
      have hset := h j (List.mem_of_find?_eq_some hj)
      unfold afterAcpiEntry
      split
      · rfl
      · rename_i addr haddr
        split
        · rfl
        · exact findRtnode_fst_settled (hset addr haddr)
  · rfl

theorem afterChecks_settled {acpi : Option Json} (h : s.AcpiSettled now acpi) (before : Except Resp Unit) :
    s.afterChecks now before acpi = s := by
  unfold afterChecks
  split
  · rfl
  · exact afterAcpi_settled h

end Server

/-- `add_general_attribute`; the identifier counter moves on. -/
def addGeneralAttribute (env : Env) (o parent : Obj) (ty : ResourceType) (n : Nat) : Option (Obj × Nat) := do
  let (ri, n) := resourceIdentifier ty env.now n
  let o := ((o.add .ty (.int ty.code)).add .ct (.str env.now)).add .ri (.str ri)
  let o := if o.has .rn then o else o.add .rn (.str ri)
  let o := o.add .lt (.str env.now)
  let pi ← parent.str .ri
  let o := o.add .pi (.str pi)
  let o := if o.has .et then o else o.add .et (.str env.expireAt)
  return (o, n)

namespace Server

/-- `check_rn_duplicate`: a name the client chose is compared with the names of the children in
memory, and that of a content instance with the rows of the parent as well. -/
def checkRnDuplicate (s : Server) (req : Req) (ty : ResourceType) (parent : RTNode) : Option Resp :=
  match req.pc.str .rn with
  | none => none
  | some rn =>
    let inTree := (s.children parent.id).roots.any fun c => c.rn = rn
    let inDb := ty = .cin && s.db.any fun r => r.obj.str .rn = some rn && r.pi = parent.ri
    if inTree || inDb then some (handleError .conflict "attribute `rn` is duplicated") else none

/-- The end of a create handler: the row, the node, its place in the tree. -/
def storeResource (s : Server) (parent : RTNode) (o : Obj) (ty : ResourceType) : Option (Server × Resp) := do
  let rn ← o.str .rn
  match s.db.dbStoreResource o (parent.uri ++ '/' :: rn) with
  | none => return (s, handleError .internalServerError "DB store fail")
  | some db =>
    let n ← createRtnode s.nextId o ty
    return ({ s with db := db, nextId := s.nextId + 1 }.addChildResourceTree parent n, done .created)

end Server

end TinyIoT
