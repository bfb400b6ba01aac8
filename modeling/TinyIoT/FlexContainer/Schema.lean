/-
The check of custom attributes against a definition (`sdt_validate_fcnt`), beside what a definition says: which
attributes there are, of which types, which may be null, which an update may give and which a creation must give.
The check goes by the looks of a value; and the type of a null value is checked before its cardinality is read, where the
values of most types are not null.
-/
import TinyIoT.FlexContainer.Types

namespace TinyIoT

/-! ## What a definition says -/

namespace SdtDef

variable (d : SdtDef)

/-- The attributes that are declared. -/
def attrs : List SdtAttr := d.attributes.getD []

/-- The declaration of a name: the first one. -/
def decl (name : CStr) : Option SdtAttr := d.attrs.find? fun a => a.sname = some name

end SdtDef

namespace SdtAttr

variable (a : SdtAttr)

/-- The value is of the type of the attribute, where one is declared. -/
def Takes (v : Json) : Prop := ∀ t ∈ a.type, HasType t v

/-- The value looks like one of the type. -/
def Admits (v : Json) : Prop := ∀ t ∈ a.type, LooksLike t v

variable {a} in
theorem Takes.admits {v : Json} (h : a.Takes v) : a.Admits v := fun t ht => looksLike_of_hasType (h t ht)

/-- The cardinality is 1 or 1N. -/
def Single : Prop := a.car = some "1".toList ∨ a.car = some "1N".toList

/-- An update may give the attribute. -/
def Updatable : Prop := a.ou ≠ some "NP".toList

/-- A creation must give the attribute. -/
def Mandatory : Prop := a.oc = some "M".toList

end SdtAttr

/-- The custom attributes are as the definition has them. -/
structure Conforms (d : SdtDef) (op : Operation) (custom : Obj) : Prop where
  declared : ∀ e ∈ custom, (d.decl e.1.name).isSome
  typed : ∀ e ∈ custom, e.2.isNull = false → ∀ a ∈ d.decl e.1.name, a.Takes e.2
  nulls : ∀ e ∈ custom, e.2.isNull = true → op = .update ∧ ∀ a ∈ d.decl e.1.name, ¬a.Single
  updatable : op = .update → ∀ e ∈ custom, ∀ a ∈ d.decl e.1.name, a.Updatable
  given : op = .create → ∀ a ∈ d.attrs, a.Mandatory → ∀ name ∈ a.sname, ∃ e ∈ custom, e.1.name = name

/-! ## What the code checks -/

/-- The checks of `sdt_validate_fcnt` once the definition is found. -/
def sdtCheckAttributes (d : SdtDef) (custom : Obj) (op : Operation) : Except Resp Unit :=
  match d.attributes with
  | none => require custom.isEmpty "Unknown attribute in FlexContainer"
  | some attrs => do
    custom.forM (sdtCheckAttr op attrs)
    if op = .create then attrs.forM (sdtCheckMandatory custom) else .ok ()

theorem sdtValidateFcnt_some (sdt : Sdt) (shortname : Option CStr) (cnd : CStr) (custom : Obj) (op : Operation) :
    sdtValidateFcnt sdt shortname (some cnd) custom op =
      (sdtChoose sdt shortname cnd >>= fun d => sdtCheckCnd sdt d cnd >>= fun _ => sdtCheckAttributes d custom op) :=
  rfl

/-- The rules but those that speak of null values alone; a value need only look like one of its type, and a mandatory
attribute is looked for without regard to case. -/
structure Regular (d : SdtDef) (op : Operation) (custom : Obj) : Prop where
  declared : ∀ e ∈ custom, (d.decl e.1.name).isSome
  typed : ∀ e ∈ custom, e.2.isNull = false → ∀ a ∈ d.decl e.1.name, a.Admits e.2
  single : ∀ e ∈ custom, e.2.isNull = true → ∀ a ∈ d.decl e.1.name, ¬a.Single
  updatable : op = .update → ∀ e ∈ custom, ∀ a ∈ d.decl e.1.name, a.Updatable
  given : op = .create → ∀ a ∈ d.attrs, a.Mandatory → ∀ name ∈ a.sname, ∃ e ∈ custom, sameKey e.1.name name

theorem andThen_ok_iff {ε β : Type} {x : Except ε Unit} {y : Except ε β} {b : β} :
    (x >>= fun _ => y) = .ok b ↔ x = .ok () ∧ y = .ok b := by
  cases x with
  | error e => simp [bind, Except.bind]
  | ok a => simp [bind, Except.bind]

theorem forM_ok_iff {α ε : Type} {f : α → Except ε Unit} {l : List α} : l.forM f = .ok () ↔ ∀ a ∈ l, f a = .ok () := by
  induction l with
  | nil => exact ⟨fun _ => by simp, fun _ => rfl⟩
  | cons a l ih =>
    rw [List.forall_mem_cons, ← ih]
    exact andThen_ok_iff

theorem sdtCheckAttr_iff {op : Operation} {attrs : List SdtAttr} {e : Attr × Json} : sdtCheckAttr op attrs e = .ok () ↔
    ∃ a, attrs.find? (fun a => a.sname = some e.1.name) = some a ∧ a.Admits e.2 ∧ (op = .update → a.Updatable) ∧
      (e.2.isNull = true → ¬a.Single) := by
  unfold sdtCheckAttr
  cases hf : attrs.find? fun a => a.sname = some e.1.name with
  | none => simp
  | some a =>
    have htype : a.type.elim (.ok ()) (sdtValidateAttrType · e.2) = .ok () ↔ a.Admits e.2 := by
      unfold SdtAttr.Admits
      cases ht : a.type with
      | none => simp
      | some t => simpa using sdtValidateAttrType_iff t e.2
    have hou : (!(op = .update && a.ou = some "NP".toList)) = true ↔ (op = .update → a.Updatable) := by
      unfold SdtAttr.Updatable
      by_cases hop : op = .update <;> simp [hop]
    have hcar : (!((a.car = some "1".toList || a.car = some "1N".toList) && e.2.isNull)) = true ↔
        (e.2.isNull = true → ¬a.Single) := by
      unfold SdtAttr.Single
      cases e.2.isNull <;> simp
    simp only [andThen_ok_iff, htype, require_iff, hou, hcar, Option.some.injEq, exists_eq_left']

theorem sdtCheckMandatory_iff {custom : Obj} {a : SdtAttr} : sdtCheckMandatory custom a = .ok () ↔
    (a.Mandatory → ∀ name ∈ a.sname, ∃ e ∈ custom, sameKey e.1.name name) := by
  unfold sdtCheckMandatory SdtAttr.Mandatory
  rw [require_iff]
  rw [Bool.or_eq_true, decide_eq_true_eq, ne_eq, ← imp_iff_not_or]
  refine imp_congr_right fun _ => ?_
  cases a.sname with
  | none => simp
  | some name => simp [List.any_eq_true]

section Checked

variable {d : SdtDef} {op : Operation} {custom : Obj}

/-- What the loops of the checks accept. -/
theorem sdtCheckAttributes_loops : sdtCheckAttributes d custom op = .ok () ↔
    (∀ e ∈ custom, ∃ a ∈ d.decl e.1.name, a.Admits e.2 ∧ (op = .update → a.Updatable) ∧
      (e.2.isNull = true → ¬a.Single)) ∧
    (op = .create → ∀ a ∈ d.attrs, a.Mandatory → ∀ name ∈ a.sname, ∃ e ∈ custom, sameKey e.1.name name) := by
  unfold sdtCheckAttributes SdtDef.decl SdtDef.attrs
  cases d.attributes with
  | none =>
    rw [require_iff]
    cases custom with
    | nil => simp
    | cons e l =>
      constructor
      · rintro ⟨⟩
      · rintro ⟨h, -⟩
        obtain ⟨a, ha, -⟩ := h e List.mem_cons_self
        cases ha
  | some attrs =>
    have hcreate : (if op = .create then attrs.forM (sdtCheckMandatory custom) else .ok ()) = .ok () ↔
        (op = .create → ∀ a ∈ attrs, a.Mandatory → ∀ name ∈ a.sname, ∃ e ∈ custom, sameKey e.1.name name) := by
      by_cases hop : op = .create
      · simp only [hop, if_true, forM_ok_iff, sdtCheckMandatory_iff, true_implies]
      · simp [hop]
    rw [andThen_ok_iff, forM_ok_iff, hcreate]
    exact and_congr_left fun _ => forall₂_congr fun e _ => sdtCheckAttr_iff

/-- What the checks accept: the rules hold, and a null value looks like one of the declared type. -/
theorem sdtCheckAttributes_iff : sdtCheckAttributes d custom op = .ok () ↔
    Regular d op custom ∧ ∀ e ∈ custom, e.2.isNull = true → ∀ a ∈ d.decl e.1.name, a.Admits e.2 := by
  rw [sdtCheckAttributes_loops]
  constructor
  · rintro ⟨h, hgiven⟩
    have hone : ∀ e ∈ custom, ∀ a ∈ d.decl e.1.name, a.Admits e.2 ∧ (op = .update → a.Updatable) ∧
        (e.2.isNull = true → ¬a.Single) := by
      intro e he a ha
      obtain ⟨b, hb, hfits⟩ := h e he
      rwa [Option.some.inj (ha.symm.trans hb)]
    refine ⟨⟨fun e he => ?_, fun e he _ a ha => (hone e he a ha).1, fun e he hn a ha => (hone e he a ha).2.2 hn,
      fun hop e he a ha => (hone e he a ha).2.1 hop, hgiven⟩, fun e he _ a ha => (hone e he a ha).1⟩
    obtain ⟨a, ha, -⟩ := h e he
    exact Option.isSome_iff_exists.mpr ⟨a, ha⟩
  · rintro ⟨h, hnulls⟩
    refine ⟨fun e he => ?_, h.given⟩
    obtain ⟨a, ha⟩ := Option.isSome_iff_exists.mp (h.declared e he)
    refine ⟨a, ha, ?_, fun hop => h.updatable hop e he a ha, fun hn => h.single e he hn a ha⟩
    cases hn : e.2.isNull with
    | true => exact hnulls e he hn a ha
    | false => exact h.typed e he hn a ha

theorem conforms_iff : Conforms d op custom ↔ Regular d op custom ∧
    (∀ e ∈ custom, e.2.isNull = false → ∀ a ∈ d.decl e.1.name, a.Takes e.2) ∧
    (∀ e ∈ custom, e.2.isNull = true → op = .update) ∧
    (op = .create → ∀ a ∈ d.attrs, a.Mandatory → ∀ name ∈ a.sname, ∃ e ∈ custom, e.1.name = name) := by
  constructor
  · intro h
    refine ⟨⟨h.declared, fun e he hn a ha => (h.typed e he hn a ha).admits, fun e he hn => (h.nulls e he hn).2, h.updatable,
      fun hop a ha hm name hname => ?_⟩, h.typed, fun e he hn => (h.nulls e he hn).1, h.given⟩
    obtain ⟨e, he, rfl⟩ := h.given hop a ha hm name hname
    exact ⟨e, he, decide_eq_true rfl⟩
  · rintro ⟨h, htyped, hop, hgiven⟩
    exact ⟨h.declared, htyped, fun e he hn => ⟨hop e he hn, h.single e he hn⟩, h.updatable, hgiven⟩

end Checked

/-! ## When the check follows the definition -/

/-- A value is mistaken for one of the declared type it only looks like. -/
def Mistakes (d : SdtDef) (custom : Obj) : Prop :=
  ∃ e ∈ custom, e.2.isNull = false ∧ ∃ a ∈ d.decl e.1.name, a.Admits e.2 ∧ ¬a.Takes e.2

/-- Null is given for an attribute whose type has it not. -/
def ShunsNull (d : SdtDef) (custom : Obj) : Prop :=
  ∃ e ∈ custom, e.2.isNull = true ∧ ∃ a ∈ d.decl e.1.name, ¬a.Admits e.2

/-- A request that breaks no other rule either gives null where the type has it not, in an update beside a mistaken value;
or it mistakes no value, and outside an update gives no null and every mandatory attribute under its very name. -/
def Unmistaken (d : SdtDef) (op : Operation) (custom : Obj) : Prop :=
  Regular d op custom →
    (op = .update → (ShunsNull d custom ↔ Mistakes d custom)) ∧
    (op ≠ .update → ShunsNull d custom ∨ ¬Mistakes d custom ∧ (∀ e ∈ custom, e.2.isNull = false) ∧
      (op = .create → ∀ a ∈ d.attrs, a.Mandatory → ∀ name ∈ a.sname, ∃ e ∈ custom, e.1.name = name))

section Unmistaken

variable {d : SdtDef} {op : Operation} {custom : Obj}

theorem not_shunsNull_iff :
    (∀ e ∈ custom, e.2.isNull = true → ∀ a ∈ d.decl e.1.name, a.Admits e.2) ↔ ¬ShunsNull d custom := by
  unfold ShunsNull
  push Not
  rfl

theorem not_mistakes_iff (h : Regular d op custom) :
    (∀ e ∈ custom, e.2.isNull = false → ∀ a ∈ d.decl e.1.name, a.Takes e.2) ↔ ¬Mistakes d custom := by
  unfold Mistakes
  push Not
  refine forall₂_congr fun e he => forall_congr' fun hn => forall₂_congr fun a ha => ?_
  exact ⟨fun ht _ => ht, fun ht => ht (h.typed e he hn a ha)⟩

end Unmistaken

theorem accepts_iff_conforms {sdt : Sdt} {shortname : Option CStr} {cnd : CStr} {d : SdtDef}
    (hfound : sdtChoose sdt shortname cnd = .ok d) (hcnd : sdtCheckCnd sdt d cnd = .ok ()) (custom : Obj) (op : Operation) :
    (sdtValidateFcnt sdt shortname (some cnd) custom op = .ok () ↔ Conforms d op custom) ↔ Unmistaken d op custom := by
  have hcode : sdtValidateFcnt sdt shortname (some cnd) custom op = sdtCheckAttributes d custom op := by
    rw [sdtValidateFcnt_some, hfound]
    show (sdtCheckCnd sdt d cnd >>= fun _ => sdtCheckAttributes d custom op) = _
    rw [hcnd]
    rfl
  rw [hcode, sdtCheckAttributes_iff, conforms_iff]
  unfold Unmistaken
  by_cases hreg : Regular d op custom
  · rw [not_shunsNull_iff, not_mistakes_iff hreg]
    simp only [hreg, true_and, true_implies]
    by_cases hop : op = .update
    · -- the definition asks nothing more of an update
      simp only [hop, implies_true, reduceCtorEq, false_implies, and_true, true_implies, ne_eq, not_true_eq_false, not_iff_not]
    · have hnull : ShunsNull d custom → ¬∀ e ∈ custom, e.2.isNull = false := by
        rintro ⟨e, he, hn, -⟩ hall
        rw [hall e he] at hn
        cases hn
      simp only [hop, imp_false, false_implies, true_and, ne_eq, not_false_iff, true_implies, Bool.not_eq_true]
      by_cases hshuns : ShunsNull d custom
      · simp only [hshuns, not_true, false_iff, true_or, iff_true]
        exact fun h => hnull hshuns h.2.1
      · simp only [hshuns, not_false_iff, true_iff, false_or]
  · simp [hreg]

/-- A definition with one attribute, a string that may be missing. -/
def lampDef : SdtDef where
  type := "cod:lamp".toList
  cnd := some "org.lamp".toList
  attributes := some [{ sname := some "clr".toList, type := some "string".toList, car := some "01".toList }]

/-- The name of its attribute. -/
def lampColour : Attr := .other "clr".toList

theorem accepts_iff_conforms_lamp : sdtChoose [lampDef] (some lampDef.type) "org.lamp".toList = .ok lampDef ∧
    ((sdtValidateFcnt [lampDef] (some lampDef.type) (some "org.lamp".toList) [(lampColour, .str "red".toList)] .update =
      .ok () ↔ Conforms lampDef .update [(lampColour, .str "red".toList)]) ↔
    Unmistaken lampDef .update [(lampColour, .str "red".toList)]) :=
  ⟨rfl, accepts_iff_conforms rfl rfl _ _⟩

/-- An update cannot take the optional string away: null is no string. -/
theorem not_accepts_iff_conforms_null : ¬ ∀ sdt sn cnd d custom op, sdtChoose sdt sn cnd = .ok d →
    sdtCheckCnd sdt d cnd = .ok () → (sdtValidateFcnt sdt sn (some cnd) custom op = .ok () ↔ Conforms d op custom) := by
  intro h
  have hdecl : lampDef.decl lampColour.name =
      some { sname := some "clr".toList, type := some "string".toList, car := some "01".toList } := rfl
  have hconf : Conforms lampDef .update [(lampColour, .null)] := by
    refine ⟨?_, ?_, ?_, ?_, nofun⟩
    all_goals simp only [List.mem_singleton, forall_eq, forall_true_left, hdecl]
    · rfl
    · simp [Json.isNull]
    · simp [SdtAttr.Single]
    · simp [SdtAttr.Updatable]
  have hcode := (h [lampDef] (some lampDef.type) "org.lamp".toList lampDef _ _ rfl rfl).mpr hconf
  cases hcode

end TinyIoT
