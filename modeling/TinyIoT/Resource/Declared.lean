/-
The attributes a request may carry, and `is_attr_valid`, which holds a body against the table of them. The walk goes down
into objects and into the objects of arrays; a member of an object that has no elements itself is passed over, so that a
scalar one level down may have any name and any type.
-/
import TinyIoT.Base.Types
import TinyIoT.Resource.Sdt

namespace TinyIoT

/-! ## The table -/

section Table

def decl (name : String) (j : Json) : Attr × Json := (.other name.toList, j)

def text : Json := .str []

def numeric : Json := .num 0

def texts : Json := .arr [text]

/-- The declaration of the privileges of an access control policy. -/
def acrDecl : Json :=
  .obj [decl "acr" (.arr [.obj [decl "acor" texts, decl "acop" numeric,
    decl "acco" (.arr [.obj [decl "acip" (.obj [decl "ipv4" texts, decl "ipv6" texts])]])]])]

/-- The part of the table for every type. -/
def generalDecls : List (Attr × Json) :=
  [decl "rn" text, decl "ri" text, decl "pi" text, decl "ct" text, decl "et" text, decl "lt" text, decl "uri" text,
    decl "acpi" texts, decl "lbl" texts, decl "ty" numeric, decl "memberOf" texts]

/-- What resources that may be announced have. -/
def announceDecls : List (Attr × Json) := [decl "at" texts, decl "aa" texts, decl "ast" numeric]

/-- `ATTRIBUTES`, with the key of each part. -/
def attributesTable : List (String × List (Attr × Json)) :=
  [("general", generalDecls),
    ("m2m:ae", [decl "api" text, decl "aei" text, decl "rr" (.bool true), decl "poa" texts, decl "apn" text,
      decl "srv" texts] ++ announceDecls),
    ("m2m:cnt", [decl "cr" .null, decl "mni" numeric, decl "mbs" numeric, decl "mia" numeric, decl "st" numeric,
      decl "cni" numeric, decl "cbs" numeric] ++ announceDecls),
    ("m2m:cin", [decl "cs" numeric, decl "cr" .null, decl "con" text, decl "cnf" text, decl "st" text] ++ announceDecls),
    ("m2m:acp", [decl "pv" acrDecl, decl "pvs" acrDecl] ++ announceDecls),
    ("m2m:sub", [decl "enc" (.obj [decl "net" (.arr [.num 1]), decl "atr" texts, decl "chty" (.arr [numeric]),
        decl "md" (.obj [decl "num" numeric, decl "dur" text])]), decl "exc" numeric, decl "nu" texts, decl "gpi" numeric,
      decl "nfu" numeric, decl "bn" numeric, decl "rl" numeric, decl "sur" numeric, decl "nct" numeric, decl "cr" text,
      decl "su" text]),
    ("m2m:grp", [decl "gn" text, decl "cr" text, decl "mt" numeric, decl "cnm" numeric, decl "mnm" numeric,
      decl "mid" texts, decl "macp" texts, decl "mtv" (.bool true), decl "csy" numeric] ++ announceDecls),
    ("m2m:csr", [decl "cst" numeric, decl "poa" texts, decl "cb" text, decl "dcse" texts, decl "csi" text, decl "mei" text,
      decl "tri" text, decl "csz" texts, decl "rr" (.bool true), decl "nl" text, decl "srv" texts, decl "spi" text]),
    ("m2m:cb", [decl "cst" numeric, decl "csi" text, decl "srt" texts, decl "rr" (.bool true), decl "poa" texts,
      decl "srv" (.arr [numeric]), decl "at" (.arr []), decl "aa" (.arr []), decl "ast" numeric, decl "spi" text]),
    ("m2m:acpA", [decl "lnk" text, decl "pv" acrDecl, decl "pvs" acrDecl, decl "ast" numeric]),
    ("m2m:cbA", [decl "lnk" text, decl "cst" numeric, decl "csi" text, decl "srt" texts, decl "poa" texts, decl "srv" texts,
      decl "rr" (.bool true), decl "ast" numeric]),
    ("m2m:aeA", [decl "lnk" text, decl "api" text, decl "aei" text, decl "rr" (.bool true), decl "poa" texts,
      decl "apn" text, decl "srv" texts, decl "ast" numeric]),
    ("m2m:cntA", [decl "lnk" text, decl "cr" text, decl "mni" numeric, decl "mbs" numeric, decl "st" numeric,
      decl "cni" numeric, decl "cbs" numeric, decl "ast" numeric]),
    ("m2m:grpA", [decl "lnk" text, decl "cr" text, decl "mt" numeric, decl "cnm" numeric, decl "mnm" numeric,
      decl "mid" texts, decl "macp" texts, decl "mtv" (.bool true), decl "csy" numeric, decl "gn" text] ++ announceDecls),
    ("m2m:cinA", [decl "lnk" text, decl "cs" numeric, decl "cr" text, decl "con" text, decl "cnf" text, decl "st" text,
      decl "ast" numeric]),
    ("m2m:fcnt", [decl "cnd" text, decl "oref" text, decl "nl" text, decl "cr" .null] ++ announceDecls ++
      [decl "st" numeric, decl "cs" numeric, decl "fcied" numeric, decl "mni" numeric, decl "mbs" numeric,
        decl "mia" numeric, decl "cni" numeric, decl "cbs" numeric, decl "loc" text, decl "daci" texts]),
    ("m2m:fcin", [decl "cs" numeric, decl "st" numeric, decl "org" text, decl "loc" text] ++ announceDecls),
    ("m2m:ts", [decl "cr" .null, decl "mni" numeric, decl "mbs" numeric, decl "mia" numeric, decl "cni" numeric,
      decl "cbs" numeric, decl "cnf" text, decl "pei" numeric, decl "peid" numeric, decl "mdd" (.bool false),
      decl "mdn" numeric, decl "mdt" numeric, decl "mdc" numeric, decl "mdlt" texts] ++ announceDecls),
    ("m2m:tsA", [decl "lnk" text, decl "cr" text, decl "mni" numeric, decl "mbs" numeric, decl "mia" numeric,
      decl "cni" numeric, decl "cbs" numeric, decl "cnf" text, decl "pei" numeric, decl "peid" numeric,
      decl "mdd" (.bool false), decl "mdn" numeric, decl "mdt" numeric, decl "ast" numeric]),
    ("m2m:tsi", [decl "dgt" text, decl "con" text, decl "snr" numeric, decl "cs" numeric])]

end Table

/-! ## The walk -/

/-- The types of cJSON. -/
inductive JsonType where
  | isFalse | isTrue | null | number | string | array | object
  deriving DecidableEq, Repr

def Json.type : Json → JsonType
  | .null => .null
  | .bool b => if b then .isTrue else .isFalse
  | .num _ => .number
  | .str _ => .string
  | .arr _ => .array
  | .obj _ => .object

/-- `cJSON_GetArraySize`. -/
def Json.size : Json → Nat
  | .arr l => l.length
  | .obj ms => ms.length
  | _ => 0

/-- `cJSON_GetObjectItem`: names are compared without regard to case. -/
def findMember (ms : List (Attr × Json)) (name : CStr) : Option Json :=
  (ms.find? fun e => sameKey e.1.name name).map (·.2)

/-- The declaration an attribute is held against; below an array that is the array itself. -/
def verifierOf (obj : Json) (name : CStr) : Option Json :=
  match obj with
  | .obj ms => findMember ms name
  | .arr l => some (.arr l)
  | _ => none

/-- The declaration of the elements of an array. -/
def childDecl : Json → Option Json
  | .arr l => l.head?
  | _ => none

/-- The value has the declared type: anything may be null, and a boolean may be either. -/
def typesMatch (d v : Json) : Bool :=
  v.type = .null || d.type = v.type ||
    ((d.type = .isTrue || d.type = .isFalse) && (v.type = .isTrue || v.type = .isFalse))

/-- What a check of attributes gives: that they are valid, an error with its text, or a read through NULL. -/
inductive AttrVerdict where
  | valid
  | invalid (text : CStr)
  | crash
  deriving DecidableEq, Repr

def AttrVerdict.andThen : AttrVerdict → AttrVerdict → AttrVerdict
  | .valid, r => r
  | r, _ => r

/-- `validate_sub_attr` up to the descent. -/
def holdAgainst (obj : Json) (name : CStr) (v : Json) (inside : Json → AttrVerdict) : AttrVerdict :=
  match verifierOf obj name with
  | none => .invalid ("invalid attribute : ".toList ++ name)
  | some d => if typesMatch d v then inside d else .invalid ("invalid attribute type : ".toList ++ name)

mutual

/-- The descent of `validate_sub_attr` into a value. -/
def validateInside (name : CStr) (d : Json) : Json → AttrVerdict
  | .obj ms => validateMembers true d ms
  | .arr l => validateElements name d l
  | _ => .valid
termination_by structural v => v

/-- The loop over the members of an object; of an object that is a value itself, those without elements are passed over. -/
def validateMembers (pass : Bool) (d : Json) : List (Attr × Json) → AttrVerdict
  | [] => .valid
  | (k, v) :: ms =>
    if pass && v.size = 0 then validateMembers pass d ms
    else (holdAgainst d k.name v fun d' => validateInside k.name d' v).andThen (validateMembers pass d ms)
termination_by structural ms => ms

/-- The loop over the elements of an array. -/
def validateElements (name : CStr) (d : Json) : List Json → AttrVerdict
  | [] => .valid
  | e :: l =>
    match childDecl d with
    | none => .crash
    | some c =>
      if e.type ≠ c.type then .invalid ("invalid attribute type : ".toList ++ name)
      else (validateElement c e).andThen (validateElements name d l)
termination_by structural l => l

/-- The members of an element that is an object. -/
def validateElement (c : Json) : Json → AttrVerdict
  | .obj ms => validateMembers false c ms
  | _ => .valid
termination_by structural e => e

end

/-- `validate_sub_attr`. -/
def validateSubAttr (obj : Json) (attr : Attr × Json) : AttrVerdict :=
  holdAgainst obj attr.1.name attr.2 fun d => validateInside attr.1.name d attr.2

/-- The loop of `is_attr_valid`: an attribute that the type does not have may be one of all types. -/
def validateAttrs (attrs general : List (Attr × Json)) : List (Attr × Json) → AttrVerdict
  | [] => .valid
  | a :: ms =>
    match validateSubAttr (.obj attrs) a with
    | .valid => validateAttrs attrs general ms
    | .crash => .crash
    | .invalid _ => (validateSubAttr (.obj general) a).andThen (validateAttrs attrs general ms)

/-- The part of the table with that key. -/
def declsOf (key : String) : Option (List (Attr × Json)) := (attributesTable.find? fun e => e.1 = key).map (·.2)

/-- `is_attr_valid`. -/
def isAttrValid (body : List (Attr × Json)) (ty : ResourceType) : AttrVerdict :=
  match declsOf (getResourceKey ty), findMember body (getResourceKey ty).toList with
  | some attrs, some (.obj ms) => validateAttrs attrs generalDecls ms
  -- the elements of an array have no name
  | some _, some (.arr l) => if l.isEmpty then .valid else .invalid "invalid attribute : (null)".toList
  | some _, some _ => .valid
  | _, _ => .invalid []

/-! ## What is declared -/

/-- Where the members below a value are: the declarations they are held against, and whether the walk passes them over. -/
inductive Place : Json → Json → Bool → Json → Attr × Json → Prop where
  | member {d : Json} {ms : List (Attr × Json)} {m : Attr × Json} (h : m ∈ ms) :
      Place d (.obj ms) (decide (m.2.size = 0)) d m
  | element {d c : Json} {l : List Json} {ms : List (Attr × Json)} {m : Attr × Json} (hc : childDecl d = some c)
      (he : Json.obj ms ∈ l) (h : m ∈ ms) : Place d (.arr l) false c m

/-- Somewhere in a value something is not as declared: among all that is below it, or among what the walk looks at. -/
inductive Misdeclared (all : Bool) : Json → Json → Prop where
  | type {d v : Json} (h : typesMatch d v = false) : Misdeclared all d v
  | element {d e : Json} {l : List Json} (he : e ∈ l) (h : ∀ c, childDecl d = some c → e.type ≠ c.type) :
      Misdeclared all d (.arr l)
  | undeclared {d v d₁ : Json} {passed : Bool} {m : Attr × Json} (hp : Place d v passed d₁ m)
      (hall : passed = true → all = true) (h : verifierOf d₁ m.1.name = none) : Misdeclared all d v
  | inside {d v d₁ d' : Json} {passed : Bool} {m : Attr × Json} (hp : Place d v passed d₁ m)
      (hall : passed = true → all = true) (hd : verifierOf d₁ m.1.name = some d') (h : Misdeclared all d' m.2) :
      Misdeclared all d v

/-- Somewhere in a value a member that is passed over has a name or a type that is not declared. -/
inductive Hidden : Json → Json → Prop where
  | here {d v d₁ : Json} {m : Attr × Json} (hp : Place d v true d₁ m)
      (h : ∀ d', verifierOf d₁ m.1.name = some d' → typesMatch d' m.2 = false) : Hidden d v
  | inside {d v d₁ d' : Json} {m : Attr × Json} (hp : Place d v false d₁ m) (hd : verifierOf d₁ m.1.name = some d')
      (h : Hidden d' m.2) : Hidden d v

/-- The attribute is not as the table declares it. -/
def MisdeclaredIn (all : Bool) (table : List (Attr × Json)) (a : Attr × Json) : Prop :=
  ∀ d, verifierOf (.obj table) a.1.name = some d → Misdeclared all d a.2

/-- Below the attribute something is passed over that the table does not declare. -/
def HiddenIn (table : List (Attr × Json)) (a : Attr × Json) : Prop :=
  ∃ d, verifierOf (.obj table) a.1.name = some d ∧ Hidden d a.2

/-- The body is made of attributes that the tables for its type and for all types declare. -/
def BodyDeclared (body : List (Attr × Json)) (ty : ResourceType) : Prop :=
  ∃ attrs j, declsOf (getResourceKey ty) = some attrs ∧ findMember body (getResourceKey ty).toList = some j ∧
    (∀ l, j = .arr l → l = []) ∧
    ∀ ms, j = .obj ms → ∀ a ∈ ms, ¬ MisdeclaredIn true attrs a ∨ ¬ MisdeclaredIn true generalDecls a

/-- Nothing of the body that is passed over matters: there is nothing undeclared in it, or what the walk looks at has an
attribute that neither table declares. -/
def NothingHidden (body : List (Attr × Json)) (ty : ResourceType) : Prop :=
  ∀ attrs ms, declsOf (getResourceKey ty) = some attrs → findMember body (getResourceKey ty).toList = some (.obj ms) →
    (∃ a ∈ ms, MisdeclaredIn false attrs a ∧ MisdeclaredIn false generalDecls a) ∨ ∀ a ∈ ms, ¬ HiddenIn attrs a

/-! ## The walk finds what is misdeclared where it looks -/

section Walk

variable {d c v e : Json} {m : Attr × Json} {ms : List (Attr × Json)} {l : List Json} {name : CStr} {all : Bool}

/-- A member is as declared. -/
def PlacedRight (all : Bool) (d : Json) (m : Attr × Json) : Prop :=
  ∃ d', verifierOf d m.1.name = some d' ∧ ¬ Misdeclared all d' m.2

theorem andThen_valid {r r' : AttrVerdict} : r.andThen r' = .valid ↔ r = .valid ∧ r' = .valid := by
  cases r <;> simp [AttrVerdict.andThen]

theorem holdAgainst_valid {inside : Json → AttrVerdict} : holdAgainst d name v inside = .valid ↔
    ∃ d', verifierOf d name = some d' ∧ typesMatch d' v = true ∧ inside d' = .valid := by
  unfold holdAgainst
  cases verifierOf d name with
  | none => simp
  | some d' =>
    dsimp only
    cases ht : typesMatch d' v <;> simp [ht]

theorem misdeclared_obj_iff (ht : typesMatch d (.obj ms) = true) : ¬ Misdeclared all d (.obj ms) ↔
    ∀ m ∈ ms, (m.2.size = 0 → all = true) → PlacedRight all d m := by
  constructor
  · intro h m hm hall
    have hp : Place d (.obj ms) (decide (m.2.size = 0)) d m := .member hm
    have hall' : decide (m.2.size = 0) = true → all = true := fun h => hall (of_decide_eq_true h)
    cases hd : verifierOf d m.1.name with
    | none => exact absurd (.undeclared hp hall' hd) h
    | some d' => exact ⟨d', hd, fun hm' => h (.inside hp hall' hd hm')⟩
  · intro h hm
    cases hm with
    | type hn =>
      rw [ht] at hn
      cases hn
    | undeclared hp hall hd =>
      cases hp with
      | member hm =>
        obtain ⟨d', hd', -⟩ := h _ hm fun hz => hall (decide_eq_true hz)
        rw [hd] at hd'
        cases hd'
    | inside hp hall hd hin =>
      cases hp with
      | member hm =>
        obtain ⟨d', hd', hn⟩ := h _ hm fun hz => hall (decide_eq_true hz)
        rw [hd] at hd'
        cases hd'
        exact hn hin

theorem misdeclared_arr_iff (ht : typesMatch d (.arr l) = true) : ¬ Misdeclared all d (.arr l) ↔
    ∀ e ∈ l, ∃ c, childDecl d = some c ∧ e.type = c.type ∧ ∀ ms, e = .obj ms → ∀ m ∈ ms, PlacedRight all c m := by
  constructor
  · intro h e he
    cases hc : childDecl d with
    | none =>
      refine absurd (.element he fun c hc' => ?_) h
      rw [hc] at hc'
      cases hc'
    | some c =>
      have hte : e.type = c.type := by
        by_contra hne
        refine h (.element he fun c' hc' => ?_)
        rw [hc] at hc'
        cases hc'
        exact hne
      refine ⟨c, rfl, hte, ?_⟩
      rintro ms rfl m hm
      have hp : Place d (.arr l) false c m := .element hc he hm
      cases hd : verifierOf c m.1.name with
      | none => exact absurd (.undeclared hp nofun hd) h
      | some d' => exact ⟨d', hd, fun hm' => h (.inside hp nofun hd hm')⟩
  · intro h hm
    cases hm with
    | type hn =>
      rw [ht] at hn
      cases hn
    | element he hne =>
      obtain ⟨c, hc, hte, -⟩ := h _ he
      exact hne c hc hte
    | undeclared hp hall hd =>
      cases hp with
      | element hc he hm =>
        obtain ⟨c', hc', -, hin⟩ := h _ he
        rw [hc] at hc'
        cases hc'
        obtain ⟨d', hd', -⟩ := hin _ rfl _ hm
        rw [hd] at hd'
        cases hd'
    | inside hp hall hd hin =>
      cases hp with
      | element hc he hm =>
        obtain ⟨c', hc', -, hin'⟩ := h _ he
        rw [hc] at hc'
        cases hc'
        obtain ⟨d', hd', hn⟩ := hin' _ rfl _ hm
        rw [hd] at hd'
        cases hd'
        exact hn hin

/-- A value that is neither an object nor an array has nothing below it. -/
theorem misdeclared_scalar_iff (ho : ∀ ms, v ≠ .obj ms) (ha : ∀ l, v ≠ .arr l) :
    ¬ Misdeclared all d v ↔ typesMatch d v = true := by
  constructor
  · intro h
    by_contra hn
    exact h (.type (by simpa using hn))
  · intro ht hm
    cases hm with
    | type hn =>
      rw [ht] at hn
      cases hn
    | element he hne => exact ha _ rfl
    | undeclared hp hall hd =>
      cases hp with
      | member hm => exact ho _ rfl
      | element hc he hm => exact ha _ rfl
    | inside hp hall hd hin =>
      cases hp with
      | member hm => exact ho _ rfl
      | element hc he hm => exact ha _ rfl

mutual

/-- The descent into a value of the declared type. -/
theorem validateInside_iff : ∀ (v d : Json) (name : CStr), typesMatch d v = true →
    (validateInside name d v = .valid ↔ ¬ Misdeclared false d v)
  | .obj ms, d, name, ht => by
    rw [misdeclared_obj_iff ht, validateInside, validateMembers_iff ms true d]
    simp
  | .arr l, d, name, ht => by
    rw [misdeclared_arr_iff ht, validateInside, validateElements_iff l d name]
  | .null, d, name, ht => by
    rw [misdeclared_scalar_iff (fun _ h => by cases h) (fun _ h => by cases h)]
    simp [validateInside, ht]
  | .bool b, d, name, ht => by
    rw [misdeclared_scalar_iff (fun _ h => by cases h) (fun _ h => by cases h)]
    simp [validateInside, ht]
  | .num q, d, name, ht => by
    rw [misdeclared_scalar_iff (fun _ h => by cases h) (fun _ h => by cases h)]
    simp [validateInside, ht]
  | .str s, d, name, ht => by
    rw [misdeclared_scalar_iff (fun _ h => by cases h) (fun _ h => by cases h)]
    simp [validateInside, ht]

theorem validateMembers_iff : ∀ (ms : List (Attr × Json)) (pass : Bool) (d : Json),
    validateMembers pass d ms = .valid ↔ ∀ m ∈ ms, (m.2.size = 0 → pass = false) → PlacedRight false d m
  | [], pass, d => by simp [validateMembers]
  | (k, v) :: ms, pass, d => by
    rw [List.forall_mem_cons, ← validateMembers_iff ms pass d, validateMembers]
    by_cases hp : (pass && decide (v.size = 0)) = true
    · rw [if_pos hp]
      simp only [Bool.and_eq_true, decide_eq_true_eq] at hp
      simp [hp.1, hp.2]
    · rw [if_neg hp, andThen_valid, holdAgainst_valid]
      have hlook : v.size = 0 → pass = false := by
        intro hz
        simpa [hz] using hp
      refine and_congr_left fun _ => ?_
      constructor
      · rintro ⟨d', hd, ht, hin⟩ -
        exact ⟨d', hd, (validateInside_iff v d' k.name ht).mp hin⟩
      · intro h
        obtain ⟨d', hd, hn⟩ := h hlook
        have ht : typesMatch d' v = true := by
          by_contra hne
          exact hn (.type (by simpa using hne))
        exact ⟨d', hd, ht, (validateInside_iff v d' k.name ht).mpr hn⟩

theorem validateElements_iff : ∀ (l : List Json) (d : Json) (name : CStr),
    validateElements name d l = .valid ↔
      ∀ e ∈ l, ∃ c, childDecl d = some c ∧ e.type = c.type ∧ ∀ ms, e = .obj ms → ∀ m ∈ ms, PlacedRight false c m
  | [], d, name => by simp [validateElements]
  | e :: l, d, name => by
    rw [List.forall_mem_cons, ← validateElements_iff l d name, validateElements]
    cases hc : childDecl d with
    | none => simp
    | some c =>
      dsimp only
      by_cases ht : e.type = c.type
      · rw [if_neg (not_not.mpr ht), andThen_valid, validateElement_iff e c]
        simp [ht]
      · rw [if_pos ht]
        simp [ht]

theorem validateElement_iff : ∀ (e c : Json),
    validateElement c e = .valid ↔ ∀ ms, e = .obj ms → ∀ m ∈ ms, PlacedRight false c m
  | .obj ms, c => by
    rw [validateElement, validateMembers_iff ms false c]
    simp
  | .arr l, c => by simp [validateElement]
  | .null, c => by simp [validateElement]
  | .bool b, c => by simp [validateElement]
  | .num q, c => by simp [validateElement]
  | .str s, c => by simp [validateElement]

end

end Walk

/-! ## What is passed over -/

section PassedOver

variable {d v : Json} {a : Attr × Json} {attrs : List (Attr × Json)}

theorem Misdeclared.mono (h : Misdeclared false d v) : Misdeclared true d v := by
  induction h with
  | type h => exact .type h
  | element he h => exact .element he h
  | undeclared hp _ h => exact .undeclared hp (fun _ => rfl) h
  | inside hp _ hd _ ih => exact .inside hp (fun _ => rfl) hd ih

theorem Hidden.misdeclared (h : Hidden d v) : Misdeclared true d v := by
  induction h with
  | @here d v d₁ m hp h =>
    cases hd : verifierOf d₁ m.1.name with
    | none => exact .undeclared hp (fun _ => rfl) hd
    | some d' => exact .inside hp (fun _ => rfl) hd (.type (h d' hd))
  | inside hp hd _ ih => exact .inside hp (fun _ => rfl) hd ih

/-- A value without elements has nothing below it. -/
theorem misdeclared_of_size {all : Bool} (hv : v.size = 0) (h : Misdeclared all d v) : typesMatch d v = false := by
  have hplace : ∀ {passed d₁ m}, ¬ Place d v passed d₁ m := by
    intro passed d₁ m hp
    cases hp with
    | member hm => simp [Json.size, List.ne_nil_of_mem hm] at hv
    | element hc he hm => simp [Json.size, List.ne_nil_of_mem he] at hv
  cases h with
  | type h => exact h
  | element he h => simp [Json.size, List.ne_nil_of_mem he] at hv
  | undeclared hp _ _ => exact absurd hp hplace
  | inside hp _ _ _ => exact absurd hp hplace

/-- What is passed over has no elements. -/
theorem Place.size_passed {d₁ : Json} {m : Attr × Json} (h : Place d v true d₁ m) : m.2.size = 0 := by
  generalize hb : true = passed at h
  cases h with
  | member hm => exact of_decide_eq_true hb.symm
  | element hc he hm => cases hb

theorem Misdeclared.seen_or_hidden (h : Misdeclared true d v) : Misdeclared false d v ∨ Hidden d v := by
  induction h with
  | type h => exact .inl (.type h)
  | element he h => exact .inl (.element he h)
  | @undeclared d v d₁ passed m hp _ h =>
    cases passed with
    | false => exact .inl (.undeclared hp nofun h)
    | true =>
      refine .inr (.here hp fun d' hd => ?_)
      rw [h] at hd
      cases hd
  | @inside d v d₁ d' passed m hp _ hd hin ih =>
    cases passed with
    | true =>
      refine .inr (.here hp fun d'' hd' => ?_)
      rw [hd] at hd'
      cases hd'
      exact misdeclared_of_size hp.size_passed hin
    | false =>
      rcases ih with h | h
      · exact .inl (.inside hp nofun hd h)
      · exact .inr (.inside hp hd h)

theorem misdeclared_iff : Misdeclared true d v ↔ Misdeclared false d v ∨ Hidden d v :=
  ⟨Misdeclared.seen_or_hidden, fun h => h.elim Misdeclared.mono Hidden.misdeclared⟩

end PassedOver

/-! ## The two tables -/

section Tables

variable {d : Json} {a : Attr × Json} {attrs ms : List (Attr × Json)} {name : CStr}

/-- A declaration below which nothing is passed over: no object, and no array of them. -/
def flat : Json → Bool
  | .obj _ => false
  | .arr l => l.all fun c => c.type ≠ .object
  | _ => true

theorem generalDecls_flat : ∀ e ∈ generalDecls, flat e.2 = true := by decide

/-- No type has an attribute of its own under a name that all types have. -/
theorem declsOf_apart : ∀ e ∈ attributesTable, e.1 ≠ "general" →
    ∀ b ∈ e.2, ∀ g ∈ generalDecls, sameKey g.1.name b.1.name = false := by decide +kernel

theorem not_hidden_of_flat {v : Json} (hd : flat d = true) (h : ¬ Misdeclared false d v) : ¬ Hidden d v := by
  have hplace : ∀ {passed d₁ m}, ¬ Place d v passed d₁ m := by
    intro passed d₁ m hp
    have ht : typesMatch d v = true := by
      by_contra hn
      exact h (.type (by simpa using hn))
    cases hp with
    | member hm =>
      cases d with
      | obj ms' => cases hd
      | bool b => cases b <;> cases ht
      | _ => cases ht
    | @element c l ms m hc he hm =>
      cases d with
      | arr l' =>
        obtain ⟨c', hc', hte, -⟩ := (misdeclared_arr_iff ht).mp h _ he
        have hobj : c'.type = .object := hte.symm
        have hne := List.all_eq_true.mp hd c' (List.mem_of_mem_head? hc')
        simp [hobj] at hne
      | _ => cases hc
  intro hh
  cases hh with
  | here hp _ => exact hplace hp
  | inside hp _ _ => exact hplace hp

theorem findMember_some (h : findMember ms name = some d) : ∃ e ∈ ms, sameKey e.1.name name = true ∧ e.2 = d := by
  unfold findMember at h
  obtain ⟨e, he, rfl⟩ := Option.map_eq_some_iff.mp h
  have hsame := List.find?_some he
  exact ⟨e, List.mem_of_find?_eq_some he, hsame, rfl⟩

/-- What the table for a type declares the one for all types does not, unless it is that one. -/
theorem general_of_found {key : String} (hk : declsOf key = some attrs) (h : findMember attrs name = some d) :
    attrs = generalDecls ∨ findMember generalDecls name = none := by
  unfold declsOf at hk
  obtain ⟨e, he, rfl⟩ := Option.map_eq_some_iff.mp hk
  by_cases hg : e.1 = "general"
  · left
    have hkey : e.1 = key := by simpa using List.find?_some he
    rw [← hkey, hg] at he
    have hfirst : attributesTable.find? (fun e => e.1 = "general") = some ("general", generalDecls) := rfl
    rw [hfirst] at he
    cases he
    rfl
  · right
    cases hf : findMember generalDecls name with
    | none => rfl
    | some d' =>
      obtain ⟨b, hb, hbn, -⟩ := findMember_some h
      obtain ⟨g, hgm, hgn, -⟩ := findMember_some hf
      have hsame : sameKey g.1.name b.1.name = true := by
        simp only [sameKey, decide_eq_true_eq] at hbn hgn ⊢
        rw [hgn, hbn]
      rw [declsOf_apart e (List.mem_of_find?_eq_some he) hg b hb g hgm] at hsame
      cases hsame

theorem misdeclaredIn_of_none {all : Bool} (h : findMember attrs a.1.name = none) : MisdeclaredIn all attrs a := by
  intro d hd
  simp [verifierOf, h] at hd

theorem misdeclaredIn_of_some {all : Bool} (h : findMember attrs a.1.name = some d) :
    MisdeclaredIn all attrs a ↔ Misdeclared all d a.2 := by
  simp [MisdeclaredIn, verifierOf, h]

theorem hiddenIn_of_some (h : findMember attrs a.1.name = some d) : HiddenIn attrs a ↔ Hidden d a.2 := by
  simp [HiddenIn, verifierOf, h]

/-- An attribute that the walk lets through is as declared unless something below it is passed over that is not. -/
theorem declared_iff_of_through {key : String} (hk : declsOf key = some attrs)
    (h : ¬ MisdeclaredIn false attrs a ∨ ¬ MisdeclaredIn false generalDecls a) :
    ¬ MisdeclaredIn true attrs a ∨ ¬ MisdeclaredIn true generalDecls a ↔ ¬ HiddenIn attrs a := by
  cases hf : findMember attrs a.1.name with
  | some d =>
    rw [misdeclaredIn_of_some hf] at h ⊢
    rw [hiddenIn_of_some hf]
    rcases general_of_found hk hf with rfl | hg
    · rw [misdeclaredIn_of_some hf, or_self] at h ⊢
      rw [misdeclared_iff]
      tauto
    · have hmis : ∀ all, MisdeclaredIn all generalDecls a := fun all => misdeclaredIn_of_none hg
      simp only [hmis, not_true_eq_false, or_false] at h ⊢
      rw [misdeclared_iff]
      tauto
  | none =>
    have hmis : ∀ all, MisdeclaredIn all attrs a := fun all => misdeclaredIn_of_none hf
    simp only [hmis, not_true_eq_false, false_or] at h ⊢
    have hnot : ¬ HiddenIn attrs a := by
      rintro ⟨d, hd, -⟩
      simp [verifierOf, hf] at hd
    cases hg : findMember generalDecls a.1.name with
    | none => exact absurd (misdeclaredIn_of_none hg) h
    | some d =>
      rw [misdeclaredIn_of_some hg] at h ⊢
      obtain ⟨g, hgm, -, hgd⟩ := findMember_some hg
      have hflat : flat d = true := hgd ▸ generalDecls_flat g hgm
      rw [misdeclared_iff]
      simp [h, hnot, not_hidden_of_flat hflat h]

end Tables

/-! ## The whole body -/

section Body

variable {a : Attr × Json} {attrs ms : List (Attr × Json)}

theorem validateSubAttr_iff {table : List (Attr × Json)} :
    validateSubAttr (.obj table) a = .valid ↔ ¬ MisdeclaredIn false table a := by
  rw [validateSubAttr, holdAgainst_valid]
  simp only [MisdeclaredIn, not_forall, exists_prop]
  refine exists_congr fun d => and_congr_right fun _ => ?_
  constructor
  · rintro ⟨ht, h⟩
    exact (validateInside_iff _ _ _ ht).mp h
  · intro h
    have ht : typesMatch d a.2 = true := by
      by_contra hn
      exact h (.type (by simpa using hn))
    exact ⟨ht, (validateInside_iff _ _ _ ht).mpr h⟩

/-- A read through NULL is one that the table for all types does not undo. -/
theorem misdeclaredIn_general_of_crash {key : String} (hk : declsOf key = some attrs)
    (h : validateSubAttr (.obj attrs) a = .crash) : MisdeclaredIn false generalDecls a := by
  have hmis : MisdeclaredIn false attrs a := by
    by_contra hn
    rw [validateSubAttr_iff.mpr hn] at h
    cases h
  cases hf : findMember attrs a.1.name with
  | none =>
    simp [validateSubAttr, holdAgainst, verifierOf, hf] at h
  | some d =>
    rcases general_of_found hk hf with rfl | hg
    · exact hmis
    · exact misdeclaredIn_of_none hg

theorem validateAttrs_iff {key : String} (hk : declsOf key = some attrs) :
    validateAttrs attrs generalDecls ms = .valid ↔
      ∀ a ∈ ms, ¬ MisdeclaredIn false attrs a ∨ ¬ MisdeclaredIn false generalDecls a := by
  induction ms with
  | nil => simp [validateAttrs]
  | cons a ms ih =>
    rw [List.forall_mem_cons, ← ih, validateAttrs]
    cases hv : validateSubAttr (.obj attrs) a with
    | valid => simp [validateSubAttr_iff.mp hv]
    | crash =>
      have hmis : MisdeclaredIn false attrs a := by
        by_contra hn
        rw [validateSubAttr_iff.mpr hn] at hv
        cases hv
      simp [hmis, misdeclaredIn_general_of_crash hk hv]
    | invalid text =>
      have hmis : MisdeclaredIn false attrs a := by
        by_contra hn
        rw [validateSubAttr_iff.mpr hn] at hv
        cases hv
      simp only [andThen_valid, validateSubAttr_iff]
      simp [hmis]

/-- `is_attr_valid` accepts just the bodies that are declared throughout when nothing undeclared is passed over. -/
theorem attrs_valid_iff (body : List (Attr × Json)) (ty : ResourceType) :
    (isAttrValid body ty = .valid ↔ BodyDeclared body ty) ↔ NothingHidden body ty := by
  cases hk : declsOf (getResourceKey ty) with
  | none => simp [isAttrValid, BodyDeclared, NothingHidden, hk]
  | some attrs =>
    cases hj : findMember body (getResourceKey ty).toList with
    | none => simp [isAttrValid, BodyDeclared, NothingHidden, hk, hj]
    | some j =>
      cases j with
      | obj ms =>
        have hvalid : isAttrValid body ty = .valid ↔
            ∀ a ∈ ms, ¬ MisdeclaredIn false attrs a ∨ ¬ MisdeclaredIn false generalDecls a := by
          simp [isAttrValid, hk, hj, validateAttrs_iff hk]
        have hbody : BodyDeclared body ty ↔
            ∀ a ∈ ms, ¬ MisdeclaredIn true attrs a ∨ ¬ MisdeclaredIn true generalDecls a := by
          simp [BodyDeclared, hk, hj]
        have hnothing : NothingHidden body ty ↔
            (∃ a ∈ ms, MisdeclaredIn false attrs a ∧ MisdeclaredIn false generalDecls a) ∨
              ∀ a ∈ ms, ¬ HiddenIn attrs a := by
          simp [NothingHidden, hk, hj]
        rw [hvalid, hbody, hnothing]
        by_cases hseen : ∀ a ∈ ms, ¬ MisdeclaredIn false attrs a ∨ ¬ MisdeclaredIn false generalDecls a
        · -- the walk finds nothing: what is left is what it does not look at
          have hno : ¬ ∃ a ∈ ms, MisdeclaredIn false attrs a ∧ MisdeclaredIn false generalDecls a := by
            rintro ⟨a, ha, h₁, h₂⟩
            exact (hseen a ha).elim (fun h => h h₁) fun h => h h₂
          have hrest : (∀ a ∈ ms, ¬ MisdeclaredIn true attrs a ∨ ¬ MisdeclaredIn true generalDecls a) ↔
              ∀ a ∈ ms, ¬ HiddenIn attrs a :=
            forall₂_congr fun a ha => declared_iff_of_through hk (hseen a ha)
          rw [hrest]
          exact ⟨fun h => .inr (h.mp hseen), fun h => ⟨fun _ => h.resolve_left hno, fun _ => hseen⟩⟩
        · obtain ⟨a, ha, hn⟩ := not_forall₂.mp hseen
          have hno : ¬ ∀ a ∈ ms, ¬ MisdeclaredIn true attrs a ∨ ¬ MisdeclaredIn true generalDecls a := by
            intro h
            rcases h a ha with h | h
            · exact hn (.inl fun hm => h fun d hd => (hm d hd).mono)
            · exact hn (.inr fun hm => h fun d hd => (hm d hd).mono)
          have hfound : ∃ a ∈ ms, MisdeclaredIn false attrs a ∧ MisdeclaredIn false generalDecls a :=
            ⟨a, ha, by tauto⟩
          exact ⟨fun _ => .inl hfound, fun _ => ⟨fun h => absurd h hseen, fun h => absurd h hno⟩⟩
      | arr l =>
        simp only [isAttrValid, BodyDeclared, NothingHidden, hk, hj]
        cases l <;> simp
      | _ => simp [isAttrValid, BodyDeclared, NothingHidden, hk, hj]

/-- A subscription with a number where the list of events of its criteria belongs. -/
def netNumber : List (Attr × Json) :=
  [(.other "m2m:sub".toList, .obj [(.other "nu".toList, .arr [.str "Cae".toList]),
    (.other "enc".toList, .obj [(.other "net".toList, .num 7)])])]

theorem netNumber_valid_undeclared :
    ¬ (isAttrValid netNumber .sub = .valid ↔ BodyDeclared netNumber .sub) := by
  have hvalid : isAttrValid netNumber .sub = .valid := by decide +kernel
  rw [hvalid]
  rintro h
  obtain ⟨attrs, j, hk, hj, -, hin⟩ := h.mp rfl
  cases hk
  cases hj
  have hnet : Misdeclared true (.arr [.num 1]) (.num 7) := .type (by decide)
  rcases hin _ rfl (.other "enc".toList, .obj [(.other "net".toList, .num 7)]) (by simp) with hn | hn
  · refine hn fun d hd => ?_
    cases hd
    exact .inside (.member List.mem_cons_self) (fun _ => rfl) rfl hnet
  · exact hn fun d hd => by cases hd

end Body

end TinyIoT
