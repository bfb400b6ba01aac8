/-
The JSON values the server keeps its resources in, as cJSON has them: strings are C strings, a
number is read through `valueint`, and an object is a first-match list of members in which a key may
occur twice. Attribute names are an enumeration: cJSON compares member names without regard to case,
and the server only ever asks for the short names of its attribute tables.
-/
import Mathlib.Data.Rat.Defs
import TinyIoT.Lib.Assoc

namespace TinyIoT

/-- A NUL-terminated string, by its characters. -/
abbrev CStr := List Char

/-- The attribute short names; `other` is a name outside the tables, such as a flexContainer's
custom attribute. -/
inductive Attr where
  | rn | ri | pi | ct | et | lt | uri | acpi | lbl | ty | memberOf
  | cr | st | mni | mbs | mia | cni | cbs | cs | con | cnf | aa | at | lnk | ast
  | mt | mnm | cnm | mid | macp | mtv | csy | gn
  | pv | pvs | acr | acor | acop | acco | acip | ipv4
  | pei | peid | mdd | mdn | mdt | mdc | mdlt | dgt | snr
  | enc | net | exc | nu | nct | su | md | chty | atr
  | aei | api | csi | cb | dcse | rr | poa | srt | srv
  | fcied | cnd
  | other (name : CStr)
  deriving DecidableEq, Repr

/-- The member name an attribute is written with. -/
def Attr.name : Attr → CStr
  | .rn => "rn".toList | .ri => "ri".toList | .pi => "pi".toList | .ct => "ct".toList | .et => "et".toList
  | .lt => "lt".toList | .uri => "uri".toList | .acpi => "acpi".toList | .lbl => "lbl".toList
  | .ty => "ty".toList | .memberOf => "memberOf".toList | .cr => "cr".toList | .st => "st".toList
  | .mni => "mni".toList | .mbs => "mbs".toList | .mia => "mia".toList | .cni => "cni".toList
  | .cbs => "cbs".toList | .cs => "cs".toList | .con => "con".toList | .cnf => "cnf".toList
  | .aa => "aa".toList | .at => "at".toList | .lnk => "lnk".toList | .ast => "ast".toList
  | .mt => "mt".toList | .mnm => "mnm".toList | .cnm => "cnm".toList | .mid => "mid".toList
  | .macp => "macp".toList | .mtv => "mtv".toList | .csy => "csy".toList | .gn => "gn".toList
  | .pv => "pv".toList | .pvs => "pvs".toList | .acr => "acr".toList | .acor => "acor".toList
  | .acop => "acop".toList | .acco => "acco".toList | .acip => "acip".toList | .ipv4 => "ipv4".toList
  | .pei => "pei".toList | .peid => "peid".toList | .mdd => "mdd".toList | .mdn => "mdn".toList
  | .mdt => "mdt".toList | .mdc => "mdc".toList | .mdlt => "mdlt".toList | .dgt => "dgt".toList
  | .snr => "snr".toList | .enc => "enc".toList | .net => "net".toList | .exc => "exc".toList
  | .nu => "nu".toList | .nct => "nct".toList | .su => "su".toList | .md => "md".toList
  | .chty => "chty".toList | .atr => "atr".toList | .aei => "aei".toList | .api => "api".toList
  | .csi => "csi".toList | .cb => "cb".toList | .dcse => "dcse".toList | .rr => "rr".toList
  | .poa => "poa".toList | .srt => "srt".toList | .srv => "srv".toList | .fcied => "fcied".toList
  | .cnd => "cnd".toList
  | .other s => s

inductive Json where
  | null
  | bool (b : Bool)
  | num (v : ℚ)
  | str (s : CStr)
  | arr (items : List Json)
  | obj (members : List (Attr × Json))

/-- A resource's attributes. -/
abbrev Obj := List (Attr × Json)

/-- The bounds of a C `int`. -/
def intMax : Int := 2147483647

def intMin : Int := -2147483648

/-- Two's complement wrap-around of `int` arithmetic. -/
def cInt (n : Int) : Int := n.bmod 4294967296

theorem cInt_eq {n : Int} (h1 : intMin ≤ n) (h2 : n ≤ intMax) : cInt n = n := by
  unfold intMin at h1
  unfold intMax at h2
  unfold cInt
  exact Int.bmod_eq_of_le (by omega) (by omega)

theorem le_cInt (n : Int) : intMin ≤ cInt n := by
  have := @Int.le_bmod n 4294967296 (by decide)
  unfold cInt intMin
  omega

theorem cInt_le (n : Int) : cInt n ≤ intMax := by
  have := @Int.bmod_lt n 4294967296 (by decide)
  unfold cInt intMax
  omega

namespace Json

/-- A number item made by the server. -/
def int (n : Int) : Json := num n

/-- `valueint`: the number truncated and clamped to an `int`; 1 for a parsed `true`, 0 otherwise. -/
def valueint : Json → Int
  | num v => max intMin (min intMax (v.num.tdiv v.den))
  | bool true => 1
  | _ => 0

/-- The comparison of `cJSON_getArrayIdx`. -/
def isStr (v : CStr) : Json → Bool
  | str s => s = v
  | _ => false

/-- `valuestring`: NULL for anything but a string. -/
def valuestring : Json → Option CStr
  | str s => some s
  | _ => none

def isNull : Json → Bool
  | null => true
  | _ => false

def isString : Json → Bool
  | str _ => true
  | _ => false

def isNumber : Json → Bool
  | num _ => true
  | _ => false

def isTrue : Json → Bool
  | bool true => true
  | _ => false

def isFalse : Json → Bool
  | bool false => true
  | _ => false

def isBool : Json → Bool
  | bool _ => true
  | _ => false

def isArray : Json → Bool
  | arr _ => true
  | _ => false

def isObject : Json → Bool
  | obj _ => true
  | _ => false

/-- The items `cJSON_ArrayForEach` visits: the elements of an array, the member values of an object. -/
def items : Json → List Json
  | arr l => l
  | obj m => m.map (·.2)
  | _ => []

/-- `cJSON_GetObjectItem` on any value: only an object has named members. -/
def member : Json → Attr → Option Json
  | obj m, k => Assoc.get m k
  | _, _ => none

/-- `cJSON_SetIntValue` on a number item. -/
def setIntValue : Json → Int → Json
  | num _, n => int n
  | j, _ => j

/-- Assignment of an `int` that is skipped when the item has the value already. -/
def assignInt (j : Json) (n : Int) : Json := if j.valueint ≠ n then j.setIntValue n else j

theorem valueint_le (j : Json) : j.valueint ≤ intMax := by
  cases j with
  | num v =>
    show max intMin (min intMax (v.num.tdiv v.den)) ≤ intMax
    unfold intMin intMax
    omega
  | bool b => cases b <;> decide
  | _ =>
    show (0 : Int) ≤ intMax
    decide

theorem valueint_ge (j : Json) : intMin ≤ j.valueint := by
  cases j with
  | num v =>
    show intMin ≤ max intMin (min intMax (v.num.tdiv v.den))
    omega
  | bool b => cases b <;> decide
  | _ =>
    show intMin ≤ (0 : Int)
    decide

@[simp] theorem valueint_int {n : Int} (h1 : intMin ≤ n) (h2 : n ≤ intMax) : (int n).valueint = n := by
  show max intMin (min intMax (n.tdiv 1)) = n
  rw [Int.tdiv_one]
  omega

@[simp] theorem setIntValue_int (m n : Int) : (int m).setIntValue n = int n := rfl

theorem assignInt_int {m n : Int} (h1 : intMin ≤ m) (h2 : m ≤ intMax) : (int m).assignInt n = int n := by
  unfold assignInt
  rw [valueint_int h1 h2]
  split
  · rfl
  · rename_i h
    rw [not_not.mp h]

end Json

namespace Obj

/-- `cJSON_GetObjectItem`. -/
abbrev get (o : Obj) (k : Attr) : Option Json := Assoc.get o k

/-- `cJSON_AddItemToObject`. -/
abbrev add (o : Obj) (k : Attr) (v : Json) : Obj := Assoc.add o k v

/-- `cJSON_ReplaceItemInObject`, and assignment through the item `cJSON_GetObjectItem` returned. -/
abbrev set (o : Obj) (k : Attr) (v : Json) : Obj := Assoc.set o k v

/-- `cJSON_DeleteItemFromObject`. -/
abbrev del (o : Obj) (k : Attr) : Obj := Assoc.del o k

abbrev has (o : Obj) (k : Attr) : Bool := Assoc.has o k

/-- `cJSON_GetObjectItem(o, k)->valuestring`, where the item is there and is a string. -/
def str (o : Obj) (k : Attr) : Option CStr := (o.get k).bind Json.valuestring

theorem str_congr {o o' : Obj} {k : Attr} (h : o.get k = o'.get k) : o.str k = o'.str k := by
  unfold str
  rw [h]

theorem str_of_get {o : Obj} {k : Attr} {x : CStr} (h : o.get k = some (.str x)) : o.str k = some x := by
  unfold str
  rw [h]
  rfl

theorem get_of_str {o : Obj} {k : Attr} {x : CStr} (h : o.str k = some x) : o.get k = some (.str x) := by
  unfold str at h
  obtain ⟨j, hj, hx⟩ := Option.bind_eq_some_iff.mp h
  cases j <;> cases hx
  exact hj

/-- The items of an array attribute; an absent attribute has none. -/
def arr (o : Obj) (k : Attr) : List Json := ((o.get k).map Json.items).getD []

/-- One member of `update_resource`: null deletes, another value replaces or is added. -/
def updateMember (old : Obj) (k : Attr) (v : Json) : Obj :=
  if old.has k then
    if v.isNull then old.del k else old.set k v
  else
    if v.isNull then old else old.add k v

/-- `update_resource`: the members of the body applied in order. -/
def updateResource (old new : Obj) : Obj :=
  new.foldl (fun o e => o.updateMember e.1 e.2) old

theorem get_updateMember_ne {old : Obj} {k k' : Attr} {v : Json} (h : k ≠ k') :
    (old.updateMember k v).get k' = old.get k' := by
  unfold updateMember
  split
  · split
    · exact Assoc.get_del_ne h
    · exact Assoc.get_set_ne h
  · split
    · rfl
    · exact Assoc.get_add_ne h

/-- An attribute the body does not name keeps its value. -/
theorem get_updateResource_of_not_has {old new : Obj} {k : Attr} (h : new.get k = none) :
    (old.updateResource new).get k = old.get k := by
  induction new generalizing old with
  | nil => rfl
  | cons e new ih =>
    obtain ⟨k', v⟩ := e
    by_cases hk : k' = k
    · simp [get, hk] at h
    · have h' : Obj.get new k = none := by simpa [get, hk] using h
      show ((old.updateMember k' v).updateResource new).get k = _
      exact (ih h').trans (get_updateMember_ne hk)

/-- Of the values the body gives an attribute the last one stays. -/
theorem get_updateResource_of_last {old new : Obj} {k : Attr} {v : Json} {l : List (Attr × Json)} (hv : v.isNull = false)
    (h : Assoc.entries new k = l ++ [(k, v)]) : (old.updateResource new).get k = some v := by
  induction new generalizing old l with
  | nil => exact absurd (congrArg List.length h) (by simp [Assoc.entries])
  | cons e new ih =>
    obtain ⟨k', v'⟩ := e
    show ((old.updateMember k' v').updateResource new).get k = _
    by_cases hk : k' = k
    · subst hk
      have hcons : Assoc.entries ((k', v') :: new) k' = (k', v') :: Assoc.entries new k' := by simp [Assoc.entries]
      rw [hcons] at h
      cases l with
      | nil =>
        obtain ⟨he, hnil⟩ := List.cons.inj h
        obtain rfl : v' = v := (Prod.mk.inj he).2
        have hnone : Obj.get new k' = none := by
          show Assoc.get new k' = none
          rw [Assoc.get_eq_head, hnil]
          rfl
        rw [get_updateResource_of_not_has hnone]
        unfold updateMember
        simp only [hv, Bool.false_eq_true, if_false]
        split
        · rename_i hhas
          obtain ⟨w, hw⟩ := Option.isSome_iff_exists.mp hhas
          exact Assoc.get_set_self hw
        · rename_i hhas
          have hw : Assoc.get old k' = none := Option.not_isSome_iff_eq_none.mp hhas
          show Assoc.get _ _ = _
          rw [Assoc.get_add, hw, if_pos rfl]
          rfl
      | cons x l => exact ih (List.cons.inj h).2
    · have hne : Assoc.entries ((k', v') :: new) k = Assoc.entries new k := by simp [Assoc.entries, hk]
      exact ih (hne ▸ h)

theorem entries_updateMember_ne {old : Obj} {k k' : Attr} {v : Json} (h : k ≠ k') :
    Assoc.entries (old.updateMember k v) k' = Assoc.entries old k' := by
  unfold updateMember
  split
  · split
    · exact Assoc.entries_del_ne h
    · exact Assoc.entries_set_ne h
  · split
    · rfl
    · exact Assoc.entries_add_ne h

theorem entries_updateResource_of_not_has {old new : Obj} {k : Attr} (h : new.get k = none) :
    Assoc.entries (old.updateResource new) k = Assoc.entries old k := by
  induction new generalizing old with
  | nil => rfl
  | cons e new ih =>
    obtain ⟨k', v⟩ := e
    by_cases hk : k' = k
    · simp [get, hk] at h
    · have h' : Obj.get new k = none := by simpa [get, hk] using h
      show Assoc.entries ((old.updateMember k' v).updateResource new) k = _
      exact (ih h').trans (entries_updateMember_ne hk)

/-- The members of an updated object are its own and those of the body. -/
theorem mem_updateResource {old new : Obj} {e : Attr × Json} (h : e ∈ old.updateResource new) :
    e ∈ old ∨ e ∈ new := by
  induction new generalizing old with
  | nil => exact .inl h
  | cons e₀ new ih =>
    have h' : e ∈ (old.updateMember e₀.1 e₀.2).updateResource new := h
    rcases ih h' with h | h
    · unfold updateMember at h
      split at h
      · split at h
        · exact .inl (Assoc.mem_of_mem_del h)
        · exact (Assoc.mem_set h).imp_right fun he => by rw [he]; exact List.mem_cons_self
      · split at h
        · exact .inl h
        · exact (Assoc.mem_add h).imp_right fun he => by rw [he]; exact List.mem_cons_self
    · exact .inr (List.mem_cons_of_mem _ h)

theorem updateResource_append (old new new' : Obj) :
    old.updateResource (new ++ new') = (old.updateResource new).updateResource new' := by
  unfold updateResource
  exact List.foldl_append

theorem get_updateMember_self {old : Obj} {k : Attr} {v : Json} (hv : v.isNull = false) :
    (old.updateMember k v).get k = some v := by
  unfold updateMember
  by_cases hh : old.has k = true
  · obtain ⟨w, hw⟩ := Assoc.has_iff.mp hh
    rw [if_pos hh, if_neg (by simp [hv])]
    exact Assoc.get_set_self hw
  · have hn : Assoc.get old k = none := by
      simpa [Assoc.has] using hh
    rw [if_neg hh, if_neg (by simp [hv])]
    simp [hn]

/-- An attribute the body names, never with null, has one of the values the body gives. -/
theorem get_updateResource_of_has (old : Obj) {new : Obj} {k : Attr} (h : new.has k = true)
    (hnull : ∀ v, (k, v) ∈ new → v.isNull = false) : ∃ v, (k, v) ∈ new ∧ (old.updateResource new).get k = some v := by
  induction new generalizing old with
  | nil => cases h
  | cons e new ih =>
    obtain ⟨k', v⟩ := e
    have hnull' : ∀ w, (k, w) ∈ new → w.isNull = false := fun w hw => hnull w (List.mem_cons_of_mem _ hw)
    by_cases hin : Obj.has new k = true
    · obtain ⟨w, hw, hget⟩ := ih (old.updateMember k' v) hin hnull'
      exact ⟨w, List.mem_cons_of_mem _ hw, hget⟩
    · have hout : Obj.get new k = none := Assoc.has_eq_false.mp (by simpa using hin)
      obtain rfl : k' = k := by
        obtain ⟨w, hw⟩ := Assoc.has_iff.mp h
        rw [Assoc.get_cons] at hw
        split at hw
        · assumption
        · exact absurd (hout.symm.trans hw) (by simp)
      refine ⟨v, List.mem_cons_self, ?_⟩
      show ((old.updateMember k' v).updateResource new).get k' = _
      rw [get_updateResource_of_not_has hout]
      exact get_updateMember_self (hnull v List.mem_cons_self)

/-- An update of some attributes is one with the members of the body that name them. -/
theorem filterKeys_updateResource (p : Attr → Bool) (old new : Obj) :
    Assoc.filterKeys p (old.updateResource new) = updateResource (Assoc.filterKeys p old) (Assoc.filterKeys p new) := by
  induction new generalizing old with
  | nil => rfl
  | cons e new ih =>
    obtain ⟨k, v⟩ := e
    have hhas : has (Assoc.filterKeys p old) k = (p k && has old k) := by
      unfold has Assoc.has
      rw [Assoc.get_filterKeys]
      cases p k <;> rfl
    have hmember : Assoc.filterKeys p (old.updateMember k v) =
        if p k then updateMember (Assoc.filterKeys p old) k v else Assoc.filterKeys p old := by
      unfold updateMember
      rw [hhas]
      cases hp : p k <;> cases has old k <;> cases v.isNull <;>
        simp [Assoc.filterKeys_add, Assoc.filterKeys_set, Assoc.filterKeys_del, hp]
    show Assoc.filterKeys p ((old.updateMember k v).updateResource new) = _
    rw [ih, hmember]
    unfold Assoc.filterKeys
    rw [List.filter_cons]
    cases hp : p k
    · simp
    · simp [updateResource]

/-- What an attribute becomes depends on its own entries in the new object only. -/
theorem get_updateResource_congr {old new new' : Obj} {k : Attr} (h : Assoc.entries new' k = Assoc.entries new k) :
    (old.updateResource new').get k = (old.updateResource new).get k := by
  have hkey : ∀ m : Obj, m.get k = Obj.get (Assoc.filterKeys (fun x => x = k) m) k := by
    intro m
    show _ = Assoc.get _ _
    rw [Assoc.get_filterKeys, if_pos (by simp)]
  have hent : ∀ m : Obj, Assoc.filterKeys (fun x => x = k) m = Assoc.entries m k := fun _ => rfl
  rw [hkey, hkey (old.updateResource new), filterKeys_updateResource, filterKeys_updateResource, hent new', hent new, h]

/-! ## Bodies that name a key once -/

/-- A body with one entry of a key, split there. -/
theorem split_once {body : Obj} {k : Attr} {v : Json} (hg : body.get k = some v)
    (h : (Assoc.entries body k).length ≤ 1) :
    ∃ a b, body = a ++ (k, v) :: b ∧ Obj.get a k = none ∧ Obj.get b k = none := by
  obtain ⟨a, b, rfl, -, -⟩ := Assoc.split_of_get hg
  have hlen : (Assoc.entries a k).length + (Assoc.entries b k).length = 0 := by
    simp only [Assoc.entries, List.filter_append, List.length_append, List.filter_cons, decide_true, if_true,
      List.length_cons] at h ⊢
    omega
  have hnil : ∀ c : Obj, (Assoc.entries c k).length = 0 → Obj.get c k = none := by
    intro c hc
    show Assoc.get c k = none
    rw [Assoc.get_eq_head, List.length_eq_zero_iff.mp hc]
    rfl
  exact ⟨a, b, rfl, hnil a (by omega), hnil b (by omega)⟩

/-- What an update leaves under a key the body names once at most. -/
theorem get_updateResource_once {o body : Obj} {k : Attr} (ho : (Assoc.entries o k).length ≤ 1 ∨
    ∀ v, body.get k = some v → v.isNull = false) (h : (Assoc.entries body k).length ≤ 1) :
    (o.updateResource body).get k = ((body.get k).map fun v => if v.isNull then none else some v).getD (o.get k) := by
  rcases hg : Obj.get body k with _ | v
  · exact get_updateResource_of_not_has hg
  · obtain ⟨a, b, rfl, ha, hb⟩ := split_once hg h
    rw [updateResource_append]
    show (((o.updateResource a).updateMember k v).updateResource b).get k = _
    rw [get_updateResource_of_not_has hb]
    show _ = if v.isNull = true then none else some v
    cases hv : v.isNull with
    | false => exact get_updateMember_self hv
    | true =>
      have hlen : (Assoc.entries (o.updateResource a) k).length ≤ 1 := by
        rw [entries_updateResource_of_not_has ha]
        exact ho.resolve_right fun hn => by rw [hn v hg] at hv; cases hv
      show Obj.get (Obj.updateMember _ k v) k = none
      unfold updateMember
      rw [hv, if_pos rfl, if_pos rfl]
      split
      · exact Assoc.get_del_self hlen
      · rename_i hh
        exact Assoc.has_eq_false.mp (by simpa using hh)

theorem length_entries_updateMember {o : Obj} {k : Attr} {v : Json} (h : (Assoc.entries o k).length ≤ 1) :
    (Assoc.entries (o.updateMember k v) k).length ≤ 1 := by
  unfold updateMember
  split
  · split
    · show (Assoc.entries (Assoc.del o k) k).length ≤ 1
      rw [Assoc.entries_del_self, List.length_tail]
      omega
    · show (Assoc.entries (Assoc.set o k v) k).length ≤ 1
      rw [Assoc.length_entries_set]
      exact h
  · split
    · exact h
    · rename_i hh _
      show (Assoc.entries (Assoc.add o k v) k).length ≤ 1
      have : Assoc.entries o k = [] := Assoc.entries_eq_nil (Assoc.has_eq_false.mp (by simpa using hh))
      unfold Assoc.entries at this ⊢
      simp [Assoc.add, this]

theorem length_entries_updateResource {o : Obj} {k : Attr} (h : (Assoc.entries o k).length ≤ 1) (body : Obj) :
    (Assoc.entries (o.updateResource body) k).length ≤ 1 := by
  induction body generalizing o with
  | nil => exact h
  | cons e body ih =>
    obtain ⟨k', v⟩ := e
    show (Assoc.entries ((o.updateMember k' v).updateResource body) k).length ≤ 1
    apply ih
    by_cases hk : k' = k
    · subst hk
      exact length_entries_updateMember h
    · rw [entries_updateMember_ne hk]
      exact h

end Obj

end TinyIoT
