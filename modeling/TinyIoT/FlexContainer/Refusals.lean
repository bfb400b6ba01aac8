/-
Updates of a flexContainer that are refused (`update_fcnt`): the announcements of the body are processed after
the first checks and before the checks on `fcied` and the limits. What a refusal leaves changed then is what
`process_annc_at_update` did.
-/
import TinyIoT.FlexContainer.Run
import TinyIoT.Server.Spared
import TinyIoT.Addressing.Announce

namespace TinyIoT

/-! ## The announcements of an update -/

/-- The remote CSEs: their answers, and what the requests do there. -/
structure Remotes extends AnncEnv where
  /-- The DELETE takes the announced resource away. -/
  removed : CStr → Bool
  /-- An announced resource is made for the entry: of the resource itself, or of the CSEBase it goes below. -/
  announces : CStr → Bool
  deleted_of_removed : ∀ o, removed o = true → deleted o = true
  announces_of_created : ∀ v ri, created v = some ri → announces v = true

/-- The texts of an `at`; no result where an entry is no string. -/
def atTexts (at? : Option Json) : Option (List CStr) := ((at?.map Json.items).getD []).mapM Json.valuestring

/-- `handle_annc_update` as `process_annc_at_update` calls it. -/
def anncOfUpdate (r : AnncEnv) (target body : Obj) : Option AnncUpdate :=
  match body.get .at with
  | none => some ⟨[], [], []⟩
  | some new => do
    let old ← atTexts (target.get .at)
    let new ← atTexts (some new)
    handleAnncUpdate r old new

/-- A remote announcement is created or deleted. -/
def AnncUpdate.reaches (r : Remotes) (u : AnncUpdate) : Bool :=
  u.announced.any r.announces || u.deannounced.any fun o => o.head? = some '/' && r.removed o

namespace Server

/-- The checks of `update_fcnt` before the announcements are processed. -/
def passesChecks (e : FcntEnv) (shortname : Option CStr) (req : Req) (s : Server) (target : RTNode) : Bool :=
  !fcntInvalidKeys.any req.pc.has && !(req.rvi < 4 && fcntRelease4.any req.pc.has) &&
    (checkFcntUpdate e shortname req s target.obj (renameOr req.pc)).toBool

/-- `update_fcnt`, with the announcements it processes. -/
def updateFcntAnnounced (e : FcntEnv) (r : Remotes) (shortname : Option CStr) (req : Req) (s : Server) (target : RTNode) :
    Option (Server × Resp × AnncUpdate) :=
  if s.passesChecks e shortname req target then do
    let u ← anncOfUpdate r.toAnncEnv target.obj req.pc
    let (s, resp) ← s.updateFcnt { e with kept := fun _ => u.finalAt.map Json.str } shortname req target
    return (s, resp, u)
  else (s.updateFcnt e shortname req target).map fun x => (x.1, x.2, ⟨[], [], []⟩)

end Server

/-! ## What a refusal is to leave -/

/-- Two rows hold the same; the column `uri` is the field. -/
def Row.Same (r r' : Row) : Prop := r'.uri = r.uri ∧ r'.ty = r.ty ∧ ∀ k, k ≠ .uri → r'.obj.get k = r.obj.get k

/-- The rows of a flexContainer and of its instances. -/
def ownRows (db : Db) (target : RTNode) : Db :=
  db.filter fun r => r.ri = target.ri || (r.ty = .fcin && r.pi = target.ri)

/-- The flexContainer, its instances and their rows are as before, and no remote announcement is created or
deleted. -/
structure Unaffected (r : Remotes) (s s' : Server) (target : RTNode) (u : AnncUpdate) : Prop where
  node : s'.node? target.id = s.node? target.id
  instances : s'.fcins target.id = s.fcins target.id
  rows : List.Forall₂ Row.Same (ownRows s.db target) (ownRows s'.db target)
  remote : u.reaches r = false

/-! ## When a refusal comes late -/

/-- The size of the content after the update. -/
def sizeAfter (print : Json → CStr) (target custom : Obj) : Int :=
  let old := customAttributes target
  contentSize print (if custom.isEmpty then old else if old.isEmpty then custom else applyCustom old custom)

/-- `mbs` is below the size of the content after the update. -/
def mbsBelow (target body : Obj) (size : Int) : Bool :=
  (finalItem target (addMissingLimits target body) .mbs).any fun mbs =>
    mbs.isNumber && mbs.valueint < (Json.int size).valueint

/-- The refusals that come after the announcements: of the limits against `fcied`, and of `mbs` against the size
of the content where `fcied` is true. -/
def refusedLate (print : Json → CStr) (req : Req) (target : Obj) : Bool :=
  let body := renameOr req.pc
  4 ≤ req.rvi && (!(checkFcied target body).toBool ||
    ((fciedFinal target body).any Json.isTrue && mbsBelow target body (sizeAfter print target (customAttributes body))))

/-- The announcements of the body change nothing: none is created or deleted, and a list that is emptied was
not stored. -/
def Quiet (r : Remotes) (db : Db) (target : RTNode) (body : Obj) : Prop :=
  ∀ u, anncOfUpdate r.toAnncEnv target.obj body = some u → u.reaches r = false ∧
    ((body.get .at).all Json.isNull = true ∨ u.finalAt ≠ [] ∨ ∀ row ∈ db, row.ri = target.ri → row.obj.has .at = false)

/-! ## The checks on `fcied` -/

/-- The checks on `fcied` read the limits of the body and `fcied`. -/
theorem checkFcied_congr {target body body' : Obj} (h : ∀ k ∈ [Attr.fcied, .mni, .mbs, .mia], body'.get k = body.get k) :
    checkFcied target body' = checkFcied target body := by
  have hf := h .fcied (by simp)
  have h₁ := h .mni (by simp)
  have h₂ := h .mbs (by simp)
  have h₃ := h .mia (by simp)
  unfold checkFcied limitGiven limitZero fciedFinal
  simp only [hf, List.any_cons, List.any_nil, h₁, h₂, h₃]

theorem finalItem_congr {target body body' : Obj} {k : Attr} (h : body'.get k = body.get k) :
    finalItem target body' k = finalItem target body k := by
  unfold finalItem
  rw [h]

theorem has_congr {o o' : Obj} {k : Attr} (h : o'.get k = o.get k) : o'.has k = o.has k := congrArg Option.isSome h

/-- The limit of an update: a default only where there is no limit at all. -/
theorem get_addMissingLimits (target body : Obj) : (addMissingLimits target body).get .mbs = (body.get .mbs).or
    (if [Attr.mni, .mbs, .mia].any (fun k => target.has k || body.has k) then none
      else some (.int defaultMaxByteSize)) := by
  unfold addMissingLimits
  split
  · rw [Option.or_none]
  · simp

theorem get_addMissingLimits_congr {target body body' : Obj} (h : ∀ k ∈ [Attr.mni, .mbs, .mia], body'.get k = body.get k) :
    (addMissingLimits target body').get .mbs = (addMissingLimits target body).get .mbs := by
  have hany : ([Attr.mni, .mbs, .mia].any fun k => target.has k || body'.has k) =
      [Attr.mni, .mbs, .mia].any fun k => target.has k || body.has k := by
    simp only [List.any_cons, List.any_nil, has_congr (h .mni (by simp)), has_congr (h .mbs (by simp)),
      has_congr (h .mia (by simp))]
  rw [get_addMissingLimits, get_addMissingLimits, h .mbs (by simp), hany]

theorem mbsBelow_congr {target body body' : Obj} {size : Int} (h : ∀ k ∈ [Attr.mni, .mbs, .mia], body'.get k = body.get k) :
    mbsBelow target body' size = mbsBelow target body size := by
  unfold mbsBelow
  rw [finalItem_congr (get_addMissingLimits_congr h)]

/-- The counters of an instance leave of the limits what the default adds. -/
theorem get_mbs_countInstance (target body : Obj) (content : Bool) :
    (countInstance target body content).1.get .mbs = (addMissingLimits target body).get .mbs := by
  have hput : ∀ (o : Obj) (k l : Attr) (v w : Json), k ∈ [Attr.cni, .cbs] → l ∈ [Attr.cni, .cbs] →
      ((((o.del k).del l).add k v).add l w).get .mbs = o.get .mbs := fun o k l v w hk hl =>
    ((((Assoc.Touches.del o hk).trans (.del _ hl)).trans (.add _ v hk)).trans (.add _ w hl)).get (by decide)
  have hon : (addMissingLimits target ((body.add .cni (.int 0)).add .cbs (.int 0))).get .mbs =
      (addMissingLimits target body).get .mbs := by
    refine get_addMissingLimits_congr fun k hk => ?_
    have : k ≠ .cni ∧ k ≠ .cbs := by
      constructor <;> rintro rfl <;> simp at hk
    rw [Obj.get, Assoc.get_add_ne (Ne.symm this.2), Assoc.get_add_ne (Ne.symm this.1)]
  unfold countInstance
  dsimp only
  cases switchedOn target body <;> cases content
  · rfl
  · exact hput _ .cbs .cni _ _ (by simp) (by simp)
  · exact (hput _ .cni .cbs _ _ (by simp) (by simp)).trans hon
  · exact (hput _ .cbs .cni _ _ (by simp) (by simp)).trans hon

theorem get_cs_countInstance (target body : Obj) (content : Bool) :
    (countInstance target body content).1.get .cs = body.get .cs :=
  (touches_countInstance target body content).get (by decide)

/-- The size the update writes. -/
theorem get_cs_addFcntState {print : Json → CStr} {target custom body : Obj} (h : body.get .cs = none) :
    (addFcntState print target custom body).get .cs = some (.int (sizeAfter print target custom)) := by
  unfold addFcntState sizeAfter
  split
  · simp [h]
  · have hst : (((target.num .st).map fun st => body.add .st (.int (cInt (st + 1)))).getD body).get .cs = none := by
      cases target.num .st with
      | none => exact h
      | some st => exact (Assoc.get_add_ne (by decide)).trans h
    simp [hst]

namespace Server

variable {s : Server} {e : FcntEnv} {req : Req} {target : RTNode} {body : Obj} {content : Bool} {size : Int}

/-- The part about `fcied` refuses one thing only. -/
theorem applyFcied_refused (hcs : body.get .cs = some (.int size)) {x : Except Resp (Server × Obj × Obj × Bool)}
    (h : s.applyFcied e req target body content = some x) :
    (∃ r, x = .error r) ↔ (fciedFinal target.obj body).any Json.isTrue = true ∧ mbsBelow target.obj body size = true := by
  have hbelow : mbsTooSmall target.obj (countInstance target.obj body content).1 = mbsBelow target.obj body size := by
    have hmbs : finalItem target.obj (countInstance target.obj body content).1 .mbs =
        finalItem target.obj (addMissingLimits target.obj body) .mbs :=
      finalItem_congr (get_mbs_countInstance target.obj body content)
    have hcs' : finalItem target.obj (countInstance target.obj body content).1 .cs = some (.int size) := by
      unfold finalItem
      rw [get_cs_countInstance, hcs]
      rfl
    unfold mbsTooSmall mbsBelow
    rw [hmbs, hcs']
    rfl
  have hok : ∀ y : Server × Obj × Obj × Bool, (x = .ok y) → ¬ ∃ r, x = .error r := by
    rintro y rfl ⟨r, hr⟩
    cases hr
  unfold Server.applyFcied at h
  split at h
  · rename_i hnull
    have hfinal : (fciedFinal target.obj body).any Json.isTrue = false := by
      obtain ⟨j, hj, hn⟩ := (Option.any_eq_true _ _).mp hnull
      unfold fciedFinal
      rw [hj]
      cases j <;> first | rfl | cases hn
    simp only [hfinal, Bool.false_eq_true, false_and, iff_false]
    exact hok _ (Option.some_inj.mp h).symm
  split at h
  · rename_i hfalse
    have hfinal : (fciedFinal target.obj body).any Json.isTrue = false := by
      obtain ⟨j, hj, hf⟩ := (Option.any_eq_true _ _).mp hfalse
      rw [hj]
      cases j with
      | bool b => cases b <;> first | rfl | cases hf
      | _ => cases hf
    simp only [hfinal, Bool.false_eq_true, false_and, iff_false]
    split at h
    · simp only [Option.bind_eq_bind] at h
      split at h
      · obtain ⟨⟨s₁, b⟩, -, h⟩ := Option.bind_eq_some_iff.mp h
        exact hok _ (Option.some_inj.mp h).symm
      · exact hok _ (Option.some_inj.mp h).symm
    · exact hok _ (Option.some_inj.mp h).symm
  split at h
  · rename_i htrue
    simp only [htrue, true_and]
    dsimp only at h
    rw [hbelow] at h
    split at h
    · rename_i hb
      cases h
      simp [hb]
    · rename_i hb
      rw [Bool.not_eq_true] at hb
      simp only [hb, Bool.false_eq_true, iff_false]
      exact hok _ (Option.some_inj.mp h).symm
  · rename_i htrue
    rw [Bool.not_eq_true] at htrue
    simp only [htrue, Bool.false_eq_true, false_and, iff_false]
    exact hok _ (Option.some_inj.mp h).symm

/-- The end of an update answers UPDATED. -/
theorem writeFcnt_rsc {s' : Server} {obj custom : Obj} {needs : Bool} {resp : Resp}
    (h : s.writeFcnt e req target obj body custom needs = some (s', resp)) : resp.rsc = .updated := by
  unfold Server.writeFcnt at h
  simp only [Option.bind_eq_bind, Option.bind_eq_some_iff] at h
  obtain ⟨ri, -, h⟩ := h
  split at h
  · obtain ⟨⟨s₁, added⟩, -, h⟩ := Option.bind_eq_some_iff.mp h
    dsimp only at h
    split at h <;> cases h <;> rfl
  · cases h
    rfl

end Server

/-! ## The cleared column -/

/-- A row after `db_clear_attribute` of `at`. -/
def Row.clearAt (r : Row) : Row := { r with obj := Assoc.drop (Assoc.overlay column [(.at, .null)] r.obj) .uri }

theorem Row.get_clearAt {r : Row} {k : Attr} (hk : k ≠ .uri) :
    r.clearAt.obj.get k = if k = .at then none else r.obj.get k := by
  have hget : r.clearAt.obj.get k = Assoc.get (Assoc.overlay column [(.at, .null)] r.obj) k :=
    (Assoc.get_drop _ _ _).trans (if_neg (Ne.symm hk))
  rw [hget, Assoc.get_overlay, Assoc.get_cons]
  by_cases hat : k = .at
  · simp [hat, column]
  · simp [hat, Ne.symm hat]

/-- Clearing the column of a row. -/
def clearIn (ri : CStr) (r : Row) : Row := if r.ri = some ri then r.clearAt else r

theorem dbUpdateResource_at (db : Db) (ri : CStr) : db.dbUpdateResource [(.at, .null)] ri = db.map (clearIn ri) := rfl

theorem get_clearIn {ri : CStr} {r : Row} {k : Attr} (hk : k ≠ .uri) (hat : k ≠ .at) :
    (clearIn ri r).obj.get k = r.obj.get k := by
  unfold clearIn
  split
  · exact (Row.get_clearAt hk).trans (if_neg hat)
  · rfl

theorem same_clearIn {ri : CStr} {r : Row} : Row.Same r (clearIn ri r) ↔ (r.ri = some ri → r.obj.has .at = false) := by
  constructor
  · intro h he
    have hsame := h.2.2 .at (by decide)
    rw [clearIn, if_pos he, Row.get_clearAt (by decide), if_pos rfl] at hsame
    exact Assoc.has_eq_false.mpr hsame.symm
  · intro h
    unfold clearIn
    split
    · rename_i he
      refine ⟨rfl, rfl, fun k hk => ?_⟩
      rw [Row.get_clearAt hk]
      split
      · rename_i hat
        rw [hat]
        exact (Assoc.has_eq_false.mp (h he)).symm
      · rfl
    · exact ⟨rfl, rfl, fun _ _ => rfl⟩

/-- Clearing `at` leaves the rows of a flexContainer as they are where its own row has none. -/
theorem ownRows_cleared {db : Db} {target : RTNode} {ri : CStr} (hri : target.ri = some ri) :
    List.Forall₂ Row.Same (ownRows db target) (ownRows (db.dbUpdateResource [(.at, .null)] ri) target) ↔
      ∀ row ∈ db, row.ri = target.ri → row.obj.has .at = false := by
  have hown : ownRows (db.map (clearIn ri)) target = (ownRows db target).map (clearIn ri) := by
    unfold ownRows
    rw [List.filter_map]
    congr 1
    refine List.filter_congr fun r _ => ?_
    have h₁ : (clearIn ri r).ri = r.ri := Obj.str_congr (get_clearIn (by decide) (by decide))
    have h₂ : (clearIn ri r).pi = r.pi := Obj.str_congr (get_clearIn (by decide) (by decide))
    have h₃ : (clearIn ri r).ty = r.ty := by
      unfold clearIn
      split <;> rfl
    rw [Function.comp, h₁, h₂, h₃]
  rw [dbUpdateResource_at, hown, List.forall₂_map_right_iff, List.forall₂_same, hri]
  constructor
  · intro h row hrow he
    exact same_clearIn.mp (h row (List.mem_filter.mpr ⟨hrow, by simp [hri, he]⟩)) he
  · intro h row hrow
    exact same_clearIn.mpr (h row (List.mem_of_mem_filter hrow))

/-! ## What the lookups of `acpi` remove -/

/-- The entry of `acpi` the checks of an update stop at. -/
def acpiStop (e : FcntEnv) (shortname : Option CStr) (req : Req) (s : Server) (target : RTNode) : Option CStr :=
  if fcntInvalidKeys.any req.pc.has ∨ (req.rvi < 4 ∧ fcntRelease4.any req.pc.has) then none
  else match checkFcntCustoms e shortname target.obj (renameOr req.pc), checkFcntNames (renameOr req.pc) .update,
      (renameOr req.pc).get .acpi with
    | .ok (), .ok (), some (.arr l) =>
      (l.find? fun j => (validateAcpiEntry e.now s j).toOption.isNone).bind Json.valuestring
    | _, _, _ => none

/-- The removal of a resource takes neither the flexContainer nor an instance of it, and none of their rows; where it
writes to another flexContainer, that one shares its row with none of them. -/
structure Aside (s : Server) (target : RTNode) (p : Ptr) (n : RTNode) : Prop where
  stays : ∀ i, p = .inTree i → i ≠ target.id ∧ ∀ m ∈ (s.children i).nodes, m.id ≠ target.id
  other : n.ty = .fcin → ∀ q, (p.parent s).deref s = some q →
    q.ty = .fcnt ∧ q.id ≠ target.id ∧ ∀ r ∈ s.db, r.ri = q.ri → r.ty ≠ .fcin ∧ r.ri ≠ target.ri
  rows : ∀ r ∈ ownRows s.db target, ∀ ri ∈ n.ri, Db.deleteMatches n.uri ri r = false

/-- A lookup removes nothing, or something aside from the flexContainer. -/
def LooksAside (now : CStr) (s : Server) (target : RTNode) (addr : CStr) : Prop :=
  Server.isBase addr = false → ∀ n, (s.resolve addr).deref s = some n → isExpired now n = true →
    Aside s target (s.resolve addr) n

/-- The flexContainer, its instances and their rows are as they were. -/
structure LeftAside (s s' : Server) (target : RTNode) : Prop where
  ids : s'.NodupIds
  node : target ∈ s'.tree.nodes
  instances : s'.fcins target.id = s.fcins target.id
  rows : ownRows s'.db target = ownRows s.db target

section LeftAside

variable {s s' : Server} {target n : RTNode}

theorem LeftAside.refl (hs : s.NodupIds) (ht : target ∈ s.tree.nodes) : LeftAside s s target := ⟨hs, ht, rfl, rfl⟩

/-- A row that is not written by the statement is, and stays, no row of the flexContainer. -/
theorem ownRows_dbUpdateResource {db : Db} {o : Obj} {x : CStr} (hri : target.ri.isSome = true) (ho : o.str .ri = some x)
    (h : ∀ r ∈ db, r.ri = some x → r.ty ≠ .fcin ∧ r.ri ≠ target.ri) :
    ownRows (db.dbUpdateResource o x) target = ownRows db target := by
  induction db with
  | nil => rfl
  | cons r db ih =>
    have ih := ih fun q hq => h q (List.mem_cons_of_mem _ hq)
    unfold ownRows Db.dbUpdateResource at ih ⊢
    rw [List.map_cons]
    by_cases hx : r.ri = some x
    · obtain ⟨hty, hne⟩ := h r List.mem_cons_self hx
      rw [if_pos hx, List.filter_cons_of_neg, List.filter_cons_of_neg, ih]
      · simp [hty, hne]
      · have hcol : Row.ri ⟨(o.str .uri).getD r.uri, r.ty, Assoc.drop (Assoc.overlay column o r.obj) .uri⟩ ≠ target.ri := by
          obtain ⟨t, ht⟩ := Option.isSome_iff_exists.mp hri
          intro he
          refine hne (hx.trans ?_)
          rw [ht] at he ⊢
          have hget : Obj.get (Assoc.drop (Assoc.overlay column o r.obj) .uri) .ri = column (.str x) := by
            refine (Assoc.get_drop _ _ _).trans ((if_neg (by decide)).trans ?_)
            have hg : Assoc.get o .ri = some (.str x) := Obj.get_of_str ho
            rw [Assoc.get_overlay, hg]
          by_cases hnil : x = []
          · rw [hnil] at hget
            have hnone := Obj.get_of_str he
            rw [hget] at hnone
            cases hnone
          · rw [column_str hnil] at hget
            exact (Obj.str_of_get hget).symm.trans he
        simp [hty, hcol]
    · rw [if_neg hx, List.filter_cons, List.filter_cons, ih]

/-- The counters of another flexContainer. -/
theorem untouched_adjustFcnt (hs : s.NodupIds) (ht : target ∈ s.tree.nodes) (hri : target.ri.isSome = true) {p : Ptr}
    {o : Obj} (h : ∀ q, p.deref s = some q →
      q.ty = .fcnt ∧ q.id ≠ target.id ∧ ∀ r ∈ s.db, r.ri = q.ri → r.ty ≠ .fcin ∧ r.ri ≠ target.ri) :
    LeftAside s (s.adjustFcnt p o (-1)) target := by
  unfold Server.adjustFcnt
  split
  · exact .refl hs ht
  · rename_i q hq
    obtain ⟨hty, hne, hrows⟩ := h q hq
    split
    · exact .refl hs ht
    · rename_i o' ho'
      have hstr : o'.str .ri = q.ri := by
        unfold updateFcntFcin at ho'
        simp only [Option.bind_eq_bind, Option.bind_eq_some_iff, Option.pure_def, Option.some.injEq] at ho'
        obtain ⟨cni, -, cbs, -, cs, -, rfl⟩ := ho'
        exact Obj.str_congr ((Assoc.get_set_ne (by decide)).trans (Assoc.get_set_ne (by decide)))
      have hassign : LeftAside s (s.assign p o') target := by
        unfold Server.assign
        split
        · rename_i i
          obtain ⟨hqm, rfl⟩ := Server.node?_mem hq
          refine ⟨hs.modify (f := fun n => { n with obj := o' }) (fun _ _ _ => rfl) rfl, ?_,
            Server.fcins_setObj hs hqm (by rw [hty]; decide) o' _, rfl⟩
          rw [Server.setObj, Server.nodes_modifyNode]
          exact List.mem_map.mpr ⟨target, ht, if_neg (Ne.symm hne)⟩
        · exact .refl hs ht
      unfold Server.persist
      dsimp only
      split
      · exact hassign
      · rename_i x hx
        refine ⟨hassign.ids, hassign.node, hassign.instances, ?_⟩
        rw [Server.assign_db, ownRows_dbUpdateResource hri hx fun r hr hrx => hrows r hr (hrx.trans (hx.symm.trans hstr))]

/-- The DELETE statement for a resource aside. -/
theorem ownRows_delete {db : Db} (h : ∀ r ∈ ownRows db target, ∀ ri ∈ n.ri, Db.deleteMatches n.uri ri r = false) :
    ownRows (db.dbDeleteOnem2mResource n) target = ownRows db target := by
  unfold Db.dbDeleteOnem2mResource
  cases hri : n.ri with
  | none => rfl
  | some ri =>
    show List.filter _ (List.filter _ db) = List.filter _ db
    rw [List.filter_filter]
    refine List.filter_congr fun r hr => ?_
    by_cases hown : (decide (r.ri = target.ri) || (decide (r.ty = .fcin) && decide (r.pi = target.ri))) = true
    · rw [hown, h r (List.mem_filter.mpr ⟨hr, hown⟩) ri hri]
      rfl
    · rw [Bool.not_eq_true] at hown
      rw [hown, Bool.false_and]

/-- A node that is neither the flexContainer, nor above it, nor one of its instances, goes with all below it. -/
theorem untouched_freeRtnode (hs : s.NodupIds) (ht : target ∈ s.tree.nodes) {i : Nat}
    (hstay : i ≠ target.id ∧ ∀ m ∈ (s.children i).nodes, m.id ≠ target.id)
    (hinst : ∀ m ∈ s.fcins target.id, m.id ≠ i) : LeftAside s (s.freeRtnode i) target := by
  have hids : (s.freeRtnode i).NodupIds := hs.sublist ((Forest.nodes_remove_sublist _ _).map _)
  obtain ⟨k, hk⟩ := Forest.mem_nodes_iff.mp ht
  have hcell : (target, k.remove (RTNode.hasId i)) ∈ (s.freeRtnode i).tree.cells := by
    refine Forest.cell_of_remove hk (Bool.eq_false_iff.mpr fun h => hstay.1 (hasId_iff.mp h).symm) fun b d hb hp hin => ?_
    obtain rfl := hasId_iff.mp hp
    exact hstay.2 target (Server.children_eq hs hb ▸ Forest.mem_nodes_of_cell hin) rfl
  refine ⟨hids, Forest.mem_nodes_of_cell hcell, ?_, rfl⟩
  unfold Server.fcins at hinst ⊢
  rw [Server.children_eq hs hk] at hinst ⊢
  rw [Server.children_eq hids hcell, Forest.roots_remove, List.filter_filter]
  refine List.filter_congr fun m hm => ?_
  by_cases hty : m.ty = .fcin
  · have hmi : RTNode.hasId i m = false := Bool.eq_false_iff.mpr fun h =>
      hinst m (List.mem_filter.mpr ⟨hm, decide_eq_true hty⟩) (hasId_iff.mp h)
    simp [hty, hmi]
  · simp [hty]

theorem ids_children_adjustFcnt (p : Ptr) (o : Obj) (i : Nat) :
    ((s.adjustFcnt p o (-1)).children i).nodes.map (·.id) = (s.children i).nodes.map (·.id) := by
  unfold Server.adjustFcnt
  split
  · rfl
  · split
    · rfl
    · rename_i o' _
      have htree : ∀ s₁ s₂ : Server, s₁.tree = s₂.tree → s₁.children i = s₂.children i := fun s₁ s₂ h => by
        unfold Server.children
        rw [h]
      rw [htree _ _ (Server.persist_tree_eq s p o')]
      unfold Server.assign
      split
      · rw [Server.setObj, Server.children_modifyNode (f := fun n => { n with obj := o' }) fun _ => rfl, Forest.nodes_modify, List.map_map]
        refine List.map_congr_left fun m _ => ?_
        simp only [Function.comp]
        split <;> rfl
      · rfl

/-- A lookup that removes nothing, or something aside. -/
theorem untouched_findRtnode (hs : s.NodupIds) (ht : target ∈ s.tree.nodes) (hri : target.ri.isSome = true) {now addr : CStr}
    (h : LooksAside now s target addr) : LeftAside s (s.findRtnode now addr).1 target := by
  unfold Server.findRtnode
  dsimp only
  split
  · exact .refl hs ht
  rename_i n hn
  split
  · rename_i hgone
    rw [Bool.and_eq_true, Bool.not_eq_true'] at hgone
    have haside := h hgone.1 n hn hgone.2
    generalize s.resolve addr = p at hn haside
    -- the counters of another flexContainer
    have h₁ : ∃ s₁, (if n.ty = .fcin then s.adjustFcnt (p.parent s) n.obj (-1) else s) = s₁ ∧ LeftAside s s₁ target ∧
        ∀ i, (s₁.children i).nodes.map (·.id) = (s.children i).nodes.map (·.id) := by
      split
      · rename_i hty
        exact ⟨_, rfl, untouched_adjustFcnt hs ht hri (haside.other hty), fun i => ids_children_adjustFcnt _ _ i⟩
      · exact ⟨s, rfl, .refl hs ht, fun i => rfl⟩
    obtain ⟨s₁, he₁, h₁, hkids⟩ := h₁
    -- the row
    have h₂ : LeftAside s { s₁ with db := s₁.db.dbDeleteOnem2mResource n } target :=
      ⟨h₁.ids, h₁.node, h₁.instances,
        (ownRows_delete fun r hr => haside.rows r (h₁.rows ▸ hr)).trans h₁.rows⟩
    show LeftAside s (s.expire p n) target
    unfold Server.expire
    rw [he₁]
    cases p with
    | null => cases hn
    | loose _ _ => exact h₂
    | inTree i =>
      obtain ⟨hnm, rfl⟩ := Server.node?_mem hn
      obtain ⟨hne, hbelow⟩ := haside.stays n.id rfl
      have h₃ := untouched_freeRtnode (s := { s₁ with db := s₁.db.dbDeleteOnem2mResource n }) h₂.ids h₂.node
        (i := n.id) ⟨hne, fun m hm he => ?_⟩ fun m hm he => ?_
      · exact ⟨h₃.ids, h₃.node, h₃.instances.trans h₂.instances, h₃.rows.trans h₂.rows⟩
      · have hm' : m.id ∈ (s.children n.id).nodes.map (·.id) := hkids n.id ▸ List.mem_map_of_mem hm
        obtain ⟨m', hm', hid⟩ := List.mem_map.mp hm'
        exact hbelow m' hm' (hid.trans he)
      · -- an instance of the flexContainer has it as parent
        rw [h₂.instances] at hm
        obtain ⟨hroot, hty⟩ := Server.mem_fcins.mp hm
        obtain rfl := hs.eq (Server.mem_of_mem_children hroot) hnm he
        obtain ⟨k, hk⟩ := Forest.mem_nodes_iff.mp ht
        have hpar : (Ptr.inTree m.id).parent s = .inTree target.id := by
          have hid := Server.parentId_of_child hs hk (Server.children_eq hs hk ▸ hroot)
          unfold Ptr.parent
          dsimp only
          rw [hid]
        exact (haside.other hty target (hpar ▸ Server.node?_eq hs ht)).2.1 rfl
  · exact .refl hs ht

end LeftAside

/-! ## The refusals -/

section Refusals

variable {e : FcntEnv} {r : Remotes} {sn : Option CStr} {req : Req} {s s' : Server} {target : RTNode} {resp : Resp}
  {u : AnncUpdate}

/-- The lookups of `acpi` remove nothing, or what the entry they stop at names. -/
theorem afterAcpi_stop (now : CStr) (s : Server) (acpi : Option Json) : s.afterAcpi now acpi = s ∨
    ∃ l addr, acpi = some (.arr l) ∧
      (l.find? fun j => (validateAcpiEntry now s j).toOption.isNone).bind Json.valuestring = some addr ∧
      s.afterAcpi now acpi = (s.findRtnode now addr).1 := by
  unfold Server.afterAcpi
  split
  · rename_i l
    cases hj : l.find? fun j => (validateAcpiEntry now s j).toOption.isNone with
    | none => exact .inl rfl
    | some j =>
      rw [Option.map_some, Option.getD_some]
      unfold Server.afterAcpiEntry
      split
      · exact .inl rfl
      · rename_i addr haddr
        split
        · exact .inl rfl
        · exact .inr ⟨l, addr, rfl, (congrArg (Option.bind · Json.valuestring) hj).trans haddr, rfl⟩
  · exact .inl rfl

/-- Before the announcements are processed a refusal leaves everything but what `acpi` is found to name. -/
theorem updateFcnt_early (hpass : s.passesChecks e sn req target = false) (h : s.updateFcnt e sn req target = some (s', resp)) :
    (s' = s ∨ ∃ addr, acpiStop e sn req s target = some addr ∧ s' = (s.findRtnode e.now addr).1) ∧ resp.rsc ≠ .updated := by
  unfold Server.passesChecks at hpass
  unfold Server.updateFcnt at h
  split at h
  · cases h
    exact ⟨.inl rfl, by decide⟩
  rename_i hkeys
  split at h
  · cases h
    exact ⟨.inl rfl, by decide⟩
  rename_i hrvi
  dsimp only at h
  split at h
  · rename_i hcheck
    cases h
    refine ⟨?_, (denies_checkFcntUpdate _ _ _ _ _ _).ne_updated hcheck⟩
    unfold acpiStop
    rw [if_neg (not_or.mpr ⟨hkeys, hrvi⟩)]
    cases checkFcntCustoms e sn target.obj (renameOr req.pc) with
    | error _ => exact .inl rfl
    | ok _ =>
      cases checkFcntNames (renameOr req.pc) .update with
      | error _ => exact .inl rfl
      | ok _ =>
        rcases afterAcpi_stop e.now s ((renameOr req.pc).get .acpi) with hsame | ⟨l, addr, hacpi, hstop, hleft⟩
        · exact .inl hsame
        · refine .inr ⟨addr, ?_, hleft⟩
          rw [hacpi]
          exact hstop
  · rename_i hcheck
    rw [Bool.not_eq_true] at hkeys
    have hrvi : (decide (req.rvi < 4) && fcntRelease4.any req.pc.has) = false := by
      rw [Bool.eq_false_iff]
      simpa using hrvi
    rw [hkeys, hrvi, hcheck] at hpass
    cases hpass

theorem passesChecks_iff : s.passesChecks e sn req target = true ↔ fcntInvalidKeys.any req.pc.has = false ∧
    ¬ (req.rvi < 4 ∧ fcntRelease4.any req.pc.has = true) ∧ checkFcntUpdate e sn req s target.obj (renameOr req.pc) = .ok () := by
  have hok : ∀ x : Except Resp Unit, x.toBool = true ↔ x = .ok () := by
    rintro (r | ⟨⟩) <;> simp [Except.toBool]
  unfold Server.passesChecks
  have hnot : ∀ b : Bool, (!(decide (req.rvi < 4) && b)) = true ↔ ¬ (req.rvi < 4 ∧ b = true) := by
    intro b
    rw [Bool.not_eq_true', ← Bool.not_eq_true, Bool.and_eq_true, decide_eq_true_eq]
  rw [Bool.and_eq_true, Bool.and_eq_true, hok, hnot, Bool.not_eq_true', and_assoc]

/-- What the announcements do to the database. -/
def clearedBy (u : AnncUpdate) (body : Obj) : Bool := (body.get .at).any (fun new => !new.isNull) && u.finalAt.isEmpty

theorem clearedBy_eq_false {body : Obj} : clearedBy u body = false ↔
    (body.get .at).all Json.isNull = true ∨ u.finalAt ≠ [] := by
  unfold clearedBy
  rw [Bool.and_eq_false_iff, List.isEmpty_eq_false_iff]
  cases body.get .at with
  | none => simp
  | some new => simp

theorem processAnncAtUpdate_cleared (target body : Obj) (l : List CStr) :
    (processAnncAtUpdate (fun _ => l.map Json.str) target body).2 =
      ((body.get .at).any (fun new => !new.isNull) && l.isEmpty) := by
  unfold processAnncAtUpdate
  cases body.get .at with
  | none => rfl
  | some new =>
    cases l <;> cases new <;> simp [Json.isNull]
    split <;> rfl

/-- After the announcements are processed a refusal leaves what they did. -/
theorem updateFcnt_late (hpass : s.passesChecks e sn req target = true)
    (h : s.updateFcnt { e with kept := fun _ => u.finalAt.map Json.str } sn req target = some (s', resp)) :
    (resp.rsc ≠ .updated ↔ refusedLate e.print req target.obj = true) ∧
      (resp.rsc ≠ .updated → ∃ ri, target.ri = some ri ∧ s' = if clearedBy u req.pc then
        { s with db := s.db.dbUpdateResource [(.at, .null)] ri } else s) := by
  obtain ⟨hkeys, hrvi, hcheck⟩ := passesChecks_iff.mp hpass
  unfold Server.updateFcnt at h
  rw [hkeys, if_neg Bool.false_ne_true, if_neg hrvi] at h
  dsimp only at h
  have hcheck' : checkFcntUpdate { e with kept := fun _ => u.finalAt.map Json.str } sn req s target.obj (renameOr req.pc) =
      .ok () := hcheck
  rw [hcheck'] at h
  simp only [Option.bind_eq_bind, Option.bind_eq_some_iff, processAnncAtUpdate_cleared] at h
  obtain ⟨ri, hri, h⟩ := h
  -- the body, once it is completed
  have htouch : Assoc.Touches [.aa, .at, .lt] (renameOr req.pc)
      ((processAnncAtUpdate (fun _ => u.finalAt.map Json.str) target.obj (validateAa .update (renameOr req.pc) .fcnt)).1.add .lt
        (.str e.now)) :=
    ((touches_validateAa .update _ .fcnt).mono (by simp)).trans (.trans ((touches_processAnncAtUpdate _ _ _).mono (by simp))
      (.add _ _ (by simp)))
  have hat : (validateAa .update (renameOr req.pc) .fcnt).get .at = req.pc.get .at :=
    ((touches_validateAa .update _ .fcnt).get (by decide)).trans ((touches_renameOr req.pc).get (by decide))
  have hcs : (renameOr req.pc).get .cs = none := by
    refine ((touches_renameOr req.pc).get (by decide)).trans (Assoc.has_eq_false.mp (Bool.eq_false_iff.mpr fun hh => ?_))
    rw [List.any_eq_true.mpr ⟨.cs, by decide, hh⟩] at hkeys
    cases hkeys
  rw [hat] at h
  generalize ((processAnncAtUpdate (fun _ => u.finalAt.map Json.str) target.obj
    (validateAa .update (renameOr req.pc) .fcnt)).1.add .lt (.str e.now)) = body₀ at h htouch
  have hsize : (addFcntState e.print target.obj (customAttributes (renameOr req.pc)) body₀).get .cs =
      some (.int (sizeAfter e.print target.obj (customAttributes (renameOr req.pc)))) :=
    get_cs_addFcntState ((htouch.get (by decide)).trans hcs)
  have hall : ∀ k ∈ [Attr.fcied, .mni, .mbs, .mia],
      (addFcntState e.print target.obj (customAttributes (renameOr req.pc)) body₀).get k = (renameOr req.pc).get k := by
    intro k hk
    have hne : ∀ k ∈ [Attr.fcied, .mni, .mbs, .mia], k ∉ [Attr.st, .cs] ∧ k ∉ [Attr.aa, .at, .lt] := by decide
    have hne := hne k hk
    exact ((touches_addFcntState _ _ _ _).get hne.1).trans (htouch.get hne.2)
  generalize addFcntState e.print target.obj (customAttributes (renameOr req.pc)) body₀ = body at h hsize hall
  have hfinal : fciedFinal target.obj body = fciedFinal target.obj (renameOr req.pc) := by
    unfold fciedFinal
    rw [hall .fcied (by simp)]
  have hlate : refusedLate e.print req target.obj = (decide (4 ≤ req.rvi) && (!(checkFcied target.obj body).toBool ||
      ((fciedFinal target.obj body).any Json.isTrue &&
        mbsBelow target.obj body (sizeAfter e.print target.obj (customAttributes (renameOr req.pc)))))) := by
    unfold refusedLate
    rw [checkFcied_congr hall, hfinal, mbsBelow_congr fun k hk => hall k (List.mem_cons_of_mem _ hk)]
  rw [hlate]
  split at h
  · rename_i hold
    rw [decide_eq_false (by omega), Bool.false_and]
    have := Server.writeFcnt_rsc h
    simp [this]
  · rename_i hnew
    rw [decide_eq_true (by omega), Bool.true_and]
    split at h
    · rename_i r hfcied
      cases h
      rw [hfcied]
      exact ⟨⟨fun _ => rfl, fun _ => (denies_checkFcied _ _).ne_updated hfcied⟩, fun _ => ⟨ri, hri, rfl⟩⟩
    · rename_i hfcied
      obtain ⟨applied, happ, h⟩ := Option.bind_eq_some_iff.mp h
      have href := Server.applyFcied_refused hsize happ
      rw [hfcied]
      cases applied with
      | error r =>
        cases h
        have hboth := href.mp ⟨_, rfl⟩
        rw [hboth.1, hboth.2]
        exact ⟨⟨fun _ => rfl, fun _ => applyFcied_error happ⟩, fun _ => ⟨ri, hri, rfl⟩⟩
      | ok y =>
        have hnot : ¬ ((fciedFinal target.obj body).any Json.isTrue = true ∧ mbsBelow target.obj body
            (sizeAfter e.print target.obj (customAttributes (renameOr req.pc))) = true) := by
          intro hboth
          obtain ⟨r, hr⟩ := href.mpr hboth
          cases hr
        have hrsc := Server.writeFcnt_rsc h
        rw [← Bool.and_eq_true, Bool.not_eq_true] at hnot
        rw [hnot]
        simp [hrsc, Except.toBool]

/-- Where the lookups of `acpi` remove nothing of the flexContainer, a refused update leaves the flexContainer, its instances,
its rows and the remote announcements as they were, if and only if it is refused before the announcements of the body are
processed or these change nothing. -/
theorem unaffected_iff_early_or_quiet (hs : s.NodupIds) (ht : target ∈ s.tree.nodes) (hri : target.ri.isSome = true)
    (hacpi : ∀ addr, acpiStop e sn req s target = some addr → LooksAside e.now s target addr) (h : s.updateFcntAnnounced e r sn req target = some (s', resp, u)) :
    (resp.rsc ≠ .updated → Unaffected r s s' target u) ↔
      (s.passesChecks e sn req target = true → refusedLate e.print req target.obj = true → Quiet r s.db target req.pc) := by
  unfold Server.updateFcntAnnounced at h
  by_cases hpass : s.passesChecks e sn req target = true
  · rw [if_pos hpass] at h
    simp only [Option.bind_eq_bind, Option.bind_eq_some_iff] at h
    obtain ⟨u', hu, ⟨s₁, resp₁⟩, hup, h⟩ := h
    cases h
    obtain ⟨hrsc, hleft⟩ := updateFcnt_late hpass hup
    rw [hrsc]
    refine ⟨fun hun _ hlate => ?_, fun hq hlate => ?_⟩
    · obtain ⟨ri, hri, hs'⟩ := hleft (hrsc.mpr hlate)
      have hun := hun hlate
      intro u' hu'
      cases hu.symm.trans hu'
      refine ⟨hun.remote, ?_⟩
      by_cases hc : clearedBy u req.pc = true
      · have hrows := hun.rows
        rw [hs', if_pos hc] at hrows
        exact .inr (.inr ((ownRows_cleared hri).mp hrows))
      · rw [Bool.not_eq_true] at hc
        exact (clearedBy_eq_false.mp hc).imp_right .inl
    · obtain ⟨ri, hri, hs'⟩ := hleft (hrsc.mpr hlate)
      obtain ⟨hremote, hrows⟩ := hq hpass hlate u hu
      by_cases hc : clearedBy u req.pc = true
      · rw [if_pos hc] at hs'
        subst hs'
        refine ⟨rfl, rfl, (ownRows_cleared hri).mpr ?_, hremote⟩
        rcases hrows with hnull | hfinal | hrows
        · rw [clearedBy_eq_false.mpr (.inl hnull)] at hc
          cases hc
        · rw [clearedBy_eq_false.mpr (.inr hfinal)] at hc
          cases hc
        · exact hrows
      · rw [if_neg hc] at hs'
        subst hs'
        exact ⟨rfl, rfl, List.forall₂_same.mpr fun _ _ => ⟨rfl, rfl, fun _ _ => rfl⟩, hremote⟩
  · rw [if_neg hpass] at h
    obtain ⟨⟨s₁, resp₁⟩, hup, h⟩ := Option.map_eq_some_iff.mp h
    cases h
    have hkept : LeftAside s s₁ target := by
      rcases (updateFcnt_early (Bool.not_eq_true _ ▸ hpass) hup).1 with rfl | ⟨addr, haddr, rfl⟩
      · exact .refl hs ht
      · exact untouched_findRtnode hs ht hri (hacpi addr haddr)
    refine ⟨fun _ hp => absurd hp hpass, fun _ _ => ⟨?_, hkept.instances, ?_, rfl⟩⟩
    · rw [Server.node?_eq hkept.ids hkept.node, Server.node?_eq hs ht]
    · rw [hkept.rows]
      exact List.forall₂_same.mpr fun _ _ => ⟨rfl, rfl, fun _ _ => rfl⟩

end Refusals

/-! ## An announcement of a refused update -/

/-- Remote CSEs that do what they are asked. -/
def obligingRemotes : Remotes where
  deleted := fun _ => true
  created := fun _ => some "20003-1".toList
  removed := fun _ => true
  announces := fun _ => true
  deleted_of_removed := fun _ _ => rfl
  announces_of_created := fun _ _ _ => rfl

/-- A flexContainer with instances. -/
def instancedWarm : Option Server := do
  let s ← boot firstDay
  let (s, _) ← s.serveFcnt warmDay (.create none { adminReq .create "TinyIoT" .fcnt [(.rn, .str "w".toList),
    (.cnd, .str "org.onem2m.common.moduleclass.keepWarm".toList), (warmTime, .int 3), (.fcied, .bool true)] with rvi := 4 })
  return s

/-- An update that limits the instances to none, with what else the body has. -/
def noInstances (more : Obj) : Req := { adminReq .update "TinyIoT/w" .fcnt ((.mni, .int 0) :: more) with rvi := 4 }

theorem unaffected_iff_early_or_quiet_warm : ∃ s target s' resp u, instancedWarm = some s ∧
    s.named "TinyIoT/w".toList = some target ∧
    s.NodupIds ∧ target ∈ s.tree.nodes ∧ target.ri.isSome = true ∧
    acpiStop warmDay none (noInstances []) s target = none ∧
    s.updateFcntAnnounced warmDay obligingRemotes none (noInstances []) target = some (s', resp, u) ∧
    resp.rsc = .badRequest ∧ ((resp.rsc ≠ .updated → Unaffected obligingRemotes s s' target u) ↔
      (s.passesChecks warmDay none (noInstances []) target = true →
        refusedLate warmDay.print (noInstances []) target.obj = true →
        Quiet obligingRemotes s.db target (noInstances []).pc)) := by
  have hrun : instancedWarm.any (fun s => decide s.NodupIds && (s.named "TinyIoT/w".toList).any fun target =>
      target.ri.isSome && (acpiStop warmDay none (noInstances []) s target).isNone &&
        (s.updateFcntAnnounced warmDay obligingRemotes none (noInstances []) target).any fun x =>
          x.2.1.rsc = .badRequest) = true := by decide +kernel
  obtain ⟨s, hs, h⟩ := (Option.any_eq_true _ _).mp hrun
  rw [Bool.and_eq_true, decide_eq_true_eq] at h
  obtain ⟨hids, h⟩ := h
  obtain ⟨target, ht, h⟩ := (Option.any_eq_true _ _).mp h
  simp only [Bool.and_eq_true] at h
  obtain ⟨⟨hri, hstop⟩, h⟩ := h
  obtain ⟨⟨s', resp, u⟩, hup, h⟩ := (Option.any_eq_true _ _).mp h
  have hstop := Option.isNone_iff_eq_none.mp hstop
  have hmem : target ∈ s.tree.nodes := by
    rcases hp : s.resolve "TinyIoT/w".toList with _ | i | ⟨m, q⟩
    · rw [Server.named, hp] at ht
      cases ht
    · rw [Server.named, hp] at ht
      exact (Server.node?_mem ht).1
    · have hn : ∀ s, instancedWarm = some s → (s.resolve "TinyIoT/w".toList).treeId.isSome = true := by
        have hin : instancedWarm.all (fun s => (s.resolve "TinyIoT/w".toList).treeId.isSome) = true := by decide +kernel
        intro s hs
        rw [hs] at hin
        exact hin
      have := hn s hs
      rw [hp] at this
      cases this
  exact ⟨s, target, s', resp, u, hs, ht, hids, hmem, hri, hstop, hup, of_decide_eq_true h,
    unaffected_iff_early_or_quiet hids hmem hri (fun addr haddr => by rw [hstop] at haddr; cases haddr) hup⟩

/-- The update is refused for its limit, and the flexContainer is announced at the remote CSE. -/
theorem not_unaffected_after_late_refusal : ¬ ∀ e r sn req s target s' resp u, instancedWarm = some s →
    s.named req.target = some target → Server.updateFcntAnnounced e r sn req s target = some (s', resp, u) →
    resp.rsc ≠ .updated → Unaffected r s s' target u := by
  intro hall
  have hrun : instancedWarm.any (fun s => (s.named "TinyIoT/w".toList).any fun target =>
      (s.updateFcntAnnounced warmDay obligingRemotes none (noInstances [(.at, .arr [.str "/id-b".toList])]) target).any
        fun x => x.2.1.rsc = .badRequest && x.2.2.reaches obligingRemotes) = true := by decide +kernel
  obtain ⟨s, hs, h⟩ := (Option.any_eq_true _ _).mp hrun
  obtain ⟨target, ht, h⟩ := (Option.any_eq_true _ _).mp h
  obtain ⟨⟨s', resp, u⟩, hup, h⟩ := (Option.any_eq_true _ _).mp h
  rw [Bool.and_eq_true, decide_eq_true_eq] at h
  have hrsc : resp.rsc ≠ .updated := by
    rw [h.1]
    decide
  have := (hall _ _ _ _ _ _ _ _ _ hs ht hup hrsc).remote
  rw [h.2] at this
  cases this

end TinyIoT
