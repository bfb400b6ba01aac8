/-
Which definition a flexContainer is checked against. `sdt_validate_fcnt` takes the first one it finds: with the type
and the `cnd` of the request, else with its type, and for a request under `m2m:fcnt` with its `cnd`. The order is that
of the files of a directory. An update looks it up under the name the object of the resource has in memory, and an
object that is read from the database after a restart has none.
-/
import TinyIoT.FlexContainer.Run
import TinyIoT.FlexContainer.Schema
import TinyIoT.Access.Policy
import TinyIoT.Requests.Creates

namespace TinyIoT

/-! ## The definitions that may be found -/

/-- The definitions one of which comes first, by the order they were loaded in. -/
def Sdt.candidates (sdt : Sdt) (shortname : Option CStr) (cnd : CStr) : List SdtDef :=
  match shortname with
  | none => sdt.filter fun d => d.cnd = some cnd
  | some type =>
    if (sdt.filter fun d => d.type = type && d.cnd = some cnd).isEmpty then sdt.filter fun d => d.type = type
    else sdt.filter fun d => d.type = type && d.cnd = some cnd

/-- The status code that is returned. -/
def verdict : Except Resp Unit → Rsc
  | .ok () => .ok
  | .error r => r.rsc

/-- The status code with this definition. -/
def Sdt.verdictWith (sdt : Sdt) (cnd : CStr) (custom : Obj) (op : Operation) (d : SdtDef) : Rsc :=
  verdict (sdtCheckCnd sdt d cnd >>= fun _ => sdtCheckAttributes d custom op)

section Order

variable {sdt sdt' : Sdt} {sn : Option CStr} {cnd : CStr} {custom : Obj} {op : Operation} {d : SdtDef}

theorem head?_ite_isEmpty {α : Type} (l l' : List α) : (if l.isEmpty then l' else l).head? = l.head?.or l'.head? := by
  cases l <;> rfl

theorem sdtChoose_ok_iff : sdtChoose sdt sn cnd = .ok d ↔ (sdt.candidates sn cnd).head? = some d := by
  unfold sdtChoose Sdt.candidates Sdt.findByTypeAndCnd Sdt.findByType Sdt.findByCnd
  cases sn with
  | none =>
    dsimp only
    rw [List.head?_filter]
    cases sdt.find? fun d => d.cnd = some cnd <;> simp
  | some type =>
    dsimp only
    rw [head?_ite_isEmpty, List.head?_filter, List.head?_filter]
    cases (sdt.find? fun d => d.type = type && d.cnd = some cnd).or (sdt.find? fun d => d.type = type) <;> simp

theorem sdtChoose_rsc {r : Resp} (h : sdtChoose sdt sn cnd = .error r) : r.rsc = .specializationSchemaNotFound := by
  unfold sdtChoose at h
  split at h <;> split at h <;> cases h <;> rfl

/-- The result is that with the first candidate. -/
theorem verdict_sdtValidateFcnt (sdt : Sdt) (sn : Option CStr) (cnd : CStr) (custom : Obj) (op : Operation) :
    verdict (sdtValidateFcnt sdt sn (some cnd) custom op) =
      ((sdt.candidates sn cnd).head?.map (sdt.verdictWith cnd custom op)).getD .specializationSchemaNotFound := by
  rw [sdtValidateFcnt_some]
  cases h : sdtChoose sdt sn cnd with
  | ok d =>
    rw [sdtChoose_ok_iff.mp h]
    rfl
  | error r =>
    have hnone : (sdt.candidates sn cnd).head? = none := by
      cases hd : (sdt.candidates sn cnd).head? with
      | none => rfl
      | some d =>
        rw [sdtChoose_ok_iff.mpr hd] at h
        cases h
    rw [hnone]
    exact sdtChoose_rsc h

theorem candidates_perm (h : sdt'.Perm sdt) : (sdt'.candidates sn cnd).Perm (sdt.candidates sn cnd) := by
  unfold Sdt.candidates
  cases sn with
  | none => exact h.filter _
  | some type =>
    have hexact := h.filter fun d : SdtDef => d.type = type && d.cnd = some cnd
    dsimp only
    rw [hexact.isEmpty_eq]
    split
    · exact h.filter _
    · exact hexact

/-- What is checked once the definition is found does not depend on the order. -/
theorem verdictWith_perm (h : sdt'.Perm sdt) : sdt'.verdictWith cnd custom op d = sdt.verdictWith cnd custom op d := by
  have hfind : (sdt'.findByCnd cnd).isNone = (sdt.findByCnd cnd).isNone := by
    unfold Sdt.findByCnd
    rw [Bool.eq_iff_iff, Option.isNone_iff_eq_none, Option.isNone_iff_eq_none, List.find?_eq_none, List.find?_eq_none]
    exact forall_congr' fun d => by rw [h.mem_iff]
  unfold Sdt.verdictWith sdtCheckCnd
  rw [hfind]

theorem head?_filter_cons {α : Type} {p : α → Bool} {a : α} {l l' : List α} (h : a ∈ l.filter p) :
    ((a :: l').filter p).head? = some a := by
  have hp : p a = true := (List.mem_filter.mp h).2
  rw [List.filter_cons_of_pos hp]
  rfl

/-- Any candidate comes first in some order. -/
theorem exists_perm_head (hd : d ∈ sdt.candidates sn cnd) :
    ∃ sdt' : Sdt, sdt'.Perm sdt ∧ (sdt'.candidates sn cnd).head? = some d := by
  have hmem : d ∈ sdt := by
    unfold Sdt.candidates at hd
    split at hd
    · exact List.mem_of_mem_filter hd
    · split at hd <;> exact List.mem_of_mem_filter hd
  obtain ⟨l₁, l₂, rfl⟩ := List.append_of_mem hmem
  have hperm : (d :: (l₁ ++ l₂)).Perm (l₁ ++ d :: l₂) := List.perm_middle.symm
  refine ⟨d :: (l₁ ++ l₂), hperm, ?_⟩
  unfold Sdt.candidates at hd ⊢
  cases sn with
  | none => exact head?_filter_cons hd
  | some type =>
    dsimp only at hd ⊢
    rw [(hperm.filter _).isEmpty_eq]
    split at hd
    · rename_i he
      rw [if_pos he]
      exact head?_filter_cons hd
    · rename_i he
      rw [if_neg he]
      exact head?_filter_cons hd

end Order

/-- All definitions that may be found first give the same result. -/
def Sdt.Agrees (sdt : Sdt) (sn cnd : Option CStr) (custom : Obj) (op : Operation) : Prop :=
  ∀ c ∈ cnd, ∀ d ∈ sdt.candidates sn c, ∀ d' ∈ sdt.candidates sn c,
    sdt.verdictWith c custom op d = sdt.verdictWith c custom op d'

/-- The result depends on the order unless the candidates agree. -/
theorem order_free_iff (sdt : Sdt) (sn cnd : Option CStr) (custom : Obj) (op : Operation) :
    (∀ sdt' : Sdt, sdt'.Perm sdt →
      verdict (sdtValidateFcnt sdt' sn cnd custom op) = verdict (sdtValidateFcnt sdt sn cnd custom op)) ↔
    sdt.Agrees sn cnd custom op := by
  cases cnd with
  | none =>
    refine iff_of_true (fun _ _ => rfl) ?_
    rintro c ⟨⟩
  | some c =>
    constructor
    · rintro h _ ⟨⟩ d hd d' hd'
      obtain ⟨s₁, hp₁, hh₁⟩ := exists_perm_head hd
      obtain ⟨s₂, hp₂, hh₂⟩ := exists_perm_head hd'
      have h₁ := h s₁ hp₁
      have h₂ := h s₂ hp₂
      rw [verdict_sdtValidateFcnt s₁, hh₁, Option.map_some, Option.getD_some, verdictWith_perm hp₁] at h₁
      rw [verdict_sdtValidateFcnt s₂, hh₂, Option.map_some, Option.getD_some, verdictWith_perm hp₂] at h₂
      exact h₁.trans h₂.symm
    · intro h sdt' hp
      have hcand : (sdt'.candidates sn c).Perm (sdt.candidates sn c) := candidates_perm hp
      rw [verdict_sdtValidateFcnt, verdict_sdtValidateFcnt]
      cases hd : (sdt.candidates sn c).head? with
      | none =>
        rw [List.head?_eq_none_iff] at hd
        rw [hd] at hcand
        rw [hcand.eq_nil]
        rfl
      | some d =>
        cases hd' : (sdt'.candidates sn c).head? with
        | none =>
          rw [List.head?_eq_none_iff] at hd'
          rw [hd'] at hcand
          rw [← hcand.nil_eq] at hd
          cases hd
        | some d' =>
          rw [Option.map_some, Option.map_some, Option.getD_some, Option.getD_some, verdictWith_perm hp]
          exact h c rfl d' (hcand.subset (List.mem_of_mem_head? hd')) d (List.mem_of_mem_head? hd)

/-! ## The `cnd` of a flexContainer stays -/

/-- The node at this address, where there is one, has this `cnd`. -/
structure CndAt (s : Server) (i : Nat) (v : Json) : Prop where
  sane : s.Sane
  below : i < s.nextId
  cnd : ∀ n ∈ s.tree.nodes, n.id = i → n.obj.get .cnd = some v

namespace CndAt

variable {s s' : Server} {i : Nat} {v : Json} {o : Obj}

theorem congr (h : CndAt s i v) (ht : s'.tree = s.tree) (hn : s'.nextId = s.nextId) : CndAt s' i v :=
  ⟨h.sane.congr ht hn.ge, hn ▸ h.below, ht ▸ h.cnd⟩

theorem setObj (h : CndAt s i v) (ho : o.get .cnd = some v) : CndAt (s.setObj i o) i v := by
  refine ⟨h.sane.setObj i o, h.below, fun n hn hi => ?_⟩
  unfold Server.setObj at hn
  rw [Server.nodes_modifyNode] at hn
  obtain ⟨m, hm, rfl⟩ := List.mem_map.mp hn
  split
  · exact ho
  · rename_i hne
    rw [if_neg hne] at hi
    exact absurd hi hne

theorem removes {j : Nat} (h : CndAt s i v) (hr : s.Removes j s') : CndAt s' i v := by
  obtain ⟨l, -, rfl⟩ := hr
  induction l generalizing s with
  | nil => exact h
  | cons c l ih =>
    have hsub : (s.removeFcin c).tree.nodes.Sublist s.tree.nodes := Forest.nodes_remove_sublist _ _
    exact ih ⟨⟨h.sane.ids.sublist (hsub.map _), fun n hn => h.sane.below n (hsub.subset hn)⟩, h.below,
      fun n hn => h.cnd n (hsub.subset hn)⟩

theorem looksUp (h : CndAt s i v) {now : CStr} (hl : s.LooksUp now s') : CndAt s' i v := by
  have hsp := hl.spares h.sane.ids
  refine ⟨hsp.sane h.sane, hsp.nextId ▸ h.below, fun n hn hi => ?_⟩
  obtain ⟨m, hm, hk⟩ := Forest.Pruned.mem hsp.tree hn
  exact (Assoc.get_congr (hk.obj.attrs .cnd (by decide))).trans (h.cnd m hm (hk.id.trans hi))

theorem addInstance (h : CndAt s i v) {e : FcntEnv} {req : Req} {fcnt : RTNode} {isCreate b : Bool}
    (ha : s.addFlexcontainerInstance e req fcnt isCreate = some (s', b)) : CndAt s' i v := by
  rcases addFlexcontainerInstance_some ha with ⟨-, ht, -, hn, -⟩ | ⟨-, st, x, -, hid, -, -, -, -, -, -, -, ht, hn, -⟩
  · exact h.congr ht hn
  · have hnew : ∀ n ∈ s.tree.nodes, n.id ≠ x.id := fun n hn => hid ▸ (h.sane.below n hn).ne
    obtain ⟨hids, hmem⟩ := Server.mem_nodes_graft h.sane.ids hnew ht
    refine ⟨⟨hids, fun n hm => ?_⟩, hn ▸ h.below.trans (Nat.lt_succ_self _), fun n hm hi => ?_⟩
    · rw [hn]
      rcases hmem n hm with rfl | hm
      · exact hid ▸ Nat.lt_succ_self _
      · exact (h.sane.below n hm).trans (Nat.lt_succ_self _)
    · rcases hmem n hm with rfl | hm
      · exact absurd (hid.symm.trans hi) h.below.ne'
      · exact h.cnd n hm hi

theorem rollback (h : CndAt s i v) (ho : o.get .cnd = some v) (ri : CStr) : CndAt (s.rollbackFcnt i ri o) i v := by
  have hset : ∀ (o : Obj) (k : Attr) (n : Option Int), k ≠ .cnd →
      ((n.map fun n => o.set k (.int n)).getD o).get .cnd = o.get .cnd := by
    intro o k n hk
    cases n with
    | none => rfl
    | some n => exact Assoc.get_set_ne hk
  unfold Server.rollbackFcnt
  refine (h.setObj ?_).congr rfl rfl
  rw [hset _ _ _ (by decide), hset _ _ _ (by decide), ho]

/-- The end of an update. -/
theorem writeFcnt (h : CndAt s i v) {e : FcntEnv} {req : Req} {n : RTNode} (hi : n.id = i) {body custom : Obj} {needs : Bool}
    {r : Resp} (ho : o.get .cnd = some v) (hbody : body.get .cnd = none)
    (hcustom : ∀ x ∈ custom, isStandardFcntAttribute x.1 = false)
    (he : s.writeFcnt e req n o body custom needs = some (s', r)) : CndAt s' i v := by
  unfold Server.writeFcnt at he
  simp only [Option.bind_eq_bind, Option.bind_eq_some_iff] at he
  obtain ⟨ri, -, he⟩ := he
  have hobj : (applyCustom (o.updateResource body) custom).get .cnd = some v := by
    refine ((touches_applyCustom _ custom).get ?_).trans ((Obj.get_updateResource_of_not_has hbody).trans ho)
    intro hin
    obtain ⟨x, hx, hk⟩ := List.mem_map.mp hin
    have := hcustom x hx
    rw [hk] at this
    cases this
  generalize hmade : (if custom.isEmpty = true then _ else _ : Server) = s₁ at he
  have hs₁ : CndAt s₁ i v := by
    rw [← hmade]
    split
    · exact h.congr rfl rfl
    · exact h.congr rfl rfl
  rw [hi] at he
  have hset := hs₁.setObj hobj
  split at he
  · obtain ⟨⟨s₂, added⟩, hadd, he⟩ := Option.bind_eq_some_iff.mp he
    dsimp only at he
    split at he
    · cases he
      exact hset.addInstance hadd
    · cases he
      exact (hset.addInstance hadd).rollback hobj ri
  · cases he
    exact hset

/-- `update_fcnt`. -/
theorem updateFcnt {e : FcntEnv} {sn : Option CStr} {req : Req} {n : RTNode} {r : Resp} (h : CndAt s n.id v)
    (hn : n ∈ s.tree.nodes) (he : s.updateFcnt e sn req n = some (s', r)) : CndAt s' n.id v := by
  have hcnd : n.obj.get .cnd = some v := h.cnd n hn rfl
  unfold Server.updateFcnt at he
  split at he
  · cases he
    exact h
  rename_i hkeys
  split at he
  · cases he
    exact h
  dsimp only at he
  split at he
  · cases he
    exact h.looksUp (Server.looksUp_afterChecks _ _)
  obtain ⟨ri, -, he⟩ := Option.bind_eq_some_iff.mp he
  have hpc : req.pc.get .cnd = none := by
    refine Assoc.has_eq_false.mp (Bool.eq_false_iff.mpr fun hh => hkeys ?_)
    exact List.any_eq_true.mpr ⟨.cnd, by decide, hh⟩
  have hcustom : ∀ x ∈ customAttributes (renameOr req.pc), isStandardFcntAttribute x.1 = false :=
    fun x hx => (mem_customAttributes.mp hx).2
  generalize hb : addFcntState e.print n.obj (customAttributes (renameOr req.pc)) _ = body at he
  have hbody : body.get .cnd = none := by
    rw [← hb]
    refine ((touches_addFcntState _ _ _ _).get (by decide)).trans ((Assoc.get_add_ne (by decide)).trans ?_)
    refine ((touches_processAnncAtUpdate _ _ _).get (by decide)).trans ?_
    exact ((touches_validateAa _ _ _).get (by decide)).trans (((touches_renameOr _).get (by decide)).trans hpc)
  generalize hmade : (if (processAnncAtUpdate e.kept n.obj _).2 = true then _ else s : Server) = s₁ at he
  have hs₁ : CndAt s₁ n.id v := by
    rw [← hmade]
    split
    · exact h.congr rfl rfl
    · exact h
  split at he
  · exact hs₁.writeFcnt rfl hcnd hbody hcustom he
  · split at he
    · cases he
      exact hs₁
    · obtain ⟨applied, happ, he⟩ := Option.bind_eq_some_iff.mp he
      split at he
      · cases he
        exact hs₁
      · rename_i s₂ obj body' needs
        obtain ⟨hobj, hsame, hdone⟩ := applyFcied_some hs₁.sane.ids happ
        have hobj' : obj.get .cnd = some v := (hobj.get (by decide)).trans hcnd
        have hs₂ : CndAt s₂ n.id v := by
          rcases hdone with hr | ⟨-, hr⟩ | ⟨-, s₃, b, hadd, hr⟩
          · exact (hs₁.setObj hobj').removes hr
          · exact hs₁.removes hr
          · exact (hs₁.addInstance hadd).removes hr
        exact hs₂.writeFcnt rfl hobj' ((hsame.get (by decide)).trans hbody) hcustom he

/-- The end of a creation: the new node has the `cnd` of the object. -/
theorem storeFcnt {e : FcntEnv} {req : Req} {p : RTNode} {custom : Obj} {size : Int} {r : Resp} (hs : s.Sane)
    (ho : o.get .cnd = some v) (hr : r.rsc = .created) (he : s.storeFcnt e req p custom size o = some (s', r)) :
    CndAt s' s.nextId v := by
  unfold Server.storeFcnt at he
  simp only [Option.bind_eq_bind] at he
  obtain ⟨rn, -, he⟩ := Option.bind_eq_some_iff.mp he
  split at he
  · cases he
    cases hr
  obtain ⟨ri, -, he⟩ := Option.bind_eq_some_iff.mp he
  obtain ⟨x, hx, he⟩ := Option.bind_eq_some_iff.mp he
  obtain ⟨hid, hxty, -, -, -, -, -, hattr, -⟩ := createRtnode_some hx
  have hxcnd : x.obj.get .cnd = some v := (hattr .cnd (by decide)).trans ho
  rw [Server.addChildResourceTree_plain (by rw [hxty]; decide) (by rw [hxty]; decide)] at he
  have hmade : ∀ s₁ : Server, s₁.tree = s.tree.graft (RTNode.hasId p.id) (insertChild { x with uri := p.uri ++ '/' :: x.rn }) →
      s₁.nextId = s.nextId + 1 → CndAt s₁ s.nextId v := by
    intro s₁ ht hn
    have hnew : ∀ n ∈ s.tree.nodes, n.id ≠ x.id := fun n hn => hid ▸ (hs.below n hn).ne
    obtain ⟨hids, hmem⟩ := Server.mem_nodes_graft (x := { x with uri := p.uri ++ '/' :: x.rn }) hs.ids hnew ht
    refine ⟨⟨hids, fun n hm => ?_⟩, hn ▸ Nat.lt_succ_self _, fun n hm hi => ?_⟩
    · rw [hn]
      rcases hmem n hm with rfl | hm
      · exact hid ▸ Nat.lt_succ_self _
      · exact (hs.below n hm).trans (Nat.lt_succ_self _)
    · rcases hmem n hm with rfl | hm
      · exact hxcnd
      · exact absurd hi (hs.below n hm).ne
  split at he
  · obtain ⟨⟨s₂, added⟩, hadd, he⟩ := Option.bind_eq_some_iff.mp he
    have h₂ := (hmade _ rfl rfl).addInstance hadd
    dsimp only at he
    split at he
    · cases he
      have hobj : ((x.obj.add .cni (.int 1)).add .cbs (.int size)).get .cnd = some v :=
        (Assoc.get_add_ne (by decide)).trans ((Assoc.get_add_ne (by decide)).trans hxcnd)
      rw [hid]
      exact (h₂.setObj hobj).congr rfl rfl
    · cases he
      exact h₂
  · cases he
    exact hmade _ rfl rfl

/-- `create_fcnt`. -/
theorem createFcnt {e : FcntEnv} {sn : Option CStr} {req : Req} {p : RTNode} {r : Resp} (hs : s.Sane)
    (hcnd : req.pc.get .cnd = some v) (hr : r.rsc = .created) (he : s.createFcnt e sn req p = some (s', r)) :
    CndAt s' s.nextId v := by
  have hbody : (fcntBody sn req.pc).get .cnd = some v := ((touches_fcntBody sn req.pc).get (by decide)).trans hcnd
  unfold Server.createFcnt at he
  dsimp only at he
  split at he
  · rename_i hd
    cases he
    exact absurd hr ((denies_checkFcntBody _ _ _ _).ne_created hd)
  · simp only [Option.bind_eq_bind] at he
    obtain ⟨⟨o₁, m⟩, hgen, he⟩ := Option.bind_eq_some_iff.mp he
    have hgot : o₁.get .cnd = some v := ((touches_addGeneralAttribute hgen).get (by decide)).trans hbody
    dsimp only at he
    split at he
    · rename_i hd
      cases he
      exact absurd hr ((denies_buildFcnt _ _ _ _ _).ne_created hd)
    · rename_i o₂ ho
      exact storeFcnt (s := { s with riCount := m }) (hs.congr rfl le_rfl)
        (((touches_buildFcnt ho).get (by decide)).trans hgot) hr he

end CndAt

/-! ## The definition of an update -/

/-- `strtol` reads the text to its end. -/
def isNumeral (s : CStr) : Bool :=
  let s := s.dropWhile fun c => c = ' ' || ('\t' ≤ c && c ≤ '\r')
  let digits (s : CStr) : Bool := !s.isEmpty && s.all Char.isDigit
  match s with
  | '-' :: s => digits s
  | '+' :: s => digits s
  | s => digits s

/-- What `db_get_all_resource_as_rtnode` makes of a text; `parse` is `cJSON_Parse`. -/
def reloadText (parse : CStr → Option Json) (s : CStr) : Json :=
  if (parse s).any fun j => j.isArray || j.isObject then (parse s).getD .null
  else if isNumeral s then .int (max (-9223372036854775808) (min 9223372036854775807 (atoi s)))
  else .str s

/-- What it makes of a value that was stored. -/
def reload (parse : CStr → Option Json) (v : Json) : Option Json :=
  (column v).map fun v => v.valuestring.elim v (reloadText parse)

/-- A flexContainer in memory: the name of its object, where it has one and it is not `m2m:fcnt`, and the object. -/
structure FcntHeld where
  key : Option CStr
  obj : Obj

/-- The definition its updates are checked against. -/
def FcntHeld.definition (sdt : Sdt) (h : FcntHeld) : Option SdtDef :=
  (h.obj.str .cnd).bind fun cnd => (sdtChoose sdt h.key cnd).toOption.filter fun d => (sdtCheckCnd sdt d cnd).toBool

/-- A creation under this name, with this `cnd`, leaves it in memory. -/
def FcntHeld.Created (sdt : Sdt) (type cnd : CStr) (h : FcntHeld) : Prop :=
  ∃ e s req p s' r n, FcntEnv.sdt e = sdt ∧ Server.Sane s ∧ req.pc.get .cnd = some (.str cnd) ∧
    s.createFcnt e (some type) req p = some (s', r) ∧ r.rsc = .created ∧ n ∈ s'.tree.nodes ∧ n.id = s.nextId ∧
    h = ⟨some type, n.obj⟩

/-- An update under the name in memory, or a restart. -/
inductive FcntLife (sdt : Sdt) (parse : CStr → Option Json) : FcntHeld → FcntHeld → Prop
  | update {h : FcntHeld} {e : FcntEnv} {s s' : Server} {req : Req} {r : Resp} {n n' : RTNode} (hsdt : e.sdt = sdt)
    (hs : s.Sane) (hn : n ∈ s.tree.nodes) (hobj : n.obj = h.obj) (he : s.updateFcnt e h.key req n = some (s', r))
    (hn' : n' ∈ s'.tree.nodes) (hid : n'.id = n.id) : FcntLife sdt parse h ⟨h.key, n'.obj⟩
  | restart {h : FcntHeld} {o : Obj} (ho : o.get .cnd = (h.obj.get .cnd).bind (reload parse)) :
    FcntLife sdt parse h ⟨none, o⟩

section Life

variable {sdt : Sdt} {parse : CStr → Option Json} {h h' : FcntHeld} {type cnd : CStr} {d : SdtDef}

theorem sdtCheckCnd_self (hd : d.cnd = some cnd) : sdtCheckCnd sdt d cnd = .ok () := by
  unfold sdtCheckCnd
  simp [hd]

/-- The definition of a flexContainer whose `cnd` is a text. -/
theorem definition_of_first (hcnd : h.obj.get .cnd = some (.str cnd)) (hd : (sdt.candidates h.key cnd).head? = some d)
    (hdc : d.cnd = some cnd) : h.definition sdt = some d := by
  unfold FcntHeld.definition
  rw [Obj.str_of_get hcnd, Option.bind_some, sdtChoose_ok_iff.mpr hd]
  show (some d).filter _ = some d
  rw [Option.filter_some, if_pos]
  rw [sdtCheckCnd_self hdc]
  rfl

theorem created_cnd (hc : h.Created sdt type cnd) : h.key = some type ∧ h.obj.get .cnd = some (.str cnd) ∧ cnd ≠ [] := by
  obtain ⟨e, s, req, p, s', r, n, -, hs, hcnd, he, hr, hn, hid, rfl⟩ := hc
  refine ⟨rfl, (CndAt.createFcnt hs hcnd hr he).cnd n hn hid, ?_⟩
  rintro rfl
  unfold Server.createFcnt at he
  dsimp only at he
  split at he
  · rename_i hd
    cases he
    exact absurd hr ((denies_checkFcntBody _ _ _ _).ne_created hd)
  · rename_i hcheck
    obtain ⟨⟨⟩, hne, -⟩ := bind_ok hcheck
    have hbody : (fcntBody (some type) req.pc).get .cnd = some (.str []) :=
      ((touches_fcntBody _ req.pc).get (by decide)).trans hcnd
    have := require_ok hne
    rw [Obj.str_of_get hbody] at this
    cases this

/-- The `cnd` stays through updates, and a restart reads it back; the name is kept up to a restart. -/
theorem life_cnd (hkeep : reloadText parse cnd = .str cnd) (hne : cnd ≠ []) (hkey : h.key = some type ∨ h.key = none)
    (hcnd : h.obj.get .cnd = some (.str cnd)) (hl : FcntLife sdt parse h h') :
    (h'.key = some type ∨ h'.key = none) ∧ h'.obj.get .cnd = some (.str cnd) := by
  cases hl with
  | update hsdt hs hn hobj he hn' hid =>
    rename_i s s' req r n n'
    have hat : CndAt s n.id (.str cnd) := by
      refine ⟨hs, hs.below n hn, fun m hm hmid => ?_⟩
      rw [hs.ids.eq hm hn hmid, hobj, hcnd]
    exact ⟨hkey, (hat.updateFcnt hn he).cnd n' hn' hid⟩
  | restart ho =>
    refine ⟨.inr rfl, ho.trans ?_⟩
    rw [hcnd, Option.bind_some, reload, column_str hne]
    exact congrArg some hkeep

theorem valuestring_reloadText {t : CStr} (h : (reloadText parse t).valuestring = some cnd) : reloadText parse t = .str t := by
  unfold reloadText at h ⊢
  split at h
  · rename_i hp
    obtain ⟨j, hj, hty⟩ := (Option.any_eq_true _ _).mp hp
    rw [hj] at h
    cases j <;> simp [Json.isArray, Json.isObject] at hty <;> cases h
  · rename_i hp
    rw [if_neg hp]
    split at h
    · cases h
    · rename_i hnum
      rw [if_neg hnum]

/-- The order of the definitions does not matter exactly where the definitions that may come first agree; and the updates
of a flexContainer go by the definition with its type and `cnd` exactly where that is the first one with the `cnd`, and
the text of the `cnd` is read back as it is. -/
theorem settled_iff_agrees (hc : h.Created sdt type cnd) (parse : CStr → Option Json) (sn cnd' : Option CStr) (custom : Obj)
    (op : Operation) :
    ((∀ sdt' : Sdt, sdt'.Perm sdt →
      verdict (sdtValidateFcnt sdt' sn cnd' custom op) = verdict (sdtValidateFcnt sdt sn cnd' custom op)) ↔
      sdt.Agrees sn cnd' custom op) ∧
    ((∀ h', Reach (· = h) (FcntLife sdt parse) h' →
      ∃ d, h'.definition sdt = some d ∧ d.type = type ∧ d.cnd = some cnd) ↔
      ((sdt.findByCnd cnd).any fun d => d.type = type) = true ∧ reloadText parse cnd = .str cnd) := by
  refine ⟨order_free_iff sdt sn cnd' custom op, ?_⟩
  obtain ⟨hkey, hcnd, hne⟩ := created_cnd hc
  constructor
  · -- a restart right after the creation
    intro hall
    have hback : (h.obj.get .cnd).bind (reload parse) = some (reloadText parse cnd) := by
      rw [hcnd, Option.bind_some, reload, column_str hne]
      rfl
    obtain ⟨d, hd, hty, hdc⟩ := hall ⟨none, [(.cnd, reloadText parse cnd)]⟩ (.next (.start rfl) (.restart hback.symm))
    obtain ⟨c, hc, hd⟩ := Option.bind_eq_some_iff.mp hd
    have htext : reloadText parse cnd = .str cnd := valuestring_reloadText hc
    obtain ⟨hchoose, -⟩ := Option.filter_eq_some_iff.mp hd
    have hcc : c = cnd := by
      have hc' : (reloadText parse cnd).valuestring = some c := hc
      rw [htext] at hc'
      exact (Option.some.inj hc').symm
    subst hcc
    refine ⟨(Option.any_eq_true _ _).mpr ⟨d, ?_, decide_eq_true hty⟩, htext⟩
    unfold sdtChoose at hchoose
    dsimp only at hchoose
    split at hchoose
    · cases hchoose
    · rename_i d' hd'
      cases hchoose
      exact hd'
  · rintro ⟨hfirst, hkeep⟩ h' hr
    obtain ⟨d, hd, hty⟩ := (Option.any_eq_true _ _).mp hfirst
    have hdc := List.find?_some (p := fun d : SdtDef => d.cnd = some cnd) hd
    replace hdc : d.cnd = some cnd := of_decide_eq_true hdc
    have hty := of_decide_eq_true hty
    obtain ⟨hkey', hcnd'⟩ : (h'.key = some type ∨ h'.key = none) ∧ h'.obj.get .cnd = some (.str cnd) := by
      refine hr.inv (I := fun h => (h.key = some type ∨ h.key = none) ∧ h.obj.get .cnd = some (.str cnd)) ?_ ?_
      · rintro _ rfl
        exact ⟨.inl hkey, hcnd⟩
      · rintro h₁ h₂ ⟨hk, hc₁⟩ hl
        exact life_cnd hkeep hne hk hc₁ hl
    rcases hkey' with hk | hk
    · -- under its name the definition with both is found
      have hmem : d ∈ sdt.filter fun d => d.type = type && d.cnd = some cnd := by
        refine List.mem_filter.mpr ⟨List.mem_of_find?_eq_some hd, ?_⟩
        simp [hty, hdc]
      cases hex : sdt.find? fun d => d.type = type && d.cnd = some cnd with
      | none =>
        rw [List.find?_eq_none] at hex
        exact absurd (List.mem_filter.mp hmem).2 (hex d (List.mem_filter.mp hmem).1)
      | some d₁ =>
        have hboth := List.find?_some hex
        simp only [Bool.and_eq_true, decide_eq_true_eq] at hboth
        refine ⟨d₁, definition_of_first hcnd' ?_ hboth.2, hboth.1, hboth.2⟩
        rw [hk]
        unfold Sdt.candidates
        dsimp only
        rw [head?_ite_isEmpty, List.head?_filter, hex, Option.some_or]
    · refine ⟨d, definition_of_first hcnd' ?_ hdc, hty, hdc⟩
      rw [hk]
      unfold Sdt.candidates
      dsimp only
      rw [List.head?_filter]
      exact hd

end Life

/-! ## Definitions that share a `cnd` -/

/-- The `cnd` of `keepWarm`. -/
def keepWarmCnd : CStr := "org.onem2m.common.moduleclass.keepWarm".toList

/-- Another type, and another version of `keepWarm`, read before it. -/
def threeDefinitions : Sdt :=
  [{ type := "cod:opeLl".toList, cnd := some "org.onem2m.common.moduleclass.openLevel".toList, attributes := none },
    { type := keepWarm.type, cnd := some "org.example.keepWarm".toList, attributes := none }, keepWarm]

/-- A flexContainer is created under its own name. -/
def createKeepWarm : Option (Server × Server × Resp × RTNode × RTNode) := do
  let s ← boot firstDay
  let p ← s.named "TinyIoT".toList
  let (s', r) ← s.createFcnt { warmDay with sdt := threeDefinitions } (some keepWarm.type)
    (adminReq .create "TinyIoT" .fcnt [(.rn, .str "w".toList), (.cnd, .str keepWarmCnd), (warmTime, .int 3)]) p
  let n ← s'.node? s.nextId
  return (s, s', r, p, n)

theorem settled_iff_agrees_keepWarm : ∃ h : FcntHeld, h.Created threeDefinitions keepWarm.type keepWarmCnd ∧
    (∀ sdt' : Sdt, sdt'.Perm threeDefinitions →
      verdict (sdtValidateFcnt sdt' (some keepWarm.type) (some keepWarmCnd) [(warmTime, .int 3)] .create) =
        verdict (sdtValidateFcnt threeDefinitions (some keepWarm.type) (some keepWarmCnd) [(warmTime, .int 3)] .create)) ∧
    ∀ h', Reach (· = h) (FcntLife threeDefinitions fun _ => none) h' →
      ∃ d, h'.definition threeDefinitions = some d ∧ d.type = keepWarm.type ∧ d.cnd = some keepWarmCnd := by
  have hrun : createKeepWarm.any (fun x => decide (x.1.NodupIds ∧ ∀ n ∈ x.1.tree.nodes, n.id < x.1.nextId) &&
      x.2.2.1.rsc = .created) = true := by decide +kernel
  obtain ⟨⟨s, s', r, p, n⟩, hrun, hx⟩ := (Option.any_eq_true _ _).mp hrun
  simp only [Bool.and_eq_true, decide_eq_true_eq] at hx
  obtain ⟨⟨hids, hbelow⟩, hr⟩ := hx
  unfold createKeepWarm at hrun
  simp only [Option.bind_eq_bind, Option.bind_eq_some_iff, Option.pure_def, Option.some.injEq, Prod.mk.injEq] at hrun
  obtain ⟨s₀, -, p₀, -, ⟨s₁, r₁⟩, he, n₁, hn, rfl, rfl, rfl, rfl, rfl⟩ := hrun
  have hc : FcntHeld.Created threeDefinitions keepWarm.type keepWarmCnd ⟨some keepWarm.type, n₁.obj⟩ :=
    ⟨{ warmDay with sdt := threeDefinitions }, _, _, _, _, _, n₁, rfl, ⟨hids, hbelow⟩, rfl, he, hr,
      (Server.node?_mem hn).1, (Server.node?_mem hn).2, rfl⟩
  -- of the three only one has both the type and the `cnd`
  have hone : threeDefinitions.candidates (some keepWarm.type) keepWarmCnd = [keepWarm] := rfl
  obtain ⟨horder, hlife⟩ := settled_iff_agrees hc (fun _ => none) (some keepWarm.type) (some keepWarmCnd)
    [(warmTime, .int 3)] .create
  refine ⟨_, hc, horder.mpr ?_, hlife.mpr ⟨by decide, rfl⟩⟩
  rintro c hcnd d hd d' hd'
  obtain rfl := Option.some.inj hcnd
  rw [hone, List.mem_singleton] at hd hd'
  rw [hd, hd']

/-- Two types with one `cnd`: one has an attribute, the other has none. -/
def sharedCnd : Sdt :=
  [{ type := "cod:a".toList, cnd := some "shared".toList, attributes := some [{ sname := some "x".toList, type := none }] },
    { type := "cod:b".toList, cnd := some "shared".toList, attributes := none }]

/-- A request without a shortname is accepted or refused by the order. -/
theorem not_settled_sharedCnd : ¬ ∀ sdt : Sdt, sdt.Pairwise (fun d d' => ¬(d.type = d'.type ∧ d.cnd = d'.cnd)) →
    ∀ sdt' : Sdt, sdt'.Perm sdt → ∀ sn cnd custom op,
      verdict (sdtValidateFcnt sdt' sn cnd custom op) = verdict (sdtValidateFcnt sdt sn cnd custom op) := by
  intro h
  have hdistinct : sharedCnd.Pairwise fun d d' => ¬(d.type = d'.type ∧ d.cnd = d'.cnd) := by
    unfold sharedCnd
    simp
  have hcode := h sharedCnd hdistinct sharedCnd.reverse (List.reverse_perm _) none (some "shared".toList)
    [(.other "x".toList, .int 3)] .create
  revert hcode
  decide

end TinyIoT
