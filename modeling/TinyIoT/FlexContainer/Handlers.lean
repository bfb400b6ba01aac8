/-
What the handlers of a flexContainer do, one lemma for each function: to the custom attributes, which everything
but the body of a request leaves alone; to the tree, where instances come and go; and to the rows.
-/
import TinyIoT.Resource.FlexContainer
import TinyIoT.Resource.Built
import TinyIoT.Resource.Denials

namespace TinyIoT

/-! ## Attributes that are touched -/

section Touched

open Assoc (Touches)

/-- What touches standard attributes only leaves the custom ones. -/
theorem customAttributes_of_touches {l : List Attr} {o o' : Obj} (h : Touches l o o')
    (hl : (l.all isStandardFcntAttribute) = true) : customAttributes o' = customAttributes o :=
  h _ fun k hk => by simp [List.all_eq_true.mp hl k hk]

theorem customAttributes_updateResource (o b : Obj) :
    customAttributes (o.updateResource b) = (customAttributes o).updateResource (customAttributes b) :=
  Obj.filterKeys_updateResource ..

theorem mem_customAttributes {o : Obj} {e : Attr × Json} :
    e ∈ customAttributes o ↔ e ∈ o ∧ isStandardFcntAttribute e.1 = false := by
  unfold customAttributes Assoc.filterKeys
  rw [List.mem_filter, Bool.not_eq_true']

/-- The loop of an update goes over custom attributes only. -/
theorem customAttributes_applyCustom (o : Obj) {c : Obj} (hc : ∀ e ∈ c, isStandardFcntAttribute e.1 = false) :
    customAttributes (applyCustom o c) = applyCustom (customAttributes o) c := by
  induction c generalizing o with
  | nil => rfl
  | cons e c ih =>
    have he : (!isStandardFcntAttribute e.1) = true := by simp [hc e List.mem_cons_self]
    show customAttributes (applyCustom ((o.del e.1).add e.1 e.2) c) = applyCustom (((customAttributes o).del e.1).add e.1 e.2) c
    rw [ih _ fun e' h => hc e' (List.mem_cons_of_mem _ h)]
    unfold customAttributes
    rw [Assoc.filterKeys_add, Assoc.filterKeys_del, if_pos he, if_pos he]

theorem touches_applyCustom (o c : Obj) : Touches (c.map Prod.fst) o (applyCustom o c) :=
  Touches.foldl (fun _ _ he => Touches.put _ _ (List.mem_map.mpr ⟨_, he, rfl⟩)) o

theorem touches_validateAa (op : Operation) (o : Obj) (ty : ResourceType) : Touches [.aa] o (validateAa op o ty) := by
  unfold validateAa
  split
  · exact .refl _ o
  · exact .refl _ o
  · dsimp only
    split
    · exact .set o _ (by simp)
    · split
      · exact .set o _ (by simp)
      · exact .del o (by simp)

theorem touches_announceAt (env : Env) (o : Obj) : Touches [.at] o (announceAt env o) := by
  unfold announceAt
  dsimp only
  split
  · exact .put o _ (by simp)
  · exact .del o (by simp)

theorem touches_assignFcntCreator {req : Req} {o o' : Obj} (h : assignFcntCreator req o = .ok o') : Touches [.cr] o o' := by
  unfold assignFcntCreator assignCreator at h
  split at h
  · cases h; exact .refl _ o
  · cases h; exact .put o _ (by simp)
  · cases h

theorem touches_processAnncAtUpdate (kept : Json → List Json) (target body : Obj) :
    Touches [.at] body (processAnncAtUpdate kept target body).1 := by
  rcases processAnncAtUpdate_cases kept target body with h | h | ⟨v, h⟩ <;> rw [h]
  · exact .refl _ body
  · exact .del body (by simp)
  · exact .put body v (by simp)

theorem touches_renameOr (o : Obj) : Touches [.other "or".toList, .other "oref".toList] o (renameOr o) := by
  unfold renameOr
  split
  · exact .refl _ o
  · exact (Touches.del o (by simp)).trans (.add _ _ (by simp))

theorem touches_fcntBody (sn : Option CStr) (pc : Obj) :
    Touches [.other "or".toList, .other "oref".toList, .other "_sn".toList] pc (fcntBody sn pc) := by
  have h : ∀ o, Touches [.other "or".toList, .other "oref".toList, .other "_sn".toList] o (renameOr o) := fun o =>
    (touches_renameOr o).mono (by simp)
  unfold fcntBody
  cases sn with
  | none => exact h pc
  | some sn => exact (Touches.add pc _ (by simp)).trans (h _)

theorem touches_addGeneralAttribute {env : Env} {o parent o' : Obj} {ty : ResourceType} {n m : Nat}
    (h : addGeneralAttribute env o parent ty n = some (o', m)) : Touches [.ty, .ct, .ri, .rn, .lt, .pi, .et] o o' := by
  unfold addGeneralAttribute at h
  simp only [Option.bind_eq_bind, Option.bind_eq_some_iff, Option.pure_def, Option.some.injEq, Prod.mk.injEq] at h
  obtain ⟨pi, -, rfl, -⟩ := h
  have hadd : ∀ (o : Obj) (b : Bool) (k : Attr) (v : Json), k ∈ [Attr.ty, .ct, .ri, .rn, .lt, .pi, .et] →
      Touches [.ty, .ct, .ri, .rn, .lt, .pi, .et] o (if b then o else o.add k v) := by
    intro o b k v hk
    split
    · exact .refl _ o
    · exact .add o v hk
  refine .trans ?_ (hadd _ _ .et _ (by simp))
  refine .trans ?_ (.add _ _ (by simp))
  refine .trans ?_ (.add _ _ (by simp))
  refine .trans ?_ (hadd _ _ .rn _ (by simp))
  exact ((Touches.add o _ (by simp)).trans (.add _ _ (by simp))).trans (.add _ _ (by simp))

theorem touches_addFcntLimits (o : Obj) : Touches [.mni, .mbs, .mia] o (addFcntLimits o) := by
  have hadd : ∀ (o : Obj) (k : Attr) (v : Int), k ∈ [Attr.mni, .mbs, .mia] → Touches [.mni, .mbs, .mia] o (addDefault o k v) := by
    intro o k v hk
    unfold addDefault
    split
    · exact .refl _ o
    · exact .add o _ hk
  exact ((hadd o _ _ (by simp)).trans (hadd _ _ _ (by simp))).trans (hadd _ _ _ (by simp))

/-- What `create_fcnt` stores has the custom attributes of the body. -/
theorem touches_buildFcnt {e : FcntEnv} {req : Req} {s : Server} {size : Int} {o o' : Obj}
    (h : buildFcnt e req s size o = .ok o') : Touches [.aa, .cr, .at, .st, .cs, .mni, .mbs, .mia] o o' := by
  unfold buildFcnt at h
  obtain ⟨⟨⟩, -, h⟩ := bind_ok h
  obtain ⟨o₁, hcr, h⟩ := bind_ok h
  obtain ⟨⟨⟩, -, h⟩ := bind_ok h
  cases h
  refine .trans ((touches_validateAa .create o .fcnt).mono (by simp)) (.trans ((touches_assignFcntCreator hcr).mono (by simp)) ?_)
  refine .trans ((touches_announceAt e.toEnv o₁).mono (by simp)) ?_
  refine .trans (.trans (.add _ (.int 0) (by simp : Attr.st ∈ _)) (.add _ (.int size) (by simp : Attr.cs ∈ _))) ?_
  split
  · exact (touches_addFcntLimits _).mono (by simp)
  · exact .refl _ _

theorem touches_addFcntState (print : Json → CStr) (target custom body : Obj) :
    Touches [.st, .cs] body (addFcntState print target custom body) := by
  unfold addFcntState
  split
  · exact .add body _ (by simp)
  · dsimp only
    refine .trans ?_ (.add _ _ (by simp))
    cases target.num .st with
    | none => exact .refl _ body
    | some st => exact .add body _ (by simp)

theorem touches_putCounters (o : Obj) (cbs cni : Option Json) : Touches [.cbs, .cni] o (putCounters o cbs cni) :=
  (Touches.put o _ (by simp)).trans (.put _ _ (by simp))

theorem touches_countInstance (target body : Obj) (content : Bool) :
    Touches [.cni, .cbs, .mni, .mbs, .mia] body (countInstance target body content).1 := by
  have hlim : ∀ o, Touches [.cni, .cbs, .mni, .mbs, .mia] o (addMissingLimits target o) := by
    intro o
    unfold addMissingLimits
    split
    · exact .refl _ o
    · exact ((Touches.add o _ (by simp)).trans (.add _ _ (by simp))).trans (.add _ _ (by simp))
  have hput : ∀ (o : Obj) (k l : Attr) (v w : Json), k ∈ [Attr.cni, .cbs, .mni, .mbs, .mia] → l ∈ [Attr.cni, .cbs, .mni, .mbs, .mia] →
      Touches [.cni, .cbs, .mni, .mbs, .mia] o ((((o.del k).del l).add k v).add l w) := fun o k l v w hk hl =>
    (((Touches.del o hk).trans (.del _ hl)).trans (.add _ v hk)).trans (.add _ w hl)
  have hon : Touches [.cni, .cbs, .mni, .mbs, .mia] body ((body.add .cni (.int 0)).add .cbs (.int 0)) :=
    (Touches.add body _ (by simp)).trans (.add _ _ (by simp))
  unfold countInstance
  dsimp only
  cases switchedOn target body <;> cases content
  · exact hlim _
  · exact (hlim _).trans (hput _ .cbs .cni _ _ (by simp) (by simp))
  · exact (hon.trans (hlim _)).trans (hput _ .cni .cbs _ _ (by simp) (by simp))
  · exact (hon.trans (hlim _)).trans (hput _ .cbs .cni _ _ (by simp) (by simp))

theorem touches_addNulls (l : List Attr) (o : Obj) : Touches l o (l.foldl addNull o) := by
  refine Touches.foldl (fun o k hk => ?_) o
  unfold addNull
  split
  · exact .refl _ o
  · exact .add o _ hk

theorem touches_dels (l : List Attr) (o : Obj) : Touches l o (l.foldl Assoc.del o) :=
  Touches.foldl (fun _ _ hk => .del _ hk) o

theorem touches_evictToLimits (i : Nat) (s : Server) (target body : Obj) :
    Touches [.cbs, .cni] body (s.evictToLimits i target body).2 := by
  have hput : ∀ (p : Prop) [Decidable p] (o : Obj) (cbs cni : Option Json),
      Touches [.cbs, .cni] o (if p then putCounters o cbs cni else o) := by
    intro p _ o cbs cni
    split
    · exact touches_putCounters o cbs cni
    · exact .refl _ o
  exact (hput _ body _ _).trans (hput _ _ _ _)

end Touched

/-! ## Refusals -/

theorem require_ok {ok : Bool} {msg : String} (h : require ok msg = .ok ()) : ok = true := by
  unfold require at h
  split at h
  · assumption
  · cases h

theorem denies_sdtValidateAttrType (type : CStr) (v : Json) : Denies (sdtValidateAttrType type v) := by
  have htext : ∀ valid kind format, Denies (requireText valid kind format v) := fun valid kind format =>
    Denies.bind (.check _ kind) fun _ => .check _ format
  have hnumber : ∀ valid kind range, Denies (requireNumber valid kind range v) := fun valid kind range =>
    Denies.bind (.check _ kind) fun _ => .check _ range
  unfold sdtValidateAttrType
  dsimp only
  repeat' apply Denies.ite
  all_goals first
    | exact .check _ _
    | exact htext _ _ _
    | exact hnumber _ _ _
    | exact .bind (.check _ _) fun _ => .check _ _
    | exact .ok ()
    | exact .handled rfl

theorem denies_sdtValidateFcnt (sdt : Sdt) (sn cnd : Option CStr) (custom : Obj) (op : Operation) :
    Denies (sdtValidateFcnt sdt sn cnd custom op) := by
  have hattr : ∀ attrs e, Denies (sdtCheckAttr op attrs e) := by
    intro attrs e
    unfold sdtCheckAttr
    split
    · exact .handled rfl
    · rename_i a _
      refine .bind ?_ fun _ => .bind (.check _ _) fun _ => .check _ _
      cases a.type with
      | none => exact .ok ()
      | some t => exact denies_sdtValidateAttrType t e.2
  have hchoose : ∀ cnd, Denies (sdtChoose sdt sn cnd) := by
    intro cnd
    unfold sdtChoose
    split <;> split
    all_goals first
      | exact .handled rfl
      | exact .ok _
  have hcnd : ∀ d cnd, Denies (sdtCheckCnd sdt d cnd) := fun d cnd =>
    .ite (.ok ()) (.ite (.handled rfl) (.handled rfl))
  unfold sdtValidateFcnt
  split
  · exact .handled rfl
  · refine .bind (hchoose _) fun d => .bind (hcnd d _) fun _ => ?_
    split
    · exact .check _ _
    · refine .bind (.forM (hattr _) custom) fun _ => ?_
      split
      · exact .forM (fun _ => .check _ _) _
      · exact .ok ()

theorem denies_validateFcnt (now : CStr) (s : Server) (rvi : Int) (fcnt : Obj) (op : Operation) :
    Denies (validateFcnt now s rvi fcnt op) := by
  have hacpi : Denies (checkFcntAcpi now s fcnt op) := by
    unfold checkFcntAcpi
    split
    · exact .ok ()
    · exact denies_validateAcpi _ _ _ _
  have hlimit : ∀ b k i z, Denies (checkFcntLimit fcnt b k i z) := by
    intro b k i z
    unfold checkFcntLimit
    split
    · exact .ok ()
    · exact .ite (.handled rfl) (.ite (.handled rfl) (.ok ()))
  unfold validateFcnt
  refine .bind (.bind (.check _ _) fun _ => .check _ _) fun _ => .bind hacpi fun _ => .bind (.check _ _) fun _ => ?_
  split
  · exact .check _ _
  · exact .bind (.check _ _) fun _ => .bind (hlimit _ _ _ _) fun _ => .bind (hlimit _ _ _ _) fun _ => hlimit _ _ _ _

theorem denies_checkFcntBody (sdt : Sdt) (sn : Option CStr) (rvi : Int) (o : Obj) : Denies (checkFcntBody sdt sn rvi o) := by
  have hname : ∀ cnd, Denies (validateShortnameCnd sdt sn cnd) := by
    intro cnd
    unfold validateShortnameCnd
    split
    · exact .ok ()
    · refine .ite (.ok ()) ?_
      split
      · exact .handled rfl
      · exact .ite (.ok ()) (.ite (.handled rfl) (.handled rfl))
  exact .bind (.check _ _) fun _ => .bind (hname _) fun _ => .bind (.bind (.check _ _) fun _ => .check _ _) fun _ =>
    .bind (denies_sdtValidateFcnt _ _ _ _ _) fun _ => .bind (.check _ _) fun _ => .check _ _

theorem denies_buildFcnt (e : FcntEnv) (req : Req) (s : Server) (size : Int) (o : Obj) :
    Denies (buildFcnt e req s size o) := by
  have hcr : ∀ o, Denies (assignFcntCreator req o) := by
    intro o
    unfold assignFcntCreator
    cases assignCreator req o with
    | error _ => exact .handled rfl
    | ok _ => exact .ok _
  exact .bind (denies_validateFcnt _ _ _ _ _) fun _ => .bind (hcr _) fun _ => .bind (.check _ _) fun _ => .ok _

/-- The checks of `update_fcnt`. -/
theorem denies_checkFcntUpdate (e : FcntEnv) (sn : Option CStr) (req : Req) (s : Server) (target body : Obj) :
    Denies (checkFcntUpdate e sn req s target body) := by
  have hcustom : ∀ custom, Denies (checkFcntCustom e.sdt sn target custom) := fun custom =>
    .bind (.bind (.check _ _) fun _ => .check _ _) fun _ => .bind (denies_sdtValidateFcnt _ _ _ _ _) fun _ => .check _ _
  have hcustoms : Denies (checkFcntCustoms e sn target body) := by
    unfold checkFcntCustoms
    split
    · exact .ok ()
    · exact hcustom _
  exact .bind hcustoms fun _ => denies_validateFcnt _ _ _ _ _

theorem denies_checkFcied (target body : Obj) : Denies (checkFcied target body) := by
  unfold checkFcied
  split
  · exact .check _ _
  · split
    · exact .check _ _
    · exact .check _ _

/-! ## Instances that go -/

theorem oldestFcin_mem {min : Int} {o : Option RTNode} {l : List RTNode} {c : RTNode} (h : oldestFcin min o l = some c) :
    o = some c ∨ c ∈ l := by
  induction l generalizing min o with
  | nil => exact .inl h
  | cons a l ih =>
    unfold oldestFcin at h
    split at h
    · split at h
      · rcases ih h with h | h
        · exact .inr (Option.some.inj h ▸ List.mem_cons_self)
        · exact .inr (List.mem_cons_of_mem _ h)
      · exact (ih h).imp_right (List.mem_cons_of_mem _)
    · rcases ih h with h | h
      · cases o with
        | none => exact .inr (Option.some.inj h ▸ List.mem_cons_self)
        | some b => exact .inl h
      · exact .inr (List.mem_cons_of_mem _ h)

namespace Server

variable {s s' : Server} {i : Nat}

theorem mem_fcins {c : RTNode} : c ∈ s.fcins i ↔ c ∈ (s.children i).roots ∧ c.ty = .fcin := by
  unfold fcins
  simp

/-- An assignment to another kind of node leaves the instances alone. -/
theorem fcins_setObj (hs : s.NodupIds) {n : RTNode} (hn : n ∈ s.tree.nodes) (hty : n.ty ≠ .fcin) (o : Obj) (j : Nat) :
    (s.setObj n.id o).fcins j = s.fcins j := by
  unfold fcins setObj
  rw [children_modifyNode (f := fun n => { n with obj := o }) fun _ => rfl, Forest.roots_modify, List.filter_map]
  have hkind : ∀ c ∈ (s.children j).roots, c.ty = .fcin → RTNode.hasId n.id c = false := by
    intro c hc hcty
    rw [Bool.eq_false_iff]
    intro hid
    exact hty (hs.eq (mem_of_mem_children hc) hn (hasId_iff.mp hid) ▸ hcty)
  have hsame : (List.filter ((fun c : RTNode => decide (c.ty = .fcin)) ∘
      fun c => if RTNode.hasId n.id c = true then { c with obj := o } else c) (s.children j).roots) =
      (s.children j).roots.filter fun c => c.ty = .fcin := by
    refine List.filter_congr fun c _ => ?_
    simp only [Function.comp]
    split <;> rfl
  rw [hsame]
  refine (List.map_congr_left (g := id) fun c hc => ?_).trans (List.map_id _)
  obtain ⟨hc, hcty⟩ := List.mem_filter.mp hc
  rw [hkind c hc (of_decide_eq_true hcty)]
  rfl

/-- The instances left below a node after one of them is removed were there before. -/
theorem mem_fcins_removeFcin (hs : s.NodupIds) {c d : RTNode} (h : d ∈ (s.removeFcin c).fcins i) : d ∈ s.fcins i := by
  obtain ⟨hd, hty⟩ := mem_fcins.mp h
  rcases children_cell (s := s.removeFcin c) (i := i) with ⟨n, hn, rfl⟩ | hn
  · obtain ⟨c₀, hc₀, he, -⟩ := Forest.mem_cells_remove (t := s.tree) hn
    rw [he, Forest.roots_remove] at hd
    rw [mem_fcins, children_eq hs hc₀]
    exact ⟨List.mem_of_mem_filter hd, hty⟩
  · rw [hn] at hd
    cases hd

theorem nodupIds_removeFcin (hs : s.NodupIds) (c : RTNode) : (s.removeFcin c).NodupIds :=
  hs.sublist ((Forest.nodes_remove_sublist _ _).map _)

theorem nodupIds_removeFcins (hs : s.NodupIds) (l : List RTNode) : (l.foldl removeFcin s).NodupIds := by
  induction l generalizing s with
  | nil => exact hs
  | cons c l ih => exact ih (nodupIds_removeFcin hs c)

theorem mem_fcins_removeFcins (hs : s.NodupIds) {l : List RTNode} {d : RTNode} (h : d ∈ (l.foldl removeFcin s).fcins i) :
    d ∈ s.fcins i := by
  induction l generalizing s with
  | nil => exact h
  | cons c l ih => exact mem_fcins_removeFcin hs (ih (nodupIds_removeFcin hs c) h)

/-- Instances below a node are removed, one after the other. -/
def Removes (s : Server) (i : Nat) (s' : Server) : Prop :=
  ∃ l : List RTNode, (∀ c ∈ l, c ∈ s.fcins i) ∧ s' = l.foldl removeFcin s

theorem Removes.refl (s : Server) (i : Nat) : s.Removes i s := ⟨[], by simp, rfl⟩

theorem Removes.trans (hs : s.NodupIds) {s₁ : Server} (h : s.Removes i s₁) (h' : s₁.Removes i s') : s.Removes i s' := by
  obtain ⟨l, hl, rfl⟩ := h
  obtain ⟨l', hl', rfl⟩ := h'
  refine ⟨l ++ l', fun d hd => ?_, by rw [List.foldl_append]⟩
  rcases List.mem_append.mp hd with hd | hd
  · exact hl d hd
  · exact mem_fcins_removeFcins hs (hl' d hd)

theorem Removes.nodupIds (h : s.Removes i s') (hs : s.NodupIds) : s'.NodupIds := by
  obtain ⟨l, -, rfl⟩ := h
  exact nodupIds_removeFcins hs l

theorem removes_cleanupFcntInstances (s : Server) (i : Nat) (keep : Bool) : s.Removes i (s.cleanupFcntInstances i keep) :=
  ⟨_, fun _ hc => List.mem_of_mem_filter hc, rfl⟩

theorem removes_deleteOldest (s : Server) (i : Nat) : s.Removes i (s.deleteOldestFcinRtnode i).1 := by
  unfold deleteOldestFcinRtnode
  split
  · exact .refl s i
  · rename_i c hc
    refine ⟨[c], fun d hd => ?_, rfl⟩
    rw [List.mem_singleton.mp hd]
    exact (oldestFcin_mem hc).resolve_left (by simp)

theorem removes_evictFcins (hs : s.NodupIds) (above : Option Json → Option Json → Bool) (fuel : Nat) (cbs cni : Option Json)
    (deleted : Nat) : s.Removes i (evictFcins above i fuel s cbs cni deleted).1 := by
  induction fuel generalizing s cbs cni deleted with
  | zero => exact .refl s i
  | succ fuel ih =>
    unfold evictFcins
    split
    · dsimp only
      have h₁ := removes_deleteOldest s i
      split
      · exact h₁
      · exact h₁.trans hs (ih (h₁.nodupIds hs) _ _ _)
    · exact .refl s i

theorem removes_evictToLimits (hs : s.NodupIds) (target body : Obj) : s.Removes i (s.evictToLimits i target body).1 := by
  have hagain : ∀ {s₁ : Server} (above : Option Json → Option Json → Bool) (cbs cni : Option Json), s.Removes i s₁ →
      s.Removes i (evictFcins above i (s₁.fcins i).length s₁ cbs cni 0).1 := fun above cbs cni h =>
    h.trans hs (removes_evictFcins (h.nodupIds hs) above _ cbs cni 0)
  unfold evictToLimits
  dsimp only
  split
  · refine hagain _ _ _ ?_
    split
    · exact hagain _ _ _ (.refl s i)
    · exact .refl s i
  · split
    · exact hagain _ _ _ (.refl s i)
    · exact .refl s i

end Server

/-! ## An instance that comes -/

theorem get_copyAttr_ne {src dst : Obj} {k k' : Attr} (h : k ≠ k') : (copyAttr src dst k).get k' = dst.get k' := by
  unfold copyAttr
  cases src.get k with
  | none => rfl
  | some v => exact Assoc.get_add_ne h

/-- The attributes `add_flexcontainer_instance` copies. -/
def copiedAttrs : List Attr := [.rn, .lbl, .fcied, locAttr]

/-- The standard attributes of an instance that are not copied. -/
theorem get_buildFcin {fr : CStr} {fcnt : RTNode} {st : Int} {isCreate : Bool} {k : Attr} (hk : isStandardFcntAttribute k = true)
    (hc : k ∉ copiedAttrs) : (buildFcin fr fcnt st isCreate).get k =
      Obj.get [(.st, .int (if isCreate then 0 else st)), (.cs, .int ((fcnt.obj.num .cs).getD 0)), (.other "org".toList, .str fr)] k := by
  simp only [copiedAttrs, List.mem_cons, List.not_mem_nil, or_false, not_or] at hc
  have hcust : Obj.get (customAttributes fcnt.obj) k = none := by
    unfold customAttributes
    rw [Obj.get, Assoc.get_filterKeys, if_neg (by simp [hk])]
  unfold buildFcin
  simp only [Obj.get, Assoc.get_add, Assoc.get_append, Assoc.get_cons, Assoc.get_nil] at hcust ⊢
  rw [hcust, show Assoc.get (copyAttr fcnt.obj (copyAttr fcnt.obj (copyAttr fcnt.obj _ Attr.lbl) Attr.fcied) locAttr) k = none
    from ?_]
  · by_cases h1 : Attr.st = k
    · simp [h1]
    · by_cases h2 : Attr.cs = k
      · simp [h1, h2]
      · simp [h1, h2]
  · refine (get_copyAttr_ne (Ne.symm hc.2.2.2)).trans ((get_copyAttr_ne (Ne.symm hc.2.2.1)).trans ((get_copyAttr_ne (Ne.symm hc.2.1)).trans ?_))
    simp [Ne.symm hc.1]

theorem get_rn_buildFcin (fr : CStr) (fcnt : RTNode) (st : Int) (isCreate : Bool) :
    (buildFcin fr fcnt st isCreate).get .rn = some (.str (fcnt.rn ++ '_' :: Decimal.ofInt st)) := by
  have hcopy : ∀ (o : Obj) (k : Attr) v, o.get .rn = some v → (copyAttr fcnt.obj o k).get .rn = some v := by
    intro o k v h
    unfold copyAttr
    cases fcnt.obj.get k with
    | none => exact h
    | some w =>
      show Assoc.get (Assoc.add o k w) .rn = _
      rw [Assoc.get_add, show Assoc.get o .rn = some v from h]
      rfl
  have h := hcopy (copyAttr fcnt.obj (copyAttr fcnt.obj [(.rn, .str (fcnt.rn ++ '_' :: Decimal.ofInt st))] .lbl) .fcied) locAttr _
    (hcopy _ .fcied _ (hcopy _ .lbl _ rfl))
  unfold buildFcin
  simp only [Obj.get, Assoc.get_add, Assoc.get_append] at h ⊢
  rw [h]
  rfl

theorem get_fcinExpiry {later : Int → CStr} {fcnt o : Obj} {k : Attr} (hk : k ≠ .et) : (fcinExpiry later fcnt o).get k = o.get k := by
  have hset : ∀ v, Obj.get ((o.del .et).add .et v) k = o.get k := fun v =>
    (Assoc.get_add_ne (Ne.symm hk)).trans (Assoc.get_del_ne (Ne.symm hk))
  have hfrom : Obj.get (fcinExpiry.fromFcnt fcnt o) k = o.get k := by
    unfold fcinExpiry.fromFcnt
    split
    · exact hset _
    · rfl
  unfold fcinExpiry
  split
  · split
    · exact hset _
    · exact hfrom
  · exact hfrom

/-- The row of an instance, and the custom attributes that are written to it. -/
def InstanceRow (db : Db) (ri uri : CStr) (db' : Db) : Prop :=
  ∃ q : Row, q.ri = some ri ∧ q.ty = .fcin ∧ q.uri = uri ∧
    (db' = db ++ [q] ∨ ∃ b custom, db' = Db.dbStoreFcntCustomAttributes b (db ++ [q]) ri custom)

/-- The object of an instance. -/
structure FcinObject (e : FcntEnv) (fcnt : RTNode) (st : Json) (isCreate : Bool) (n : Nat) (o : Obj) : Prop where
  ri : o.get .ri = some (.str (resourceIdentifier .fcin e.now n).1)
  pi : ∃ pi, fcnt.ri = some pi ∧ o.get .pi = some (.str pi)
  rn : o.str .rn = some (fcnt.rn ++ '_' :: Decimal.ofInt st.valueint)
  ty : o.get .ty = some (.int ResourceType.fcin.code)
  st : o.get .st = some (.int (if isCreate then 0 else st.valueint))
  cs : o.get .cs = some (.int ((fcnt.obj.num .cs).getD 0))
  custom : customAttributes o = customAttributes fcnt.obj

theorem touches_copies (src o : Obj) : Assoc.Touches [.lbl, .fcied, locAttr] o (copyAttr src (copyAttr src (copyAttr src o .lbl) .fcied) locAttr) := by
  have hcopy : ∀ (o : Obj) (k : Attr), k ∈ [Attr.lbl, .fcied, locAttr] → Assoc.Touches [.lbl, .fcied, locAttr] o (copyAttr src o k) := by
    intro o k hk
    unfold copyAttr
    cases src.get k with
    | none => exact .refl _ o
    | some v => exact .add o v hk
  exact ((hcopy o .lbl (by simp)).trans (hcopy _ .fcied (by simp))).trans (hcopy _ locAttr (by simp))

theorem touches_fcinExpiry (later : Int → CStr) (fcnt o : Obj) : Assoc.Touches [.et] o (fcinExpiry later fcnt o) := by
  have hfrom : Assoc.Touches [.et] o (fcinExpiry.fromFcnt fcnt o) := by
    unfold fcinExpiry.fromFcnt
    split
    · exact .put o _ (by simp)
    · exact .refl _ o
  unfold fcinExpiry
  split
  · split
    · exact .put o _ (by simp)
    · exact hfrom
  · exact hfrom

/-- The custom attributes of an instance are those of the flexContainer. -/
theorem customAttributes_buildFcin (fr : CStr) (fcnt : RTNode) (st : Int) (isCreate : Bool) :
    customAttributes (buildFcin fr fcnt st isCreate) = customAttributes fcnt.obj := by
  have happ : ∀ o o' : Obj, customAttributes (o ++ o') = customAttributes o ++ customAttributes o' := fun o o' =>
    List.filter_append ..
  have hidem : customAttributes (customAttributes fcnt.obj) = customAttributes fcnt.obj := by
    unfold customAttributes
    rw [Assoc.filterKeys_filterKeys]
    simp
  have hhead : customAttributes (copyAttr fcnt.obj (copyAttr fcnt.obj (copyAttr fcnt.obj
      [(.rn, .str (fcnt.rn ++ '_' :: Decimal.ofInt st))] .lbl) .fcied) locAttr) = [] :=
    (customAttributes_of_touches (touches_copies _ _) (by decide)).trans rfl
  have htail : Assoc.Touches [.st, .cs, .other "org".toList]
      (copyAttr fcnt.obj (copyAttr fcnt.obj (copyAttr fcnt.obj [(.rn, .str (fcnt.rn ++ '_' :: Decimal.ofInt st))] .lbl) .fcied) locAttr ++
        customAttributes fcnt.obj) (buildFcin fr fcnt st isCreate) :=
    ((Assoc.Touches.add _ _ (by simp)).trans (.add _ _ (by simp))).trans (.add _ _ (by simp))
  rw [customAttributes_of_touches htail (by decide), happ, hhead, hidem]
  rfl

/-- What `add_flexcontainer_instance` does: nothing, or one instance below the flexContainer, with its object and its row. -/
theorem addFlexcontainerInstance_object {e : FcntEnv} {req : Req} {s s' : Server} {fcnt : RTNode} {isCreate b : Bool}
    (h : s.addFlexcontainerInstance e req fcnt isCreate = some (s', b)) :
    (b = false ∧ s'.tree = s.tree ∧ s'.db = s.db ∧ s'.nextId = s.nextId ∧ s'.csrList = s.csrList) ∨
    (b = true ∧ ∃ st o x, fcnt.obj.get .st = some st ∧ FcinObject e fcnt st isCreate s.riCount o ∧
      createRtnode s.nextId o .fcin = some x ∧
      s'.tree = s.tree.graft (RTNode.hasId fcnt.id) (insertChild { x with uri := fcnt.uri ++ '/' :: x.rn }) ∧
      s'.nextId = s.nextId + 1 ∧ s'.csrList = s.csrList ∧
      InstanceRow s.db (resourceIdentifier .fcin e.now s.riCount).1 (fcnt.uri ++ '/' :: x.rn) s'.db) := by
  unfold Server.addFlexcontainerInstance at h
  split at h
  · cases h
    exact .inl ⟨rfl, rfl, rfl, rfl, rfl⟩
  · split at h
    · cases h
      exact .inl ⟨rfl, rfl, rfl, rfl, rfl⟩
    · rename_i st hst
      simp only [Option.bind_eq_bind] at h
      obtain ⟨⟨o, n⟩, hgen, h⟩ := Option.bind_eq_some_iff.mp h
      obtain ⟨pi, hpi, hget⟩ := addGeneralAttribute_some hgen
      dsimp only at h
      obtain ⟨rn, hrn, h⟩ := Option.bind_eq_some_iff.mp h
      have hgot : ∀ k, k ≠ .et → k ≠ .lt → Obj.get (fcinExpiry e.later fcnt.obj (o.del .lt)) k = o.get k :=
        fun k h1 h2 => (get_fcinExpiry h1).trans (Assoc.get_del_ne (Ne.symm h2))
      have hobj : FcinObject e fcnt st isCreate s.riCount (fcinExpiry e.later fcnt.obj (o.del .lt)) := by
        refine ⟨?_, ⟨pi, hpi, ?_⟩, Obj.str_of_get ?_, ?_, ?_, ?_, ?_⟩
        · rw [hgot .ri (by decide) (by decide), hget, get_buildFcin rfl (by decide)]
          rfl
        · rw [hgot .pi (by decide) (by decide), hget, get_buildFcin rfl (by decide)]
          rfl
        · rw [hgot .rn (by decide) (by decide), hget, get_rn_buildFcin]
          rfl
        · rw [hgot .ty (by decide) (by decide), hget, get_buildFcin rfl (by decide)]
          rfl
        · rw [hgot .st (by decide) (by decide), hget, get_buildFcin rfl (by decide)]
          rfl
        · rw [hgot .cs (by decide) (by decide), hget, get_buildFcin rfl (by decide)]
          rfl
        · have htouch : Assoc.Touches [.ty, .ct, .ri, .rn, .lt, .pi, .et] (buildFcin req.fr fcnt st.valueint isCreate)
              (fcinExpiry e.later fcnt.obj (o.del .lt)) :=
            ((touches_addGeneralAttribute hgen).trans (.del o (by simp))).trans ((touches_fcinExpiry _ _ _).mono (by simp))
          exact (customAttributes_of_touches htouch (by decide)).trans (customAttributes_buildFcin ..)
      generalize fcinExpiry e.later fcnt.obj (o.del .lt) = o₁ at h hrn hobj
      obtain rfl : rn = fcnt.rn ++ '_' :: Decimal.ofInt st.valueint := Option.some.inj (hrn.symm.trans hobj.rn)
      have hcol : ∀ k, k ∈ columns .fcin → Obj.get (inColumns .fcin o₁) k = o₁.get k := by
        intro k hk
        unfold inColumns
        rw [Obj.get, Assoc.get_filterKeys, if_pos (List.any_eq_true.mpr ⟨k, hk, decide_eq_true rfl⟩)]
      have hok : s.db.dbStoreResource (inColumns .fcin o₁) (fcnt.uri ++ '/' :: (fcnt.rn ++ '_' :: Decimal.ofInt st.valueint)) =
          some (s.db ++ [⟨fcnt.uri ++ '/' :: (fcnt.rn ++ '_' :: Decimal.ofInt st.valueint), .fcin,
            Assoc.drop (Assoc.overlay column (inColumns .fcin o₁) []) .uri⟩]) :=
        (Db.dbStoreResource_code (by decide) ((hcol .ty (by decide)).trans hobj.ty)).mpr rfl
      rw [hok] at h
      dsimp only at h
      obtain ⟨x, hx, h⟩ := Option.bind_eq_some_iff.mp h
      obtain ⟨-, hxty, hxrn, -, -, -, -, hattr, -⟩ := createRtnode_some hx
      obtain ⟨ri, hxri, h⟩ := Option.bind_eq_some_iff.mp h
      have hrieq : ri = (resourceIdentifier .fcin e.now s.riCount).1 := by
        have : x.obj.get .ri = some (.str (resourceIdentifier .fcin e.now s.riCount).1) := (hattr .ri (by decide)).trans hobj.ri
        rw [RTNode.ri, Obj.str_of_get this] at hxri
        exact (Option.some.inj hxri).symm
      have hrnx : x.rn = fcnt.rn ++ '_' :: Decimal.ofInt st.valueint := Option.some.inj (hxrn.symm.trans hrn)
      rw [Server.addChildResourceTree_plain (by rw [hxty]; decide) (by rw [hxty]; decide)] at h
      cases h
      refine .inr ⟨rfl, st, o₁, x, hst, hobj, hx, rfl, rfl, rfl, ?_⟩
      rw [hrnx]
      refine ⟨⟨_, _, Assoc.drop (Assoc.overlay column (inColumns .fcin o₁) []) .uri⟩, ?_, rfl, rfl, ?_⟩
      · refine Obj.str_of_get ((Db.get_stored _ (by decide)).trans ?_)
        rw [hcol .ri (by decide), hobj.ri]
        exact (Option.bind_some ..).trans (column_str (resourceIdentifier_ne_nil _ _ _))
      · subst hrieq
        dsimp only
        split
        · exact .inl rfl
        · exact .inr ⟨_, _, rfl⟩

/-- The node of the instance. -/
theorem addFlexcontainerInstance_some {e : FcntEnv} {req : Req} {s s' : Server} {fcnt : RTNode} {isCreate b : Bool}
    (h : s.addFlexcontainerInstance e req fcnt isCreate = some (s', b)) :
    (b = false ∧ s'.tree = s.tree ∧ s'.db = s.db ∧ s'.nextId = s.nextId ∧ s'.csrList = s.csrList) ∨
    (b = true ∧ ∃ st x, fcnt.obj.get .st = some st ∧ x.id = s.nextId ∧ x.ty = .fcin ∧ x.subs = [] ∧
      x.uri = fcnt.uri ++ '/' :: x.rn ∧ x.rn = fcnt.rn ++ '_' :: Decimal.ofInt st.valueint ∧
      x.obj.get .ri = some (.str (resourceIdentifier .fcin e.now s.riCount).1) ∧
      x.obj.get .st = some (.int (if isCreate then 0 else st.valueint)) ∧
      x.obj.get .cs = some (.int ((fcnt.obj.num .cs).getD 0)) ∧
      s'.tree = s.tree.graft (RTNode.hasId fcnt.id) (insertChild x) ∧ s'.nextId = s.nextId + 1 ∧
      s'.csrList = s.csrList ∧
      InstanceRow s.db (resourceIdentifier .fcin e.now s.riCount).1 x.uri s'.db) := by
  rcases addFlexcontainerInstance_object h with hnone | ⟨hb, st, o, x, hst, hobj, hx, ht, hn, hl, hrow⟩
  · exact .inl hnone
  · obtain ⟨hid, hty, hrn, -, -, hsubs, -, hattr, -⟩ := createRtnode_some hx
    exact .inr ⟨hb, st, { x with uri := fcnt.uri ++ '/' :: x.rn }, hst, hid, hty, hsubs, rfl, Option.some.inj (hrn.symm.trans hobj.rn),
      (hattr .ri (by decide)).trans hobj.ri, (hattr .st (by decide)).trans hobj.st, (hattr .cs (by decide)).trans hobj.cs,
      ht, hn, hl, hrow⟩

/-! ## The part about `fcied` -/

/-- What the part of `update_fcnt` about `fcied` does: it may assign the object or add an instance, and then it
removes instances. -/
theorem applyFcied_some {e : FcntEnv} {req : Req} {s s' : Server} {target : RTNode} {obj body body' : Obj}
    {content needs : Bool} (hs : s.NodupIds)
    (h : s.applyFcied e req target body content = some (.ok (s', obj, body', needs))) :
    Assoc.Touches fciedAttrs target.obj obj ∧ Assoc.Touches fciedAttrs body body' ∧
      ((s.setObj target.id obj).Removes target.id s' ∨ (obj = target.obj ∧ s.Removes target.id s') ∨
        (obj = target.obj ∧ ∃ s₁ b, s.addFlexcontainerInstance e req target false = some (s₁, b) ∧ s₁.Removes target.id s')) := by
  have hcount : Assoc.Touches fciedAttrs body ((body.add .cni (.int 1)).add .cbs (.int (csFinal target.obj body))) :=
    (Assoc.Touches.add body _ (by simp [fciedAttrs])).trans (.add _ _ (by simp [fciedAttrs]))
  unfold Server.applyFcied at h
  split at h
  · cases h
    exact ⟨touches_dels fciedAttrs target.obj, (touches_addNulls _ body).mono (by simp [fciedAttrs]),
      .inl (Server.removes_cleanupFcntInstances _ _ _)⟩
  · split at h
    · split at h
      · simp only [Option.bind_eq_bind] at h
        split at h
        · obtain ⟨⟨s₁, b⟩, h₁, h⟩ := Option.bind_eq_some_iff.mp h
          cases h
          exact ⟨.refl _ _, hcount, .inr (.inr ⟨rfl, s₁, b, h₁, Server.removes_cleanupFcntInstances _ _ _⟩)⟩
        · cases h
          exact ⟨.refl _ _, hcount, .inr (.inl ⟨rfl, Server.removes_cleanupFcntInstances _ _ _⟩)⟩
      · cases h
        exact ⟨.refl _ _, .refl _ _, .inr (.inl ⟨rfl, .refl _ _⟩)⟩
    · split at h
      · dsimp only at h
        split at h
        · cases h
        · cases h
          exact ⟨.refl _ _, ((touches_countInstance _ _ _).mono (by simp [fciedAttrs])).trans
            ((touches_evictToLimits _ _ _ _).mono (by simp [fciedAttrs])), .inr (.inl ⟨rfl, Server.removes_evictToLimits hs _ _⟩)⟩
      · cases h
        exact ⟨.refl _ _, .refl _ _, .inr (.inl ⟨rfl, .refl _ _⟩)⟩

theorem applyFcied_error {e : FcntEnv} {req : Req} {s : Server} {target : RTNode} {body : Obj} {content : Bool} {r : Resp}
    (h : s.applyFcied e req target body content = some (.error r)) : r.rsc ≠ .updated := by
  unfold Server.applyFcied at h
  split at h
  · cases h
  · split at h
    · split at h
      · simp only [Option.bind_eq_bind] at h
        split at h
        · obtain ⟨x, -, h⟩ := Option.bind_eq_some_iff.mp h
          cases h
        · cases h
      · cases h
    · split at h
      · dsimp only at h
        split at h
        · cases h
          decide
        · cases h
      · cases h

end TinyIoT
