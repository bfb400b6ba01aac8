/-
Deletion as a run of elementary changes: a DELETE request and the removal of an expired resource take nodes and rows
away and change counters, memberships and lists of others, and leave the attributes alone by which resources are
identified.
-/
import TinyIoT.Requests.Edits
import TinyIoT.Server.Dispatch

namespace TinyIoT

variable {K : List Attr} {s s' : Server} {now : CStr}

/-! ## Writing back -/

/-- What a deletion changes in an object is not among them. -/
theorem Stamps.spared (hK : Stamps K) {o o' : Obj} (h : SparedObj o o') : SameOn K o o' :=
  .of_spared h fun k hk hdel => hK.apart k hk (List.mem_append_left _ (List.mem_append_left _ hdel))

/-- Columns of this kind are not among them. -/
theorem Stamps.columns (hK : Stamps K) {l : Obj} (ri : CStr)
    (hl : ∀ e ∈ l, e.1 ∈ .mid :: deletionAttrs ++ rewritten ++ [.uri, .memberOf, .at, .aa, customColumn]) :
    Edit K s { s with db := s.db.dbUpdateResource l ri } :=
  .columns ri fun k hk => Assoc.get_eq_none_iff.mpr fun hmem => by
    obtain ⟨e, he, rfl⟩ := List.mem_map.mp hmem
    exact hK.apart _ hk (hl e he)

namespace Server

theorem edits_assign (hs : s.Sane) {p : Ptr} {n : RTNode} {o : Obj} (hp : p.deref s = some n) (ho : SameOn K n.obj o) :
    Edits K s 0 [] (s.assign p o) := by
  unfold assign
  split
  · rename_i i
    obtain ⟨hn, hi⟩ := node?_mem hp
    refine .of_edit (.obj i fun m hm hmi => ?_)
    rw [hs.ids.eq hm hn (hmi.trans hi.symm)]
    exact ho
  · exact .refl

/-- The object of a node is assigned and written to its row. -/
theorem edits_persist (hK : Stamps K) (hs : s.Sane) {p : Ptr} {n : RTNode} {o : Obj} (hp : p.deref s = some n)
    (hok : p.Ok s.db) (ho : SameOn K n.obj o) : Edits K s 0 [] (s.persist p o) := by
  have hassign := edits_assign hs hp ho
  have hri : o.str .ri = n.ri := Obj.str_congr (ho .ri hK.ri)
  unfold persist
  dsimp only
  split
  · exact hassign
  · rename_i ri hori
    refine hassign.edit ?_
    cases p with
    | null => cases hp
    | inTree i =>
      obtain ⟨hn, hi⟩ := node?_mem hp
      have hmem : { n with obj := o } ∈ (s.assign (.inTree i) o).tree.nodes := by
        show _ ∈ (s.setObj i o).tree.nodes
        rw [setObj, nodes_modifyNode]
        exact List.mem_map.mpr ⟨n, hn, if_pos hi⟩
      exact .write hmem hori fun _ _ => .inr rfl
    | loose m q =>
      cases hp
      obtain ⟨⟨r, hr, -, -, -, hattr, -⟩, -⟩ := hok
      have hout : ∀ k ∈ K, k ∉ rewritten := fun k hk h =>
        hK.apart k hk (List.mem_append_left _ (List.mem_append_right _ h))
      have hsame : SameOn K r.obj n.obj := fun k hk => hattr k (hout k hk)
      exact .rewrite hr ((Obj.str_congr (hsame .ri hK.ri)).symm.trans (hri.symm.trans hori)) (hsame.trans ho)

theorem edits_rows (n : RTNode) : Edits K s 0 [] { s with db := s.db.dbDeleteOnem2mResource n } := by
  unfold Db.dbDeleteOnem2mResource
  split
  · exact .of_edit (.aside rfl rfl le_rfl rfl)
  · exact .of_edit (.cut _)

theorem edits_freePtr (p : Ptr) : Edits K s 0 [] (s.freePtr p) :=
  .of_edit (.prune (spares_freePtr s p) (by unfold freePtr; split <;> rfl) (by unfold freePtr; split <;> rfl))

/-! ## What `delete_process` does -/

theorem edits_dropCnt (hK : Stamps K) (hs : s.Sane) {cnt : Ptr} {cin : Obj} (hok : cnt.Ok s.db)
    (h : s.dropCnt cnt cin = some s') : Edits K s 0 [] s' := by
  unfold dropCnt at h
  split at h
  · cases h; exact .refl
  · rename_i n hn
    obtain ⟨o, ho, rfl⟩ := Option.map_eq_some_iff.mp h
    refine edits_persist hK hs hn hok (hK.spared ?_)
    unfold bumpCnt at ho
    simp only [Option.bind_eq_bind, Option.bind_eq_some_iff, Option.pure_def, Option.some.injEq] at ho
    obtain ⟨cni, -, cbs, -, st, -, cs, -, rfl⟩ := ho
    exact ((SparedObj.set _ _ (by decide)).trans (.set _ _ (by decide))).trans (.set _ _ (by decide))

theorem edits_adjustFcnt (hK : Stamps K) (hs : s.Sane) {p : Ptr} (hok : p.Ok s.db) (o : Obj) (sign : Int) :
    Edits K s 0 [] (s.adjustFcnt p o sign) := by
  unfold adjustFcnt
  split
  · exact .refl
  · rename_i n hn
    split
    · exact .refl
    · rename_i o' ho
      refine edits_persist hK hs hn hok (hK.spared ?_)
      unfold updateFcntFcin at ho
      simp only [Option.bind_eq_bind, Option.bind_eq_some_iff, Option.pure_def, Option.some.injEq] at ho
      obtain ⟨cni, -, cbs, -, cs, -, rfl⟩ := ho
      exact (SparedObj.set _ _ (by decide)).trans (.set _ _ (by decide))

/-! ## The lookup of a resource -/

theorem edits_expire (hK : Stamps K) (hs : s.Sane) {p : Ptr} {n : RTNode} (hok : (p.parent s).Ok s.db) :
    Edits K s 0 [] (s.expire p n) := by
  unfold expire
  dsimp only
  split
  · exact ((edits_adjustFcnt hK hs hok _ _).trans_nil (edits_rows n)).trans_nil (edits_freePtr p)
  · exact (edits_rows n).trans_nil (edits_freePtr p)

theorem resolve_parent (addr : CStr) : ((s.resolve addr).parent s).Ok s.db :=
  Ptr.parent_ok fun _ _ h => resolve_parent_ok h

/-- The lookup of a target. -/
theorem edits_findRtnode (hK : Stamps K) (hs : s.Sane) (addr : CStr) : Edits K s 0 [] (s.findRtnode now addr).1 := by
  rcases findRtnode_cases (s := s) now addr with h | ⟨n, -, -, h⟩ | ⟨n, -, -, -, h⟩
  · rw [h]
    exact .refl
  · rw [h]
    exact .refl
  · rw [h]
    exact edits_expire hK hs (resolve_parent addr)

/-- The lookups on the way. -/
theorem edits_looksUp (hK : Stamps K) (hs : s.Sane) (h : LooksUp now s s') : Edits K s 0 [] s' := by
  induction h with
  | refl => exact .refl
  | tail _ hstep ih =>
    obtain ⟨addr, rfl⟩ := hstep
    exact ih.trans_nil (edits_findRtnode hK (ih.sane hs) addr)

/-! ## What goes with a resource -/

theorem edits_detachSubs (i j : Nat) : Edits K s 0 [] (s.detachSubs i j) := .of_edit (.prune (spares_detachSubs s i j) rfl rfl)

theorem edits_dropDcse (hs : s.Sane) (csi : CStr) : Edits K s 0 [] (s.dropDcse csi) := by
  refine .of_edit (.prune (spares_dropDcse hs.ids csi) ?_ ?_)
  all_goals
    unfold dropDcse
    split
    · rfl
    · split <;> rfl

theorem edits_setMemberOf (p : Ptr) (l : List CStr) : Edits K s 0 [] (s.setMemberOf p l) := by
  unfold setMemberOf
  split
  · exact .of_edit (.links _ fun n => ⟨rfl, rfl, rfl, rfl⟩)
  · exact .refl

/-- The list of groups of a resource in its row. -/
theorem edits_memberRow (hK : Stamps K) (v : Json) (ri : CStr) :
    Edits K s 0 [] { s with db := s.db.dbUpdateResource [(.memberOf, v)] ri } :=
  .of_edit (hK.columns ri (by simp))

theorem edits_dropMembership (hK : Stamps K) (hs : s.Sane) (grpUri : CStr) (mid : Json) :
    Edits K s 0 [] (dropMembership now grpUri s mid) := by
  unfold dropMembership
  split
  · exact .refl
  · rename_i addr _
    have hfind : Edits K s 0 [] (s.findRtnode now addr).1 := edits_findRtnode hK hs addr
    refine hfind.trans_nil ?_
    dsimp only
    split
    · exact .refl
    · split
      · exact edits_setMemberOf _ _
      · exact (edits_setMemberOf _ _).trans_nil (edits_memberRow hK _ _)

theorem edits_leaveGroup (hK : Stamps K) (hs : s.Sane) (ri grpUri : CStr) :
    Edits K s 0 [] (leaveGroup now ri s grpUri) := by
  unfold leaveGroup
  have hfind : Edits K s 0 [] (s.findRtnode now grpUri).1 := edits_findRtnode hK hs grpUri
  refine hfind.trans_nil ?_
  dsimp only
  split
  · exact .refl
  · rename_i grp hgrp
    exact edits_persist hK (hfind.sane hs) hgrp (findRtnode_ok _ _ _) (hK.spared (.dropMember ri _))

theorem edits_leaveGroups (hK : Stamps K) (hs : s.Sane) (n : RTNode) : Edits K s 0 [] (s.leaveGroups now n) := by
  unfold leaveGroups
  split
  · exact .refl
  · exact .foldl (fun s g hs => edits_leaveGroup hK hs _ g) _ hs

theorem edits_dropTsi (hK : Stamps K) (hs : s.Sane) {parent : Ptr} (hok : parent.Ok s.db) (tsi : Obj) :
    Edits K s 0 [] (s.dropTsi now parent tsi) := by
  unfold dropTsi
  split
  · exact .refl
  · rename_i p hp
    split
    · exact .refl
    · refine edits_persist hK hs hp hok (hK.spared ?_)
      exact ((SparedObj.putNum _ _ (by decide)).trans (.putNum _ _ (by decide))).trans (.putStr _ _ (by decide))

theorem edits_incrementParentStatetag (hK : Stamps K) (hs : s.Sane) (parent : Ptr) :
    Edits K s 0 [] (s.incrementParentStatetag now parent) := by
  unfold incrementParentStatetag
  split
  · exact .refl
  · rename_i p hp
    split
    · exact .refl
    · split
      · split
        · have ha : Edits K s 0 [] _ := edits_assign hs hp (hK.spared
            (SparedObj.set p.obj (k := .st) (Json.int (cInt (Json.valueint ‹_› + 1))) (by decide)))
          dsimp only
          split
          · exact ha
          · exact ha.edit (hK.columns _ (by simp [deletionAttrs]))
        · exact .refl
      · exact .refl

theorem edits_removeSub (hK : Stamps K) (hs : s.Sane) (sub : RTNode) : Edits K s 0 [] (s.removeSub now sub) := by
  have hrest {s : Server} (hs : s.Sane) :
      Edits K s 0 [] ({ s.leaveGroups now sub with
        db := (s.leaveGroups now sub).db.dbDeleteOnem2mResource sub }.freeRtnode sub.id) :=
    ((edits_leaveGroups hK hs sub).trans_nil (edits_rows sub)).edit (.prune (spares_freeRtnode _ _) rfl rfl)
  unfold removeSub
  dsimp only
  split
  · exact hrest hs
  · have hd : Edits K s 0 [] _ := edits_detachSubs ‹Nat› sub.id
    exact hd.trans_nil (hrest (hd.sane hs))

theorem edits_notifySub (hK : Stamps K) (hs : s.Sane) (req : Req) (target : ResourceType) (net : Int) (i : Nat) :
    Edits K s 0 [] (notifySub now req target net s i) := by
  unfold notifySub
  split
  · exact .refl
  · rename_i sub hsub
    split
    · exact .refl
    · split
      · exact .refl
      · dsimp only
        have hexc : SameOn K sub.obj (sub.obj.set .exc (Json.setIntValue ‹_› (Json.valueint ‹_› - 1))) :=
          hK.spared (.set _ _ (by decide))
        split
        · have h₁ : Edits K s 0 [] _ := edits_assign (p := .inTree i) hs hsub hexc
          exact h₁.trans_nil (edits_removeSub hK (h₁.sane hs) sub)
        · exact edits_persist hK hs hsub trivial hexc

theorem edits_notifyDelete (hK : Stamps K) (hs : s.Sane) (req : Req) (p : Ptr) (n : RTNode) :
    Edits K s 0 [] (notifyDelete now req s p n) := by
  unfold notifyDelete
  split
  · exact .refl
  · split
    · exact .refl
    · split
      · exact .foldl (fun s i hs => edits_notifySub hK hs req _ 4 i) _ hs
      · exact .refl

theorem edits_deleteSwitch (hK : Stamps K) (hs : s.Sane) {p : Ptr} {n : RTNode} (hok : (p.parent s).Ok s.db)
    (h : s.deleteSwitch now p n = some s') : Edits K s 0 [] s' := by
  unfold deleteSwitch at h
  split at h
  · exact edits_dropCnt hK hs hok h
  · cases h; exact edits_adjustFcnt hK hs hok _ _
  · split at h
    · cases h; exact edits_detachSubs _ _
    · cases h; exact .refl
  · simp only [Option.bind_eq_bind, Option.bind_eq_some_iff] at h
    obtain ⟨csi, -, h⟩ := h
    split at h
    · cases h
      exact (edits_dropDcse hs csi).edit (.aside rfl rfl le_rfl rfl)
    · cases h
      exact edits_dropDcse hs csi
  · cases h
    exact .foldl (fun s j hs => edits_dropMembership hK hs _ j) _ hs
  · cases h; exact edits_dropTsi hK hs hok _
  · cases h; exact .refl

theorem edits_deleteOne (hK : Stamps K) (hs : s.Sane) {req : Req} {p : Ptr} (hok : (p.parent s).Ok s.db)
    (h : s.deleteOne now req p = some s') : Edits K s 0 [] s' := by
  unfold deleteOne at h
  split at h
  · cases h; exact .refl
  · rename_i n hn
    simp only [Option.bind_eq_bind, Option.bind_eq_some_iff] at h
    obtain ⟨s₁, h₁, h⟩ := h
    have hs₁ : Edits K s 0 [] s₁ := edits_deleteSwitch hK hs hok h₁
    have hs₂ : Edits K s 0 [] (s₁.leaveGroups now n) := hs₁.trans_nil (edits_leaveGroups hK (hs₁.sane hs) n)
    have hs₃ : Edits K s 0 [] ((s₁.leaveGroups now n).notifyDelete now req p n) :=
      hs₂.trans_nil (edits_notifyDelete hK (hs₂.sane hs) req p n)
    split at h
    · cases h
      exact hs₃.trans_nil (edits_incrementParentStatetag hK (hs₃.sane hs) _)
    · cases h
      exact hs₃

theorem edits_deleteProcess (hK : Stamps K) (hs : s.Sane) {req : Req} {p : Ptr} (hok : (p.parent s).Ok s.db)
    (h : s.deleteProcess now req p = some s') : Edits K s 0 [] s' := by
  have htree : ∀ (l : List Ptr) (s : Server), (∀ q ∈ l, ∃ i, q = .inTree i) → s.Sane →
      l.foldlM (fun s q => s.deleteOne now req q) s = some s' → Edits K s 0 [] s' := by
    intro l
    induction l with
    | nil => rintro s - - ⟨⟩; exact .refl
    | cons q l ih =>
      intro s hl hs h
      rw [List.foldlM_cons, Option.bind_eq_bind, Option.bind_eq_some_iff] at h
      obtain ⟨s₁, h₁, h⟩ := h
      obtain ⟨i, rfl⟩ := hl q List.mem_cons_self
      have hq : Edits K s 0 [] s₁ := edits_deleteOne hK hs (Ptr.parent_ok fun m q he => by cases he) h₁
      exact hq.trans_nil (ih s₁ (fun q hq => hl q (List.mem_cons_of_mem _ hq)) (hq.sane hs) h)
  unfold deleteProcess at h
  cases p with
  | inTree i =>
    refine htree _ s (fun q hq => ?_) hs h
    rcases List.mem_append.mp hq with hq | hq
    · obtain ⟨n, -, rfl⟩ := List.mem_map.mp hq
      exact ⟨n.id, rfl⟩
    · exact ⟨i, List.mem_singleton.mp hq⟩
  | null =>
    rw [deleteOrder, List.foldlM_cons, Option.bind_eq_bind, Option.bind_eq_some_iff] at h
    · obtain ⟨s₁, h₁, h⟩ := h
      cases h
      exact edits_deleteOne hK hs hok h₁
    · exact fun _ h => by cases h
  | loose m q =>
    rw [deleteOrder, List.foldlM_cons, Option.bind_eq_bind, Option.bind_eq_some_iff] at h
    · obtain ⟨s₁, h₁, h⟩ := h
      cases h
      exact edits_deleteOne hK hs hok h₁
    · exact fun _ h => by cases h

/-! ## A DELETE request and an expired resource -/

theorem edits_freeFcin (p : Ptr) (n : RTNode) (rvi : Int) : Edits K s 0 [] (s.freeFcin p n rvi) := by
  have hfree : ∀ s : Server, (s.freePtr p).db = s.db ∧ (s.freePtr p).riCount = s.riCount := fun s => by
    unfold freePtr
    split <;> exact ⟨rfl, rfl⟩
  have hboth : (s.freeFcin p n rvi).db = s.db ∧ (s.freeFcin p n rvi).riCount = s.riCount := by
    unfold freeFcin
    split
    · exact hfree s
    · rw [(hfree _).1, (hfree _).2]
      dsimp only
      split
      · split <;> exact ⟨rfl, rfl⟩
      · exact ⟨rfl, rfl⟩
  exact .of_edit (.prune (spares_freeFcin s p n rvi) hboth.1 hboth.2)

/-- The cached latest instance takes over the row of the next latest. -/
theorem edits_freeCin (hK : Stamps K) {p : Ptr} {n : RTNode} (hty : ∀ m ∈ s.tree.nodes, p = .inTree m.id → m.ty = .cin) :
    Edits K s 0 [] (s.freeCin p n) := by
  unfold freeCin
  split
  · split
    · rename_i i cnt hcnt
      split
      · exact .of_edit (.prune (spares_freeRtnode s i) rfl rfl)
      · rename_i o ho
        obtain ⟨r, hr, -, rfl⟩ := laol_row ho
        by_cases hi : ∃ m ∈ s.tree.nodes, m.id = i
        · obtain ⟨m, hm, rfl⟩ := hi
          refine .of_edit (.cache hm (hty m hm rfl) hr (.inl fun k hk => get_load ?_))
          rintro rfl
          exact hK.apart _ hk (by decide)
        · exact .of_edit (.obj i fun m hm hmi => absurd ⟨m, hm, hmi⟩ hi)
    · exact edits_freePtr _
  · exact edits_freePtr _

theorem edits_deleteOnem2mResource (hK : Stamps K) (hs : s.Sane) {req : Req} {p : Ptr} {r : Resp}
    (hok : (p.parent s).Ok s.db) (h : s.deleteOnem2mResource now req p = some (s', r)) : Edits K s 0 [] s' := by
  unfold deleteOnem2mResource at h
  split at h
  · cases h
  · rename_i n hn
    split at h
    · cases h
      exact .refl
    · simp only [Option.bind_eq_bind, Option.bind_eq_some_iff, Option.pure_def, Option.some.injEq, Prod.mk.injEq] at h
      obtain ⟨s₁, h₁, rfl, -⟩ := h
      have hrows : Edits K s 0 [] { s₁ with db := s₁.db.dbDeleteOnem2mResource n } :=
        (edits_deleteProcess hK hs hok h₁).trans_nil (edits_rows n)
      refine hrows.trans_nil ?_
      split
      · rename_i hcin
        refine edits_freeCin hK fun m hm hp => ?_
        subst hp
        -- the node is the target as the deletion left it
        obtain ⟨m₀, hm₀, hspared⟩ := (spares_deleteProcess hs.ids h₁).tree.mem hm
        obtain ⟨hnm, hni⟩ := node?_mem hn
        rw [hspared.ty, hs.ids.eq hm₀ hnm (hspared.id.trans hni.symm)]
        exact hcin
      · exact edits_freeFcin _ n _
      · exact edits_freePtr _

/-- A DELETE request. -/
theorem edits_requestDelete (hK : Stamps K) (hs : s.Sane) {req : Req} {r : Resp}
    (h : s.requestDelete now req = some (s', r)) : Edits K s 0 [] s' := by
  unfold requestDelete at h
  dsimp only at h
  rcases findRtnode_cases (s := s) now req.target with hf | ⟨n, -, -, hf⟩ | ⟨n, -, -, -, hf⟩
  · rw [hf] at h
    cases h
    exact .refl
  · rw [hf] at h
    dsimp only at h
    split at h
    · cases h
      exact .refl
    · exact edits_deleteOnem2mResource hK hs (resolve_parent _) h
  · rw [hf] at h
    cases h
    exact edits_expire hK hs (resolve_parent _)

end Server

end TinyIoT
