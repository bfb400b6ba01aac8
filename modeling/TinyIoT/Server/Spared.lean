/-
What a deletion leaves (`delete_onem2m_resource`): nodes are gone, those that are left have lost entries
of their subscription and `memberOf` lists, and their objects differ at most in the counters, the state
tag, the time of modification, the list of CSEs, the expiration counter and the members. The object of a
content instance that is kept as the latest one is another matter, so the last result is about deletions
of anything else.
-/
import TinyIoT.Lib.Prune
import TinyIoT.Server.Delete
import TinyIoT.Server.Tree

namespace TinyIoT

/-! ## What is left of a node -/

/-- The attributes a deletion writes on the resources that stay, besides the members of a group. -/
def deletionAttrs : List Attr := [.cni, .cbs, .st, .lt, .dcse, .exc, .cnm]

/-- The other attributes are kept, and a group has no new member. -/
structure SparedObj (o o' : Obj) : Prop where
  attrs : ∀ k ∉ .mid :: deletionAttrs, Assoc.entries o' k = Assoc.entries o k
  members : ∀ v l', o'.get .mid = some (.arr l') → l'.any (Json.isStr v) = true →
    ∃ l, o.get .mid = some (.arr l) ∧ l.any (Json.isStr v) = true
  otherwise : ∀ j, o'.get .mid = some j → j.isArray = false → o.get .mid = some j

/-- The same node after a deletion of others. -/
structure Spared (n n' : RTNode) : Prop where
  id : n.id = n'.id
  ty : n'.ty = n.ty
  rn : n'.rn = n.rn
  uri : n'.uri = n.uri
  subs : n'.subs.Sublist n.subs
  memberOf : n'.memberOf.Sublist n.memberOf
  obj : SparedObj n.obj n'.obj

namespace SparedObj

variable {o o' o'' : Obj}

theorem refl (o : Obj) : SparedObj o o := ⟨fun _ _ => rfl, fun _ l' h hv => ⟨l', h, hv⟩, fun _ h _ => h⟩

theorem trans (h : SparedObj o o') (h' : SparedObj o' o'') : SparedObj o o'' := by
  refine ⟨fun k hk => (h'.attrs k hk).trans (h.attrs k hk), fun v l' hl hv => ?_,
    fun j hj ha => h.otherwise j (h'.otherwise j hj ha) ha⟩
  obtain ⟨l, hl, hv⟩ := h'.members v l' hl hv
  exact h.members v l hl hv

/-- An object that differs in other attributes only. -/
theorem of_entries {k : Attr} (hk : k ∈ deletionAttrs) (h : ∀ k', k ≠ k' → Assoc.entries o' k' = Assoc.entries o k') :
    SparedObj o o' := by
  have hmid : k ≠ .mid := by
    rintro rfl
    exact absurd hk (by decide)
  have hget : o'.get .mid = o.get .mid := Assoc.get_congr (h .mid hmid)
  refine ⟨fun k' hk' => h k' fun he => hk' (List.mem_cons_of_mem _ (he ▸ hk)), fun v l' hl hv => ⟨l', ?_, hv⟩,
    fun j hj _ => hget ▸ hj⟩
  rwa [hget] at hl

theorem set (o : Obj) {k : Attr} (v : Json) (hk : k ∈ deletionAttrs) : SparedObj o (o.set k v) :=
  of_entries hk fun _ h => Assoc.entries_set_ne h

theorem add (o : Obj) {k : Attr} (v : Json) (hk : k ∈ deletionAttrs) : SparedObj o (o.add k v) :=
  of_entries hk fun _ h => Assoc.entries_add_ne h

theorem putNum (o : Obj) {k : Attr} (n : Int) (hk : k ∈ deletionAttrs) : SparedObj o (o.putNum k n) := by
  unfold Obj.putNum
  split
  · exact set _ _ hk
  · exact (of_entries hk fun _ h => Assoc.entries_del_ne h).trans (add _ _ hk)

theorem putStr (o : Obj) {k : Attr} (v : CStr) (hk : k ∈ deletionAttrs) : SparedObj o (o.putStr k v) := by
  unfold Obj.putStr
  split
  · exact set _ _ hk
  · exact add _ _ hk

/-- A group that loses a member. -/
theorem dropMember (ri : CStr) (o : Obj) : SparedObj o (dropMember ri o) := by
  unfold TinyIoT.dropMember
  split
  · rename_i mid hmid
    split
    · have hset : SparedObj o (o.set .mid (.arr (mid.eraseP (Json.isStr ri)))) := by
        refine ⟨fun k hk => Assoc.entries_set_ne ?_, fun v l' hl hv => ⟨mid, hmid, ?_⟩, fun j hj ha => ?_⟩
        · rintro rfl
          exact hk (by decide)
        · cases (Assoc.get_set_self hmid).symm.trans hl
          obtain ⟨j, hj, hjv⟩ := List.any_eq_true.mp hv
          exact List.any_eq_true.mpr ⟨j, List.mem_of_mem_eraseP hj, hjv⟩
        · cases (Assoc.get_set_self hmid).symm.trans hj
          cases ha
      dsimp only
      split
      · exact hset
      · exact hset.trans (.set _ _ (by decide))
    · exact .refl o
  · exact .refl o

/-- A name that a group lists was listed before. -/
theorem mem_mid (h : SparedObj o o') {v : CStr} (hv : .str v ∈ o'.arr .mid) : .str v ∈ o.arr .mid := by
  unfold Obj.arr at hv ⊢
  cases hj : o'.get .mid with
  | none =>
    rw [hj] at hv
    cases hv
  | some j =>
    rw [hj] at hv
    by_cases ha : j.isArray = true
    · cases j <;> cases ha
      rename_i l'
      obtain ⟨l, hl, hany⟩ := h.members v l' hj (List.any_eq_true.mpr ⟨_, hv, by simp [Json.isStr]⟩)
      rw [hl]
      obtain ⟨x, hx, hxv⟩ := List.any_eq_true.mp hany
      cases x with
      | str w =>
        obtain rfl : w = v := of_decide_eq_true hxv
        exact hx
      | _ => cases hxv
    · rw [h.otherwise j hj (by simpa using ha)]
      exact hv

end SparedObj

namespace Spared

theorem refl (n : RTNode) : Spared n n := ⟨rfl, rfl, rfl, rfl, List.Sublist.refl _, List.Sublist.refl _, .refl _⟩

theorem trans {n n' n'' : RTNode} (h : Spared n n') (h' : Spared n' n'') : Spared n n'' :=
  ⟨h.id.trans h'.id, h'.ty.trans h.ty, h'.rn.trans h.rn, h'.uri.trans h.uri, h'.subs.trans h.subs,
    h'.memberOf.trans h.memberOf, h.obj.trans h'.obj⟩

/-- Another object that is spared. -/
theorem setObj {n : RTNode} {o : Obj} (h : SparedObj n.obj o) : Spared n { n with obj := o } :=
  ⟨rfl, rfl, rfl, rfl, List.Sublist.refl _, List.Sublist.refl _, h⟩

end Spared

namespace Server

/-- Nodes are gone, and those left are spared. -/
structure Spares (s s' : Server) : Prop where
  tree : s.tree.Pruned Spared s'.tree
  nextId : s'.nextId = s.nextId

variable {s s' s'' : Server} {now : CStr}

theorem Spares.refl (s : Server) : s.Spares s := ⟨Forest.Pruned.refl Spared.refl _, rfl⟩

theorem Spares.of_tree (h : s'.tree = s.tree) (hn : s'.nextId = s.nextId) : s.Spares s' := by
  refine ⟨?_, hn⟩
  rw [h]
  exact (Spares.refl s).tree

theorem Spares.trans (h : s.Spares s') (h' : s'.Spares s'') : s.Spares s'' :=
  ⟨Forest.Pruned.trans Spared.trans h.tree h'.tree, h'.nextId.trans h.nextId⟩

theorem Spares.nodupIds (h : s.Spares s') (hs : s.NodupIds) : s'.NodupIds :=
  (Forest.Pruned.keys RTNode.id Spared.id h.tree).nodup hs

theorem spares_modifyNode {i : Nat} {f : RTNode → RTNode} (h : ∀ n ∈ s.tree.nodes, n.id = i → Spared n (f n)) :
    s.Spares (s.modifyNode i f) :=
  ⟨Forest.Pruned.modify Spared.refl _ fun n hn hi => h n hn (hasId_iff.mp hi), rfl⟩

theorem spares_freeRtnode (s : Server) (i : Nat) : s.Spares (s.freeRtnode i) :=
  ⟨Forest.Pruned.remove Spared.refl _ _, rfl⟩

theorem spares_freePtr (s : Server) (p : Ptr) : s.Spares (s.freePtr p) := by
  unfold freePtr
  split
  · exact spares_freeRtnode s _
  · exact .refl s

/-- An assignment to the object of the node a pointer reaches. -/
theorem spares_assign (hs : s.NodupIds) {p : Ptr} {n : RTNode} {o : Obj} (hp : p.deref s = some n)
    (ho : SparedObj n.obj o) : s.Spares (s.assign p o) := by
  unfold assign
  split
  · rename_i i
    obtain ⟨hn, hi⟩ := node?_mem hp
    refine spares_modifyNode fun m hm hmi => ?_
    cases hs.eq hm hn (hmi.trans hi.symm)
    exact .setObj ho
  · exact .refl s

theorem persist_tree_eq (s : Server) (p : Ptr) (o : Obj) : (s.persist p o).tree = (s.assign p o).tree := by
  unfold persist
  dsimp only
  split <;> rfl

theorem persist_nextId_eq (s : Server) (p : Ptr) (o : Obj) : (s.persist p o).nextId = (s.assign p o).nextId := by
  unfold persist
  dsimp only
  split <;> rfl

theorem spares_persist (hs : s.NodupIds) {p : Ptr} {n : RTNode} {o : Obj} (hp : p.deref s = some n)
    (ho : SparedObj n.obj o) : s.Spares (s.persist p o) := by
  have ha := spares_assign hs hp ho
  constructor
  · rw [persist_tree_eq]
    exact ha.tree
  · rw [persist_nextId_eq]
    exact ha.nextId

/-- A loop whose every step sheds. -/
theorem Spares.foldl {α : Type} {f : Server → α → Server} (hf : ∀ (s : Server) a, s.NodupIds → s.Spares (f s a)) (l : List α)
    (hs : s.NodupIds) : s.Spares (l.foldl f s) := by
  induction l generalizing s with
  | nil => exact .refl s
  | cons a l ih => exact (hf s a hs).trans (ih ((hf s a hs).nodupIds hs))

/-! ## What lookups on the way do to the nodes -/

/-- A node that differs at most in its counts. -/
def Recounted (n n' : RTNode) : Prop :=
  ∃ o, n' = { n with obj := o } ∧ ∀ k ∉ [Attr.cni, .cbs], Assoc.entries o k = Assoc.entries n.obj k

theorem Recounted.refl (n : RTNode) : Recounted n n := ⟨n.obj, rfl, fun _ _ => rfl⟩

theorem Recounted.trans {n n' n'' : RTNode} (h : Recounted n n') (h' : Recounted n' n'') : Recounted n n'' := by
  obtain ⟨o, rfl, ho⟩ := h
  obtain ⟨o', rfl, ho'⟩ := h'
  exact ⟨o', rfl, fun k hk => (ho' k hk).trans (ho k hk)⟩

theorem Recounted.spared {n n' : RTNode} (h : Recounted n n') : Spared n n' := by
  obtain ⟨o, rfl, ho⟩ := h
  have hmid : o.get .mid = n.obj.get .mid := Assoc.get_congr (ho .mid (by decide))
  refine .setObj ⟨fun k hk => ho k fun hc => hk ?_, fun v l hl hv => ⟨l, hmid ▸ hl, hv⟩, fun j hj _ => hmid ▸ hj⟩
  simp only [List.mem_cons, List.not_mem_nil, or_false] at hc
  rcases hc with rfl | rfl <;> decide

theorem recounts_adjustFcnt {p : Ptr} {o : Obj} {sign : Int} (hs : s.NodupIds) :
    s.tree.Pruned Recounted (s.adjustFcnt p o sign).tree := by
  unfold adjustFcnt
  split
  · exact .refl Recounted.refl _
  · rename_i n hn
    split
    · exact .refl Recounted.refl _
    · rename_i o' ho
      rw [persist_tree_eq]
      unfold assign
      split
      · obtain ⟨hmem, hi⟩ := node?_mem hn
        refine .modify Recounted.refl _ fun m hm hmi => ?_
        cases hs.eq hm hmem ((hasId_iff.mp hmi).trans hi.symm)
        refine ⟨o', rfl, fun k hk => ?_⟩
        simp only [List.mem_cons, List.not_mem_nil, or_false, not_or] at hk
        unfold updateFcntFcin at ho
        simp only [Option.bind_eq_bind, Option.bind_eq_some_iff, Option.pure_def, Option.some.injEq] at ho
        obtain ⟨cni, -, cbs, -, cs, -, rfl⟩ := ho
        exact (Assoc.entries_set_ne (Ne.symm hk.2)).trans (Assoc.entries_set_ne (Ne.symm hk.1))
      · exact .refl Recounted.refl _

theorem assign_nextId (s : Server) (p : Ptr) (o : Obj) : (s.assign p o).nextId = s.nextId := by
  unfold assign
  split <;> rfl

/-! ## What `delete_process` does to the nodes -/

theorem spares_dropCnt {cnt : Ptr} {cin : Obj} (hs : s.NodupIds) (h : s.dropCnt cnt cin = some s') : s.Spares s' := by
  unfold dropCnt at h
  split at h
  · cases h; exact .refl s
  · rename_i n hn
    obtain ⟨o, ho, rfl⟩ := Option.map_eq_some_iff.mp h
    refine spares_persist hs hn ?_
    unfold bumpCnt at ho
    simp only [Option.bind_eq_bind, Option.bind_eq_some_iff, Option.pure_def, Option.some.injEq] at ho
    obtain ⟨cni, -, cbs, -, st, -, cs, -, rfl⟩ := ho
    exact ((SparedObj.set _ _ (by decide)).trans (.set _ _ (by decide))).trans (.set _ _ (by decide))

theorem spares_adjustFcnt {p : Ptr} {o : Obj} {sign : Int} (hs : s.NodupIds) : s.Spares (s.adjustFcnt p o sign) := by
  refine ⟨(recounts_adjustFcnt hs).mono Recounted.spared, ?_⟩
  unfold adjustFcnt
  split
  · rfl
  · split
    · rfl
    · rw [persist_nextId_eq, assign_nextId]

/-- One lookup: what is expired goes, with all below it. -/
theorem recounts_findRtnode (hs : s.NodupIds) (addr : CStr) : s.tree.Pruned Recounted (s.findRtnode now addr).1.tree := by
  unfold findRtnode
  dsimp only
  split
  · exact .refl Recounted.refl _
  · split
    · unfold expire
      dsimp only
      have hfree (s : Server) (p : Ptr) : s.tree.Pruned Recounted (s.freePtr p).tree := by
        unfold freePtr
        split
        · exact .remove Recounted.refl _ _
        · exact .refl Recounted.refl _
      refine .trans Recounted.trans ?_ (hfree _ _)
      split
      · exact recounts_adjustFcnt hs
      · exact .refl Recounted.refl _
    · exact .refl Recounted.refl _

theorem spares_findRtnode (hs : s.NodupIds) (addr : CStr) : s.Spares (s.findRtnode now addr).1 := by
  refine ⟨(recounts_findRtnode hs addr).mono Recounted.spared, ?_⟩
  have hfree (s : Server) (p : Ptr) : (s.freePtr p).nextId = s.nextId := by
    unfold freePtr
    split <;> rfl
  unfold findRtnode
  dsimp only
  split
  · rfl
  · split
    · unfold expire
      rw [hfree]
      split
      · exact (spares_adjustFcnt hs).nextId
      · rfl
    · rfl

/-- The nodes that lookups on the way leave. -/
theorem LooksUp.spares (h : LooksUp now s s') (hs : s.NodupIds) : s.Spares s' := by
  induction h with
  | refl => exact .refl s
  | tail _ hstep ih =>
    obtain ⟨addr, rfl⟩ := hstep
    exact ih.trans (spares_findRtnode (ih.nodupIds hs) addr)

theorem LooksUp.recounts (h : LooksUp now s s') (hs : s.NodupIds) : s.tree.Pruned Recounted s'.tree := by
  induction h with
  | refl => exact .refl Recounted.refl _
  | tail hrun hstep ih =>
    obtain ⟨addr, rfl⟩ := hstep
    exact ih.trans Recounted.trans (recounts_findRtnode ((LooksUp.spares hrun hs).nodupIds hs) addr)

/-! ## What lookups on the way leave in the tree -/

/-- Neither the node at the address nor one above it is expired. -/
def Lasting (now : CStr) (s : Server) (i : Nat) : Prop :=
  ∀ e ∈ s.tree.cells, (e.1.id = i ∨ i ∈ e.2.nodes.map (·.id)) → isExpired now e.1 = false

instance (now : CStr) (s : Server) (i : Nat) : Decidable (s.Lasting now i) :=
  inferInstanceAs (Decidable (∀ e ∈ s.tree.cells, _ ∨ _ → _))

theorem Lasting.of_spares {i : Nat} (h : s.Lasting now i) (hsp : s.Spares s') : s'.Lasting now i := by
  rintro ⟨b, d⟩ he hi
  obtain ⟨a, c, hc, hab, hcd⟩ := hsp.tree.cell he
  have het : b.obj.str .et = a.obj.str .et := Obj.str_congr (Assoc.get_congr (hab.obj.attrs .et (by decide)))
  have hsame : isExpired now b = isExpired now a := by
    unfold isExpired
    rw [het]
  rw [hsame]
  refine h _ hc (hi.imp (fun hid => hab.id.trans hid) fun hmem => ?_)
  obtain ⟨m', hm', rfl⟩ := List.mem_map.mp hmem
  obtain ⟨m, hm, hr⟩ := hcd.mem hm'
  exact List.mem_map.mpr ⟨m, hm, hr.id⟩

/-- A lookup leaves a lasting node, but for its counts. -/
theorem node?_findRtnode {i : Nat} {n : RTNode} (hs : s.NodupIds) (h : s.Lasting now i) (hn : s.node? i = some n) (addr : CStr) :
    ∃ n', (s.findRtnode now addr).1.node? i = some n' ∧ Recounted n n' := by
  obtain ⟨hmem, rfl⟩ := node?_mem hn
  obtain ⟨c, hc⟩ := Forest.mem_nodes_iff.mp hmem
  unfold findRtnode
  dsimp only
  split
  · exact ⟨n, hn, .refl n⟩
  rename_i m hm
  split
  · rename_i hgone
    rw [Bool.and_eq_true] at hgone
    -- the counters of a flexContainer
    have h₁ : ∃ s₁, (if m.ty = .fcin then s.adjustFcnt ((s.resolve addr).parent s) m.obj (-1) else s) = s₁ ∧
        s.Spares s₁ ∧ s.tree.Pruned Recounted s₁.tree ∧ ∃ n' ∈ s₁.tree.nodes, n'.id = n.id := by
      split
      · refine ⟨_, rfl, spares_adjustFcnt hs, recounts_adjustFcnt hs, ?_⟩
        unfold adjustFcnt
        split
        · exact ⟨n, hmem, rfl⟩
        · split
          · exact ⟨n, hmem, rfl⟩
          · rw [persist_tree_eq]
            unfold assign
            split
            · rw [setObj, nodes_modifyNode]
              refine ⟨_, List.mem_map_of_mem hmem, ?_⟩
              split <;> rfl
            · exact ⟨n, hmem, rfl⟩
      · exact ⟨s, rfl, .refl s, .refl Recounted.refl _, n, hmem, rfl⟩
    obtain ⟨s₁, he₁, hsp, hrec, n', hn', hid⟩ := h₁
    obtain ⟨n₀, hn₀, hr⟩ := hrec.mem hn'
    obtain rfl := hs.eq hn₀ hmem (hr.spared.id.trans hid)
    obtain ⟨c', hc'⟩ := Forest.mem_nodes_iff.mp hn'
    show ∃ n', (s.expire (s.resolve addr) m).node? n₀.id = some n' ∧ _
    unfold expire
    rw [he₁]
    generalize s.resolve addr = p at hm
    have hnode : s₁.node? n₀.id = some n' := hid ▸ node?_eq (hsp.nodupIds hs) hn'
    cases p with
    | null => cases hm
    | loose _ _ => exact ⟨n', hnode, hr⟩
    | inTree k =>
      obtain ⟨hmm, rfl⟩ := node?_mem hm
      have hnot : ∀ e ∈ s.tree.cells, e.1.id = m.id → ¬ (e.1.id = n₀.id ∨ n₀.id ∈ e.2.nodes.map (·.id)) := by
        intro e he hem hi
        have hexp := h e he hi
        rw [hs.eq (Forest.mem_nodes_of_cell he) hmm hem, hgone.2] at hexp
        cases hexp
      have hcell : (n', c'.remove (RTNode.hasId m.id)) ∈ (s₁.tree.remove (RTNode.hasId m.id)).cells := by
        refine Forest.cell_of_remove hc' (Bool.eq_false_iff.mpr fun hb => ?_) fun b d hb hp hin => ?_
        · exact hnot _ hc ((hid.symm.trans (hasId_iff.mp hb))) (.inl rfl)
        · obtain ⟨a, k, hk, hab, hkd⟩ := hsp.tree.cell hb
          obtain ⟨q, hq, hqr⟩ := hkd.mem (Forest.mem_nodes_of_cell hin)
          exact hnot _ hk (hab.id.trans (hasId_iff.mp hp)) (.inr (List.mem_map.mpr ⟨q, hq, hqr.id.trans hid⟩))
      refine ⟨n', ?_, hr⟩
      have hids : (s₁.freeRtnode m.id).NodupIds := (spares_freeRtnode s₁ m.id).nodupIds (hsp.nodupIds hs)
      exact hid ▸ node?_eq (s := s₁.freeRtnode m.id) hids (Forest.mem_nodes_of_cell hcell)
  · exact ⟨n, hn, .refl n⟩

theorem spares_detachSubs (s : Server) (i j : Nat) : s.Spares (s.detachSubs i j) := by
  refine spares_modifyNode fun n _ _ => ?_
  split
  · exact ⟨rfl, rfl, rfl, rfl, List.erase_sublist, List.Sublist.refl _, .refl _⟩
  · exact .refl n

theorem spares_dropDcse (hs : s.NodupIds) (csi : CStr) : s.Spares (s.dropDcse csi) := by
  unfold dropDcse
  split
  · exact .refl s
  · rename_i cb c sib ht
    split
    · refine spares_modifyNode fun n hn hi => ?_
      have hcb : cb ∈ s.tree.nodes := by rw [ht]; simp [Forest.nodes]
      cases hs.eq hn hcb hi
      exact .setObj (.set _ _ (by decide))
    · exact .refl s

theorem spares_setMemberOf (hs : s.NodupIds) {p : Ptr} {n : RTNode} (hp : p.deref s = some n) (grpUri : CStr) :
    s.Spares (s.setMemberOf p (n.memberOf.erase grpUri)) := by
  unfold setMemberOf
  split
  · rename_i i
    obtain ⟨hn, hi⟩ := node?_mem hp
    refine spares_modifyNode fun m hm hmi => ?_
    cases hs.eq hm hn (hmi.trans hi.symm)
    exact ⟨rfl, rfl, rfl, rfl, List.Sublist.refl _, List.erase_sublist, .refl _⟩
  · exact .refl s

theorem spares_dropMembership (hs : s.NodupIds) (grpUri : CStr) (mid : Json) :
    s.Spares (dropMembership now grpUri s mid) := by
  unfold dropMembership
  split
  · exact .refl s
  · rename_i addr _
    have hfind : s.Spares (s.findRtnode now addr).1 := spares_findRtnode hs addr
    dsimp only
    split
    · exact hfind
    · rename_i m hm
      have hset := hfind.trans (spares_setMemberOf (hfind.nodupIds hs) hm grpUri)
      split
      · exact hset
      · exact hset.trans (.of_tree rfl rfl)

theorem spares_leaveGroup (hs : s.NodupIds) (ri grpUri : CStr) : s.Spares (leaveGroup now ri s grpUri) := by
  have hfind : s.Spares (s.findRtnode now grpUri).1 := spares_findRtnode hs grpUri
  unfold leaveGroup
  dsimp only
  split
  · exact hfind
  · rename_i grp hgrp
    exact hfind.trans (spares_persist (hfind.nodupIds hs) hgrp (.dropMember ri _))

theorem spares_leaveGroups (hs : s.NodupIds) (n : RTNode) : s.Spares (s.leaveGroups now n) := by
  unfold leaveGroups
  split
  · exact .refl s
  · exact .foldl (fun s g hs => spares_leaveGroup hs _ g) _ hs

theorem spares_dropTsi (hs : s.NodupIds) (parent : Ptr) (tsi : Obj) : s.Spares (s.dropTsi now parent tsi) := by
  unfold dropTsi
  split
  · exact .refl s
  · rename_i p hp
    split
    · exact .refl s
    · refine spares_persist hs hp ?_
      exact ((SparedObj.putNum _ _ (by decide)).trans (.putNum _ _ (by decide))).trans (.putStr _ _ (by decide))

theorem spares_incrementParentStatetag (hs : s.NodupIds) (parent : Ptr) :
    s.Spares (s.incrementParentStatetag now parent) := by
  unfold incrementParentStatetag
  split
  · exact .refl s
  · rename_i p hp
    split
    · exact .refl s
    · split
      · split
        · have ha := spares_assign hs hp (SparedObj.set p.obj (k := .st) (Json.int (cInt (Json.valueint ‹_› + 1))) (by decide))
          dsimp only
          split
          · exact ha
          · exact ha.trans (.of_tree rfl rfl)
        · exact .refl s
      · exact .refl s

theorem spares_removeSub (hs : s.NodupIds) (sub : RTNode) : s.Spares (s.removeSub now sub) := by
  have hrest {s : Server} (hs : s.NodupIds) :
      s.Spares ({ s.leaveGroups now sub with
        db := (s.leaveGroups now sub).db.dbDeleteOnem2mResource sub }.freeRtnode sub.id) := by
    have hrow : (s.leaveGroups now sub).Spares { s.leaveGroups now sub with
        db := (s.leaveGroups now sub).db.dbDeleteOnem2mResource sub } := .of_tree rfl rfl
    exact (spares_leaveGroups hs sub).trans (hrow.trans (spares_freeRtnode _ _))
  unfold removeSub
  dsimp only
  split
  · exact hrest hs
  · have hd := spares_detachSubs s ‹Nat› sub.id
    exact hd.trans (hrest (hd.nodupIds hs))

theorem spares_notifySub (hs : s.NodupIds) (req : Req) (target : ResourceType) (net : Int) (i : Nat) : s.Spares (notifySub now req target net s i) := by
  unfold notifySub
  split
  · exact .refl s
  · rename_i sub hsub
    split
    · exact .refl s
    · split
      · exact .refl s
      · dsimp only
        have hexc : SparedObj sub.obj (sub.obj.set .exc (Json.setIntValue ‹_› (Json.valueint ‹_› - 1))) := .set _ _ (by decide)
        split
        · have h₁ := spares_assign (p := .inTree i) hs hsub hexc
          exact h₁.trans (spares_removeSub (h₁.nodupIds hs) sub)
        · exact spares_persist hs hsub hexc

theorem spares_notifyDelete (hs : s.NodupIds) (req : Req) (p : Ptr) (n : RTNode) :
    s.Spares (notifyDelete now req s p n) := by
  unfold notifyDelete
  split
  · exact .refl s
  · split
    · exact .refl s
    · split
      · exact .foldl (fun s i hs => spares_notifySub hs req _ 4 i) _ hs
      · exact .refl s

theorem spares_deleteSwitch (hs : s.NodupIds) {p : Ptr} {n : RTNode} (h : s.deleteSwitch now p n = some s') :
    s.Spares s' := by
  unfold deleteSwitch at h
  split at h
  · exact spares_dropCnt hs h
  · cases h; exact spares_adjustFcnt hs
  · split at h
    · cases h; exact spares_detachSubs s _ _
    · cases h; exact .refl s
  · simp only [Option.bind_eq_bind, Option.bind_eq_some_iff] at h
    obtain ⟨csi, -, h⟩ := h
    split at h
    · cases h
      exact (spares_dropDcse hs csi).trans (.of_tree rfl rfl)
    · cases h
      exact spares_dropDcse hs csi
  · cases h
    exact .foldl (fun s j hs => spares_dropMembership hs _ j) _ hs
  · cases h; exact spares_dropTsi hs _ _
  · cases h; exact .refl s

theorem spares_deleteOne (hs : s.NodupIds) {req : Req} {p : Ptr} (h : s.deleteOne now req p = some s') : s.Spares s' := by
  unfold deleteOne at h
  split at h
  · cases h; exact .refl s
  · rename_i n hn
    simp only [Option.bind_eq_bind, Option.bind_eq_some_iff] at h
    obtain ⟨s₁, h₁, h⟩ := h
    have hs₁ := spares_deleteSwitch hs h₁
    have hs₂ : s.Spares (s₁.leaveGroups now n) := hs₁.trans (spares_leaveGroups (hs₁.nodupIds hs) n)
    have hs₃ : s.Spares ((s₁.leaveGroups now n).notifyDelete now req p n) :=
      hs₂.trans (spares_notifyDelete (hs₂.nodupIds hs) req p n)
    split at h
    · cases h
      exact hs₃.trans (spares_incrementParentStatetag (hs₃.nodupIds hs) _)
    · cases h
      exact hs₃

theorem spares_deleteProcess (hs : s.NodupIds) {req : Req} {p : Ptr} (h : s.deleteProcess now req p = some s') :
    s.Spares s' := by
  unfold deleteProcess at h
  generalize s.deleteOrder p = l at h
  induction l generalizing s with
  | nil => cases h; exact .refl _
  | cons q l ih =>
    rw [List.foldlM_cons, Option.bind_eq_bind, Option.bind_eq_some_iff] at h
    obtain ⟨s₁, h₁, h⟩ := h
    have hs₁ := spares_deleteOne hs h₁
    exact hs₁.trans (ih (hs₁.nodupIds hs) h)

theorem spares_freeFcin (s : Server) (p : Ptr) (n : RTNode) (rvi : Int) : s.Spares (s.freeFcin p n rvi) := by
  unfold freeFcin
  split
  · exact spares_freePtr s p
  · refine Spares.trans ?_ (spares_freePtr _ p)
    split
    · dsimp only
      split
      · exact .refl s
      · exact spares_freeRtnode s _
    · exact .refl s

/-- Deleting anything but a content instance takes nodes away and spares the others. -/
theorem spares_deleteOnem2mResource (hs : s.NodupIds) {req : Req} {p : Ptr} {n : RTNode} {resp : Resp}
    (hp : p.deref s = some n) (hty : n.ty ≠ .cin) (h : s.deleteOnem2mResource now req p = some (s', resp)) :
    s.Spares s' := by
  unfold deleteOnem2mResource at h
  rw [hp] at h
  dsimp only at h
  split at h
  · cases h
    exact .refl s
  · simp only [Option.bind_eq_bind, Option.bind_eq_some_iff, Option.pure_def, Option.some.injEq, Prod.mk.injEq] at h
    obtain ⟨s₁, h₁, rfl, -⟩ := h
    have hrow : s₁.Spares { s₁ with db := s₁.db.dbDeleteOnem2mResource n } := .of_tree rfl rfl
    refine (spares_deleteProcess hs h₁).trans (hrow.trans ?_)
    split
    · exact absurd ‹n.ty = .cin› hty
    · exact spares_freeFcin _ p n _
    · exact spares_freePtr _ p

theorem Spares.node? (h : s.Spares s') (hs : s.NodupIds) {i : Nat} {n' : RTNode} (hn : s'.node? i = some n') :
    ∃ n, s.node? i = some n ∧ Spared n n' := by
  obtain ⟨hn', hi⟩ := node?_mem hn
  obtain ⟨n, hn, hk⟩ := Forest.Pruned.mem h.tree hn'
  refine ⟨n, ?_, hk⟩
  rw [← hi, ← hk.id]
  exact node?_eq hs hn

end Server

end TinyIoT
