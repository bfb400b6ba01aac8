/-
Runs of group creates, group updates and deletions. As long as no update names a group that leads back to the
group itself, no path of groups goes on for ever and the check of any list of members ends; nothing in the code
sees to that, and a group that lists itself is gone into without end.
-/
import TinyIoT.Groups.Membership
import TinyIoT.Groups.Nesting
import TinyIoT.Lib.Reach
import TinyIoT.Monitor.Missing
import TinyIoT.Server.Boot

namespace TinyIoT

/-! ## Steps -/

/-- A request about groups: the parent or the target by its address. -/
inductive GrpAct where
  | create (req : Req) (parent : Nat)
  | update (req : Req) (target : Nat)
  | delete (req : Req) (p : Ptr)

namespace Server

/-- The handler at work. What is deleted may be any resource but a content instance. -/
def grpAct (g : GrpEnv) (kept : Json → List Json) (s : Server) : GrpAct → Option (Server × Resp)
  | .create req i => (s.node? i).bind fun n => s.createGrp g req n
  | .update req i => (s.node? i).bind fun n => if n.ty = .grp then s.updateGrp g kept req n else none
  | .delete req p => (p.deref s).bind fun n => if n.ty = .cin then none else s.deleteOnem2mResource g.now req p

end Server

/-- The identifier of a new group. -/
def newGrpId (env : Env) (s : Server) (body : Obj) : Option CStr :=
  match body.get .ri with
  | some j => j.valuestring
  | none => some (resourceIdentifier .grp env.now s.riCount).1

/-- The resources a list of members is found as have identifiers without a slash, and those it names by their
`fopt` have identifiers that `P` holds of. -/
def NamesOnly (g : GrpEnv) (s : Server) (csy : Int) (l : List Json) (P : CStr → Prop) : Prop :=
  (∀ n, Found g s l n → ∀ r, n.ri = some r → plainId r = true) ∧
    ∀ n, FoundByFopt g s csy l n → ∀ r, n.ri = some r → P r

/-- No path of groups leads from one with this identifier to the group at `i`. -/
def Server.LeadsAway (s : Server) (i : Nat) (r : CStr) : Prop :=
  ∀ m ∈ s.tree.nodes, m.ty = .grp → m.ri = some r → ¬ Relation.ReflTransGen s.Names m.id i

/-- A new group's members are checked, and it comes under an identifier that no group names by its `fopt`; an
update names no group that leads back to the target. -/
def GrpAct.Open (g : GrpEnv) (s : Server) : GrpAct → Prop
  | .create req _ => (req.pc.get .mtv).any Json.isTrue = false ∧ (Assoc.entries req.pc .mid).length ≤ 1 ∧
      (∀ n ∈ s.tree.nodes, n.ty = .grp → ∀ e ∈ n.obj.arr .mid, ∀ r, foptId e = some r → newGrpId g.toEnv s req.pc ≠ some r) ∧
      NamesOnly g s (consistency req.pc) (req.pc.arr .mid) fun r => newGrpId g.toEnv s req.pc ≠ some r
  | .update req i => ∀ n, s.node? i = some n →
      NamesOnly g s (consistency n.obj) (req.pc.arr .mid) (s.LeadsAway i)
  | .delete _ _ => True

/-- One request. -/
def GrpStep (s s' : Server) : Prop :=
  ∃ g kept a r, GrpEnv.Flat g ∧ a.Open g s ∧ s.grpAct g kept a = some (s', r)

/-- A state without groups. -/
def Ungrouped (s : Server) : Prop := s.Sane ∧ ∀ n ∈ s.tree.nodes, n.ty ≠ .grp

/-! ## What is listed -/

section

variable {g : GrpEnv} {s : Server} {csy : Int} {l : List Json} {P : CStr → Prop} {id r : CStr}

theorem memberAddr_append (hr : r ≠ []) : memberAddr (r ++ "/fopt".toList) = r := by
  unfold memberAddr
  have hlen : 0 < r.length := List.length_pos_of_ne_nil hr
  rw [isUriFopt_append, if_pos (by simp [hlen])]
  simp

theorem isUriFopt_plain (hr : plainId r = true) : isUriFopt r = false := by
  obtain ⟨h1, -, -⟩ := plainId_iff.mp hr
  unfold isUriFopt
  by_contra h
  rw [Bool.not_eq_false, List.isSuffixOf_iff_suffix] at h
  exact h1 (h.subset (by simp))

theorem slash_of_foreign (h : foreign r = true) : '/' ∈ r := by
  by_contra hno
  unfold foreign at h
  rw [Bool.and_eq_true, decide_eq_true_eq] at h
  have hsp := h.1
  unfold addressingType at hsp
  rw [not_isPrefixOf (by simp) hno, not_isPrefixOf (by simp) hno] at hsp
  simp only [Bool.false_eq_true, if_false] at hsp
  split at hsp <;> cases hsp

theorem FoundByFopt.found {n : RTNode} (h : FoundByFopt g s csy l n) : Found g s l n := by
  obtain ⟨e, he, mid, hmid, hn, -⟩ := h
  exact ⟨e, he, mid, hmid, hn⟩

/-- What a list entry says that has the suffix. -/
theorem listable_append (hr : r ≠ []) (h : plainId r = true ∨ foreign r = true) :
    listable (.str (r ++ "/fopt".toList)) = true ∧ ∀ r', foptId (.str (r ++ "/fopt".toList)) = some r' → r' = r ∧ plainId r = true := by
  constructor
  · show (!isUriFopt (r ++ "/fopt".toList) || plainId (memberAddr _) || foreign (memberAddr _)) = true
    rw [isUriFopt_append, memberAddr_append hr]
    rcases h with h | h <;> simp [h]
  · intro r' hr'
    unfold foptId at hr'
    rw [show Json.valuestring (.str (r ++ "/fopt".toList)) = some (r ++ "/fopt".toList) from rfl, Option.bind_some,
      isUriFopt_append, memberAddr_append hr, Bool.true_and] at hr'
    split at hr'
    · exact ⟨(Option.some.inj hr').symm, ‹_›⟩
    · cases hr'

/-- What is listed can be listed, and names by its `fopt` what the members do. -/
theorem listable_of_enlisted (hP : NamesOnly g s csy l P) (h : Enlisted g s csy l id) :
    listable (.str id) = true ∧ ∀ r, foptId (.str id) = some r → P r := by
  have hno (hid : isUriFopt id = false) : listable (.str id) = true ∧ ∀ r, foptId (.str id) = some r → P r := by
    constructor
    · show (!isUriFopt id || _ || _) = true
      rw [hid]
      rfl
    · intro r hr
      unfold foptId at hr
      rw [show Json.valuestring (.str id) = some id from rfl, Option.bind_some, hid] at hr
      cases hr
  cases h with
  | plain hn hri => exact hno (isUriFopt_plain (hP.1 _ hn _ hri))
  | away hfor hf => exact hno hf
  | @fopt n r hn hri =>
    by_cases hr : r = []
    · subst hr
      exact ⟨by decide, fun r' hr' => by cases hr'⟩
    · obtain ⟨hlist, hid⟩ := listable_append hr (.inl (hP.1 n hn.found r hri))
      exact ⟨hlist, fun r' hr' => (hid r' hr').1 ▸ hP.2 n hn r hri⟩
  | @awayFopt addr hfor =>
    have hslash := slash_of_foreign hfor
    obtain ⟨hlist, hid⟩ := listable_append (List.ne_nil_of_mem hslash) (.inr hfor)
    exact ⟨hlist, fun r' hr' => absurd hslash (plainId_iff.mp (hid r' hr').2).1⟩

end

/-! ## The invariant -/

/-- No path of groups goes on for ever. -/
structure GrpInv (s : Server) : Prop where
  sane : s.Sane
  listed : s.Listed
  descends : Descends s.Names

/-- The nodes of the second state were in the first, and groups list nothing new. -/
structure Server.Carried (s s' : Server) : Prop where
  sane : s.Sane → s'.Sane
  node : ∀ n' ∈ s'.tree.nodes, ∃ n ∈ s.tree.nodes, n.id = n'.id ∧ n'.ty = n.ty ∧ n'.ri = n.ri ∧
    ∀ mid, .str mid ∈ n'.obj.arr .mid → .str mid ∈ n.obj.arr .mid

theorem str_of_foptId {e : Json} {r : CStr} (h : foptId e = some r) : ∃ mid, e = .str mid := by
  unfold foptId at h
  cases e <;> first | cases h | exact ⟨_, rfl⟩

theorem listable_of_not_str {e : Json} (h : ∀ mid, e ≠ .str mid) : listable e = true := by
  cases e with
  | str mid => exact absurd rfl (h mid)
  | _ => rfl

section

variable {s s' s'' : Server} {g : GrpEnv} {kept : Json → List Json} {r : Resp}

theorem Server.Carried.names (h : s.Carried s') {i j : Nat} (hn : s'.Names i j) : s.Names i j := by
  obtain ⟨n', hn', m', hm', rfl, rfl, hty, hmty, e, he, r, hid, hri⟩ := hn
  obtain ⟨n, hn, hi, hnty, -, hmid⟩ := h.node n' hn'
  obtain ⟨m, hm, hj, hty', hri', -⟩ := h.node m' hm'
  obtain ⟨mid, rfl⟩ := str_of_foptId hid
  exact ⟨n, hn, m, hm, hi, hj, hnty ▸ hty, hty' ▸ hmty, .str mid, hmid mid he, r, hid, hri' ▸ hri⟩

theorem GrpInv.carried (hi : GrpInv s) (h : s.Carried s') : GrpInv s' where
  sane := h.sane hi.sane
  listed := fun n' hn' hty e he => by
    obtain ⟨n, hn, -, hnty, -, hmid⟩ := h.node n' hn'
    by_cases hstr : ∃ mid, e = .str mid
    · obtain ⟨mid, rfl⟩ := hstr
      exact hi.listed n hn (hnty ▸ hty) _ (hmid mid he)
    · exact listable_of_not_str fun mid hm => hstr ⟨mid, hm⟩
  descends := hi.descends.mono fun _ _ => h.names

theorem Server.Rejoined.arr_mid {n n' : RTNode} (h : Rejoined n n') : n'.obj.arr .mid = n.obj.arr .mid := by
  unfold Obj.arr
  rw [h.get (by decide)]

theorem Server.OnlyMembership.carried (h : s.OnlyMembership s') : s.Carried s' := by
  refine ⟨fun hs => ⟨h.nodupIds hs.ids, fun n hn => ?_⟩, fun n' hn' => ?_⟩
  · obtain ⟨m, hm, hk⟩ := h.tree.mem hn
    rw [← hk.id, h.nextId]
    exact hs.below m hm
  · obtain ⟨n, hn, hk⟩ := h.tree.mem hn'
    exact ⟨n, hn, hk.id, hk.ty, Obj.str_congr (hk.get (by decide)), fun mid hm => hk.arr_mid ▸ hm⟩

theorem Server.Carried.trans (h : s.Carried s') (h' : s'.Carried s'') : s.Carried s'' := by
  refine ⟨fun hs => h'.sane (h.sane hs), fun n'' hn'' => ?_⟩
  obtain ⟨n', hn', hid', hty', hri', hmid'⟩ := h'.node n'' hn''
  obtain ⟨n, hn, hid, hty, hri, hmid⟩ := h.node n' hn'
  exact ⟨n, hn, hid.trans hid', hty'.trans hty, hri'.trans hri, fun mid hm => hmid mid (hmid' mid hm)⟩

theorem Server.Spares.carried (h : s.Spares s') : s.Carried s' := by
  refine ⟨h.sane, fun n' hn' => ?_⟩
  obtain ⟨n, hn, hk⟩ := h.tree.mem hn'
  refine ⟨n, hn, hk.id, hk.ty, Obj.str_congr (Assoc.get_congr (hk.obj.attrs .ri (by decide))), fun mid hm => hk.obj.mem_mid hm⟩

/-! ## Update -/

/-- What a check that goes through lists. -/
theorem validateGrpMember_enlisted (hg : g.Flat) {depth : Nat} {grp : Obj} {csy mt : Int} {c : Checking}
    (h : validateGrpMember g depth s grp csy mt = some (.next c)) :
    ∀ id ∈ c.final, Enlisted g s csy (grp.arr .mid) id := by
  cases depth with
  | zero => cases h
  | succ depth =>
    rcases validateGrpMember_ends hg h with ⟨-, -, ⟨⟩⟩ | ⟨⟨⟩, -⟩ | ⟨c', hc, -, hfin⟩
    cases hc
    exact fun id hid => (hfin id hid).resolve_left List.not_mem_nil

theorem entries_updateMacp {body body' : Obj} {now : CStr} {k : Attr} (hk : k ≠ .macp)
    (h : updateMacp now s body = .ok body') : Assoc.entries body' k = Assoc.entries body k := by
  unfold updateMacp at h
  split at h
  · cases h
    rfl
  · split at h
    · cases h
    · cases h
      split
      · exact Assoc.entries_del_ne (Ne.symm hk)
      · rfl

theorem entries_storeMembers {grp : Obj} {final : List CStr} {k : Attr} (hk : k ≠ .mid) :
    Assoc.entries (storeMembers grp final) k = Assoc.entries grp k := by
  unfold storeMembers
  exact (Assoc.entries_add_ne (Ne.symm hk)).trans (Assoc.entries_del_ne (Ne.symm hk))

/-- The body of an update that is accepted. -/
theorem validateGrpUpdate_ok {req : Req} {old body : Obj} (hg : g.Flat) (hs : s.NodupIds)
    (h : validateGrpUpdate g req s old = some (s', .ok body)) :
    s.OnlyMembership s' ∧ Assoc.entries body .ri = Assoc.entries req.pc .ri ∧
      (Obj.get body .mid = none ∨ ∃ l, ∃ final : List CStr, Assoc.entries body .mid = l ++ [(.mid, .arr (final.map .str))] ∧
        ∀ id ∈ final, Enlisted g s (consistency old) (req.pc.arr .mid) id) := by
  unfold validateGrpUpdate at h
  split at h
  · cases h
  · obtain ⟨ok, -, h⟩ := Option.bind_eq_some_iff.mp h
    split at h
    · cases h
    · split at h
      · cases h
      · rename_i b hb
        have hmid : Obj.arr b .mid = req.pc.arr .mid := by
          unfold Obj.arr
          rw [Obj.get, Obj.get, Assoc.get_congr (entries_updateMacp (by decide) hb)]
        unfold updateMembers at h
        split at h
        · obtain ⟨r, hr, h⟩ := Option.bind_eq_some_iff.mp h
          split at h
          · cases h
          · cases h
          · rename_i c
            cases h
            have hlook := Server.OnlyMembership.looksUp hs (looksUp_validateGrpMember hr rfl)
            refine ⟨hlook.trans (.foldl (fun s mid hs => .leaveUnlisted hs mid) _ (hlook.nodupIds hs)), ?_,
              .inr ⟨_, c.final, Assoc.entries_add_self _ _ _, ?_⟩⟩
            · rw [entries_storeMembers (by decide), entries_validateGrpMember hr (by decide), entries_updateMacp (by decide) hb]
            · exact hmid ▸ validateGrpMember_enlisted hg hr
        · rename_i hno
          cases h
          refine ⟨.refl s, entries_updateMacp (by decide) hb, .inl ?_⟩
          exact Option.not_isSome_iff_eq_none.mp hno

/-- An update that is refused leaves what its lookups do. -/
theorem validateGrpUpdate_refused {req : Req} {old : Obj} {e : Resp}
    (h : validateGrpUpdate g req s old = some (s', .error e)) : s.LooksUp g.now s' := by
  unfold validateGrpUpdate at h
  split at h
  · cases h
    exact Server.looksUp_afterChecks _ _
  · obtain ⟨ok, -, h⟩ := Option.bind_eq_some_iff.mp h
    split at h
    · cases h
      exact .refl
    · split at h
      · cases h
        exact Server.looksUp_afterAcpi _
      · unfold updateMembers at h
        split at h
        · obtain ⟨r, hr, h⟩ := Option.bind_eq_some_iff.mp h
          split at h
          · cases h
          · cases h
            exact looksUp_validateGrpMember hr rfl
          · cases h
        · cases h

/-- What an update leaves of the group's identifier and list. -/
theorem updateGrp_obj {req : Req} {t : RTNode} (hg : g.Flat) (hs : s.NodupIds) (h : s.updateGrp g kept req t = some (s', r)) :
    s.OnlyMembership s' ∨ ∃ s₁ db o t₁, s.OnlyMembership s₁ ∧ s₁.node? t.id = some t₁ ∧
      ({ s₁ with db := db }.setObj t.id o).OnlyMembership s' ∧ o.str .ri = t.ri ∧
      (o.arr .mid = t.obj.arr .mid ∨ ∃ final : List CStr, o.arr .mid = final.map .str ∧
        ∀ id ∈ final, Enlisted g s (consistency t.obj) (req.pc.arr .mid) id) := by
  unfold Server.updateGrp at h
  split at h
  · cases h
    exact .inl (.refl _)
  · rename_i hkeys
    obtain ⟨⟨s₁, v⟩, hv, h⟩ := Option.bind_eq_some_iff.mp h
    dsimp only at h
    split at h
    · cases h
      exact .inl (.looksUp hs (validateGrpUpdate_refused hv))
    · rename_i body
      obtain ⟨honly, hri, hmid⟩ := validateGrpUpdate_ok hg hs hv
      simp only [Option.bind_eq_bind, Option.bind_eq_some_iff, Option.map_eq_some_iff] at h
      obtain ⟨t₁, ht₁, ri, -, ri', -, s₂, hset, ⟨⟩⟩ := h
      right
      have hno : req.pc.get .ri = none := by
        by_contra hsome
        refine hkeys (List.any_eq_true.mpr ⟨.ri, by decide, ?_⟩)
        exact Option.isSome_iff_ne_none.mpr hsome
      have hout : ∀ k : Attr, k ≠ .aa → k ≠ .at → k ≠ .lt →
          Assoc.entries ((processAnncAtUpdate kept t.obj (validateAa .update body .grp)).1.add .lt (.str g.now)) k =
            Assoc.entries body k := by
        intro k h1 h2 h3
        unfold Obj.add
        rw [Assoc.entries_add_ne (Ne.symm h3), entries_processAnncAtUpdate h2, entries_validateAa h1]
      have hcount : ∀ k, k ≠ .cnm → ∀ b, Obj.get (countMembers t.obj b) k = t.obj.get k := by
        intro k hk b
        unfold countMembers
        split
        · split
          · rfl
          · exact Assoc.get_set_ne (Ne.symm hk)
        · rfl
      refine ⟨s₁, _, _, t₁, honly, ht₁, .setGrpMember ?_ hset, ?_, ?_⟩
      · have hset : ∀ (s : Server) i o, s.NodupIds → (s.setObj i o).NodupIds := fun s i o h =>
          h.modify (f := fun n => { n with obj := o }) (fun _ _ _ => rfl) rfl
        exact hset _ _ _ (honly.nodupIds hs)
      · refine Obj.str_congr ?_
        rw [Obj.get_updateResource_of_not_has, hcount .ri (by decide)]
        show Assoc.get _ _ = none
        rw [Assoc.get_congr (hout .ri (by decide) (by decide) (by decide)), Assoc.get_congr hri]
        exact hno
      · rcases hmid with hnone | ⟨l, final, hent, hfin⟩
        · left
          unfold Obj.arr
          rw [Obj.get_updateResource_of_not_has, hcount .mid (by decide)]
          show Assoc.get _ _ = none
          rw [Assoc.get_congr (hout .mid (by decide) (by decide) (by decide))]
          exact hnone
        · right
          refine ⟨final, ?_, hfin⟩
          unfold Obj.arr
          rw [Obj.get_updateResource_of_last rfl ((hout .mid (by decide) (by decide) (by decide)).trans hent)]
          rfl

theorem mem_setObj {i : Nat} {o : Obj} {n : RTNode} (h : n ∈ (s.setObj i o).tree.nodes) :
    ∃ m ∈ s.tree.nodes, n = if m.id = i then { m with obj := o } else m := by
  unfold Server.setObj at h
  rw [Server.nodes_modifyNode] at h
  obtain ⟨m, hm, rfl⟩ := List.mem_map.mp h
  exact ⟨m, hm, rfl⟩

/-- The list of one group is replaced by one of identifiers that lead away from it. -/
theorem GrpInv.relist {t : RTNode} {o : Obj} (hi : GrpInv s) (ht : t ∈ s.tree.nodes) (hri : o.str .ri = t.ri)
    (hlist : ∀ e ∈ o.arr .mid, listable e = true ∧ ∀ r, foptId e = some r → s.LeadsAway t.id r) :
    GrpInv (s.setObj t.id o) := by
  -- the nodes are those there were, with another object for the one
  have hback : ∀ n ∈ (s.setObj t.id o).tree.nodes, ∃ m ∈ s.tree.nodes, m.id = n.id ∧ n.ty = m.ty ∧ n.ri = m.ri ∧
      n.obj = if m.id = t.id then o else m.obj := by
    intro n hn
    obtain ⟨m, hm, rfl⟩ := mem_setObj hn
    refine ⟨m, hm, ?_⟩
    split
    · rename_i hid
      cases hi.sane.ids.eq hm ht hid
      exact ⟨rfl, rfl, hri, rfl⟩
    · exact ⟨rfl, rfl, rfl, rfl⟩
  refine ⟨hi.sane.setObj t.id o, ?_, hi.descends.redirect (t := t.id) ?_ ?_⟩
  · intro n hn hty e he
    obtain ⟨m, hm, -, hmty, -, hobj⟩ := hback n hn
    rw [hobj] at he
    split at he
    · exact (hlist e he).1
    · exact hi.listed m hm (hmty ▸ hty) e he
  · rintro a b hne ⟨n, hn, n', hn', rfl, rfl, hty, hty', e, he, r, hid, hri'⟩
    obtain ⟨m, hm, hma, hmty, -, hobj⟩ := hback n hn
    obtain ⟨m', hm', hmb, hmty', hmri, -⟩ := hback n' hn'
    rw [hobj, if_neg (hma ▸ hne)] at he
    exact ⟨m, hm, m', hm', hma, hmb, hmty ▸ hty, hmty' ▸ hty', e, he, r, hid, hmri ▸ hri'⟩
  · rintro b ⟨n, hn, n', hn', hna, rfl, hty, hty', e, he, r, hid, hri'⟩
    obtain ⟨m, hm, hma, -, -, hobj⟩ := hback n hn
    obtain ⟨m', hm', hmb, hmty', hmri, -⟩ := hback n' hn'
    rw [hobj, if_pos (hma.trans hna)] at he
    exact hmb ▸ (hlist e he).2 r hid m' hm' (hmty' ▸ hty') (hmri ▸ hri')

theorem Server.LeadsAway.congr {i : Nat} {c : CStr} (h : s.LeadsAway i c) (hc : s.Carried s') : s'.LeadsAway i c := by
  intro m' hm' hty hri hreach
  obtain ⟨m, hm, hid, hmty, hmri, -⟩ := hc.node m' hm'
  refine h m hm (hmty ▸ hty) (hmri ▸ hri) ?_
  rw [hid]
  exact hreach.lift id fun _ _ => hc.names

theorem grpInv_update {req : Req} {t : RTNode} (hg : g.Flat) (hi : GrpInv s) (ht : t ∈ s.tree.nodes)
    (hty : t.ty = .grp) (hopen : NamesOnly g s (consistency t.obj) (req.pc.arr .mid) (s.LeadsAway t.id))
    (h : s.updateGrp g kept req t = some (s', r)) : GrpInv s' := by
  rcases updateGrp_obj hg hi.sane.ids h with h | ⟨s₁, db, o, t₁, h₁, hnode, h₂, hri, hmid⟩
  · exact hi.carried h.carried
  · have hc₁ : s.Carried { s₁ with db := db } := by
      refine ⟨fun hs => (h₁.carried.sane hs).congr rfl le_rfl, h₁.carried.node⟩
    -- the group that the lookups leave
    obtain ⟨ht₁, hid⟩ := Server.node?_mem hnode
    obtain ⟨t₀, ht₀, hk⟩ := h₁.tree.mem ht₁
    obtain rfl := hi.sane.ids.eq ht₀ ht (hk.id.trans hid)
    have hty₁ : t₁.ty = .grp := hk.ty.trans hty
    have hri₁ : o.str .ri = t₁.ri := hri.trans (Obj.str_congr (hk.get (by decide))).symm
    refine GrpInv.carried ?_ h₂.carried
    rw [← hid]
    have hi₁ := hi.carried hc₁
    rcases hmid with hsame | ⟨final, hnew, hfin⟩
    · refine hi₁.relist ht₁ hri₁ fun e he => ?_
      rw [hsame, ← hk.arr_mid] at he
      refine ⟨hi₁.listed t₁ ht₁ hty₁ e he, fun r hr m hm hmty hri => ?_⟩
      exact hi₁.descends.not_back ⟨t₁, ht₁, m, hm, rfl, rfl, hty₁, hmty, e, he, r, hr, hri⟩
    · refine hi₁.relist ht₁ hri₁ fun e he => ?_
      rw [hnew] at he
      obtain ⟨id, hidf, rfl⟩ := List.mem_map.mp he
      obtain ⟨hlist, haway⟩ := listable_of_enlisted hopen (hfin id hidf)
      exact ⟨hlist, fun r hr => hid ▸ (haway r hr).congr hc₁⟩

/-! ## Create -/

theorem expire_riCount (s : Server) (n : Nat) (p : Ptr) (m : RTNode) :
    ({ s with riCount := n } : Server).expire p m = { s.expire p m with riCount := n } := by
  have hadjust : ∀ q : Ptr, ({ s with riCount := n } : Server).adjustFcnt q m.obj (-1) =
      { s.adjustFcnt q m.obj (-1) with riCount := n } := by
    intro q
    unfold Server.adjustFcnt
    rw [show q.deref { s with riCount := n } = q.deref s from rfl]
    cases q.deref s with
    | none => rfl
    | some f =>
      dsimp only
      cases updateFcntFcin f.obj m.obj (-1) with
      | none => rfl
      | some o =>
        show ({ s with riCount := n } : Server).persist q o = { s.persist q o with riCount := n }
        unfold Server.persist Server.assign
        cases q <;> dsimp only <;> cases o.str .ri <;> rfl
  have hfree : ∀ s : Server, ({ s with riCount := n } : Server).freePtr p = { s.freePtr p with riCount := n } := by
    intro s
    cases p <;> rfl
  unfold Server.expire
  dsimp only
  rw [← hfree]
  split
  · rw [show p.parent { s with riCount := n } = p.parent s from rfl, hadjust]
  · rfl

theorem findRtnode_riCount (s : Server) (n : Nat) (now addr : CStr) : ({ s with riCount := n } : Server).findRtnode now addr =
    ({ (s.findRtnode now addr).1 with riCount := n }, (s.findRtnode now addr).2) := by
  unfold Server.findRtnode
  dsimp only
  rw [show ({ s with riCount := n } : Server).resolve addr = s.resolve addr from rfl,
    show (s.resolve addr).deref { s with riCount := n } = (s.resolve addr).deref s from rfl]
  split
  · rfl
  · split
    · rw [expire_riCount]
    · rfl

theorem namedNode_riCount (s : Server) (n : Nat) (mid : CStr) :
    namedNode g { s with riCount := n } mid = namedNode g s mid := by
  unfold namedNode Server.findNode
  simp only [findRtnode_riCount]
  rfl

theorem FoundAs.of_riCount {n : Nat} {mid : CStr} {m : RTNode} (h : FoundAs g { s with riCount := n } mid m) :
    FoundAs g s mid m := by
  obtain ⟨s₁, hs₁, hm⟩ := h
  have hback : ∃ s₂, s.LooksUp g.now s₂ ∧ s₁ = { s₂ with riCount := n } := by
    clear hm
    induction hs₁ with
    | refl => exact ⟨s, .refl, rfl⟩
    | tail _ hstep ih =>
      obtain ⟨addr, rfl⟩ := hstep
      obtain ⟨s₂, hs₂, rfl⟩ := ih
      exact ⟨_, hs₂.trans (Server.LooksUp.find addr), by rw [findRtnode_riCount]⟩
  obtain ⟨s₂, hs₂, rfl⟩ := hback
  exact ⟨s₂, hs₂, by rwa [namedNode_riCount] at hm⟩

theorem Enlisted.of_riCount {n : Nat} {csy : Int} {l : List Json} {id : CStr}
    (h : Enlisted g { s with riCount := n } csy l id) : Enlisted g s csy l id := by
  cases h with
  | plain hn hri =>
    obtain ⟨e, he, mid, hmid, hn⟩ := hn
    exact .plain ⟨e, he, mid, hmid, hn.of_riCount⟩ hri
  | fopt hn hri =>
    obtain ⟨e, he, mid, hmid, hn, hf⟩ := hn
    exact .fopt ⟨e, he, mid, hmid, hn.of_riCount, hf⟩ hri
  | away hfor hf => exact .away hfor hf
  | awayFopt hfor => exact .awayFopt hfor

/-- The list of a new group whose members are checked. -/
theorem validateGrp_mid (hg : g.Flat) {grp o : Obj} (h : validateGrp g s grp = some (s', .ok o))
    (hmtv : (grp.get .mtv).any Json.isTrue = false) (hone : (Assoc.entries grp .mid).length ≤ 1) :
    ∃ final : List CStr, o.arr .mid = final.map .str ∧ ∀ id ∈ final, Enlisted g s (consistency grp) (grp.arr .mid) id := by
  unfold validateGrp at h
  split at h
  · cases h
  · rw [hmtv, if_neg (by decide)] at h
    split at h
    · cases h
    · unfold checkedGrp at h
      obtain ⟨r, hc, h⟩ := Option.bind_eq_some_iff.mp h
      split at h
      · cases h
      · cases h
      · rename_i c
        cases h
        have hmid : Assoc.entries (memberType grp).1 .mid = Assoc.entries grp .mid := entries_memberType (by decide)
        refine ⟨c.final, ?_, ?_⟩
        · have htail : (Assoc.entries c.grp .mid).tail = [] := by
            rw [entries_validateGrpMember hc (by decide), hmid]
            exact List.length_eq_zero_iff.mp (by simp; omega)
          have hent : Assoc.entries (validateAa .create (storeMembers (c.grp.add .mtv (.bool true)) c.final) .grp) .mid =
              [(.mid, .arr (c.final.map .str))] := by
            rw [entries_validateAa (by decide)]
            unfold storeMembers Obj.add Obj.del
            rw [Assoc.entries_add_self, Assoc.entries_del_self, Assoc.entries_add_ne (by decide), htail]
            rfl
          unfold Obj.arr
          rw [Obj.get, Assoc.get_eq_head, hent]
          rfl
        · have harr : (memberType grp).1.arr .mid = grp.arr .mid := by
            unfold Obj.arr
            rw [Obj.get, Obj.get, Assoc.get_congr hmid]
          have hcsy : consistency (memberType grp).1 = consistency grp := by
            unfold consistency
            rw [Obj.get, Obj.get, Assoc.get_congr (entries_memberType (by decide))]
          rw [← harr, ← hcsy]
          exact validateGrpMember_enlisted hg hc

theorem ri_addGeneralAttribute {env : Env} {o o' parent : Obj} {n n' : Nat}
    (h : addGeneralAttribute env o parent .grp n = some (o', n')) :
    o'.str .ri = match o.get .ri with
      | some j => j.valuestring
      | none => some (resourceIdentifier .grp env.now n).1 := by
  have hri : o'.get .ri = (o.get .ri).or (some (.str (resourceIdentifier .grp env.now n).1)) := by
    obtain ⟨pi, -, hget⟩ := addGeneralAttribute_some h
    exact hget .ri
  unfold Obj.str
  rw [hri]
  cases o.get .ri <;> rfl

theorem createRtnode_ri {id : Nat} {o : Obj} {ty : ResourceType} {n : RTNode} (h : createRtnode id o ty = some n) :
    n.ri = o.str .ri :=
  Obj.str_congr (Assoc.get_congr (entries_createRtnode h (by decide)))

/-- What a create request leaves: nothing new, or one group, whose members are listed where they are checked. -/
theorem createGrp_node {req : Req} {parent : RTNode} (hg : g.Flat) (hs : s.Sane)
    (hmtv : (req.pc.get .mtv).any Json.isTrue = false) (hone : (Assoc.entries req.pc .mid).length ≤ 1)
    (h : s.createGrp g req parent = some (s', r)) :
    s.Carried s' ∨ ∃ (s₂ s₁ : Server) (x : RTNode) (final : List CStr), s.Carried s₂ ∧ s₁.OnlyMembership s' ∧
      x.id = s₂.nextId ∧ s₁.nextId = s₂.nextId + 1 ∧ s₁.tree.nodes.Perm (x :: s₂.tree.nodes) ∧ x.ri = newGrpId g.toEnv s req.pc ∧
      x.obj.arr .mid = final.map .str ∧ ∀ id ∈ final, Enlisted g s (consistency req.pc) (req.pc.arr .mid) id := by
  have hcarried : ∀ n : Nat, s.Carried { s with riCount := n } := fun n =>
    ⟨fun hs => hs.congr rfl le_rfl, fun n hn => ⟨n, hn, rfl, rfl, rfl, fun _ h => h⟩⟩
  unfold Server.createGrp at h
  simp only [Option.bind_eq_bind, Option.bind_eq_some_iff] at h
  obtain ⟨⟨grp, n⟩, hgen, ⟨s₂, v⟩, hv, h⟩ := h
  -- what the lookups of the check leave
  have hlook : s.Carried s₂ := (hcarried n).trans
    (Server.OnlyMembership.looksUp (s := { s with riCount := n }) hs.ids (looksUp_validateGrp hv)).carried
  have hs₂ := hlook.sane hs
  cases v with
  | error e =>
    cases h
    exact .inl hlook
  | ok o =>
    dsimp only at h
    split at h
    · cases h
      exact .inl hlook
    · rename_i o₁ hcr
      simp only [Option.bind_eq_some_iff] at h
      obtain ⟨p₂, hp₂, ⟨s₁, r₁⟩, hst, h⟩ := h
      obtain ⟨hp₂, hpid⟩ := Server.node?_mem hp₂
      have honly : s₁.NodupIds → s₁.OnlyMembership s' ∧ (r₁.rsc ≠ .created → s' = s₁) := by
        intro hids
        split at h
        · cases h
          exact ⟨.refl _, fun _ => rfl⟩
        · split at h
          · obtain ⟨s₃, hset, ⟨⟩⟩ := Option.map_eq_some_iff.mp h
            exact ⟨.setGrpMember hids hset, fun hne => absurd ‹_› hne⟩
          · cases h
            exact ⟨.refl _, fun _ => rfl⟩
      unfold Server.storeResource at hst
      simp only [Option.bind_eq_bind, Option.bind_eq_some_iff] at hst
      obtain ⟨rn, -, hst⟩ := hst
      split at hst
      · cases hst
        rw [(honly hs₂.ids).2 (by decide)]
        exact .inl hlook
      · simp only [Option.bind_eq_some_iff, Option.pure_def, Option.some.injEq, Prod.mk.injEq] at hst
        obtain ⟨x, hx, rfl, rfl⟩ := hst
        obtain ⟨hid, hty, -⟩ := createRtnode_some hx
        rw [Server.addChildResourceTree_plain (by rw [hty]; decide) (by rw [hty]; decide)] at honly
        have hperm := Server.nodes_graft (s := s₂) (x := { x with uri := parent.uri ++ '/' :: x.rn }) hs₂.ids hp₂ rfl
        rw [hpid] at hperm
        have hent : ∀ k ∈ [Attr.mtv, .mid, .csy], Assoc.entries grp k = Assoc.entries req.pc k := fun k hk =>
          entries_addGeneralAttribute (by revert k; decide) hgen
        have hmtv' : (Obj.get grp .mtv).any Json.isTrue = false := by
          rw [Obj.get, Assoc.get_congr (hent .mtv (by decide))]
          exact hmtv
        obtain ⟨final, hmid, hfin⟩ := validateGrp_mid hg hv hmtv' (by rw [hent .mid (by decide)]; exact hone)
        refine .inr ⟨s₂, _, { x with uri := parent.uri ++ '/' :: x.rn }, final, hlook, (honly ?_).1, hid, rfl, hperm, ?_, ?_, ?_⟩
        · refine (hperm.map RTNode.id).nodup_iff.mpr (List.nodup_cons.mpr ⟨fun hin => ?_, hs₂.ids⟩)
          obtain ⟨m, hm, hmid⟩ := List.mem_map.mp hin
          have := hs₂.below m hm
          have : m.id = s₂.nextId := hmid.trans hid
          omega
        -- the identifier is that of the object the handler started from
        · have hri : x.ri = grp.str .ri := by
            rw [createRtnode_ri hx]
            refine Obj.str_congr (Assoc.get_congr ?_)
            unfold addCnm Obj.add
            rw [Assoc.entries_add_ne (by decide), entries_announceAt (by decide), entries_assignCreator hcr (by decide)]
            exact entries_validateGrp (by decide) hv
          exact hri.trans (ri_addGeneralAttribute hgen)
        · have hent : Assoc.entries x.obj .mid = Assoc.entries o .mid := by
            rw [entries_createRtnode hx (by decide)]
            unfold addCnm Obj.add
            rw [Assoc.entries_add_ne (by decide), entries_announceAt (by decide), entries_assignCreator hcr (by decide)]
          rw [← hmid]
          unfold Obj.arr
          rw [Obj.get, Obj.get, Assoc.get_congr hent]
        · intro id hid
          have hcsy : consistency grp = consistency req.pc := by
            unfold consistency
            rw [Obj.get, Obj.get, Assoc.get_congr (hent .csy (by decide))]
          have harr : Obj.arr grp .mid = req.pc.arr .mid := by
            unfold Obj.arr
            rw [Obj.get, Obj.get, Assoc.get_congr (hent .mid (by decide))]
          rw [← hcsy, ← harr]
          exact (hfin id hid).of_riCount

/-- A group comes in that none names, with a list of identifiers of others. -/
theorem GrpInv.insert {x : RTNode} (hi : GrpInv s) (hx : x.id = s.nextId) (hnext : s'.nextId = s.nextId + 1)
    (hperm : s'.tree.nodes.Perm (x :: s.tree.nodes)) (hlist : ∀ e ∈ x.obj.arr .mid, listable e = true ∧
      ∀ r, foptId e = some r → x.ri ≠ some r)
    (hnone : ∀ n ∈ s.tree.nodes, n.ty = .grp → ∀ e ∈ n.obj.arr .mid, ∀ r, foptId e = some r → x.ri ≠ some r) : GrpInv s' := by
  have hmem : ∀ n, n ∈ s'.tree.nodes ↔ n = x ∨ n ∈ s.tree.nodes := fun n => by
    rw [hperm.mem_iff, List.mem_cons]
  have hbelow : ∀ n ∈ s.tree.nodes, n.id ≠ x.id := fun n hn => by
    have := hi.sane.below n hn
    omega
  refine ⟨⟨?_, ?_⟩, ?_, hi.descends.redirect (t := x.id) ?_ ?_⟩
  · unfold Server.NodupIds
    rw [(hperm.map _).nodup_iff, List.map_cons, List.nodup_cons]
    refine ⟨fun hin => ?_, hi.sane.ids⟩
    obtain ⟨n, hn, hni⟩ := List.mem_map.mp hin
    exact hbelow n hn hni
  · intro n hn
    rcases (hmem n).mp hn with rfl | hn
    · omega
    · have := hi.sane.below n hn
      omega
  · intro n hn hty e he
    rcases (hmem n).mp hn with rfl | hn
    · exact (hlist e he).1
    · exact hi.listed n hn hty e he
  · rintro a b hne ⟨n, hn, m, hm, rfl, rfl, hty, hmty, e, he, r, hid, hri⟩
    have hn := ((hmem n).mp hn).resolve_left fun h => hne (h ▸ rfl)
    rcases (hmem m).mp hm with rfl | hm
    · exact absurd hri (hnone n hn hty e he r hid)
    · exact ⟨n, hn, m, hm, rfl, rfl, hty, hmty, e, he, r, hid, hri⟩
  · rintro b ⟨n, hn, m, hm, hni, rfl, hty, hmty, e, he, r, hid, hri⟩ hreach
    obtain rfl : n = x := ((hmem n).mp hn).resolve_right fun h => hbelow n h hni
    have hm := ((hmem m).mp hm).resolve_left fun h => (hlist e he).2 r hid (h ▸ hri)
    -- no path of the groups there were ends at the new one
    rcases hreach.cases_tail with heq | ⟨c, -, hlast⟩
    · exact hbelow m hm heq.symm
    · obtain ⟨-, -, k, hk, -, hkx, -⟩ := hlast
      exact hbelow k hk hkx

theorem grpInv_create {req : Req} {parent : RTNode} (hg : g.Flat) (hi : GrpInv s) {j : Nat}
    (hopen : (GrpAct.create req j).Open g s) (h : s.createGrp g req parent = some (s', r)) : GrpInv s' := by
  obtain ⟨hmtv, hone, hnone, honly⟩ := hopen
  rcases createGrp_node hg hi.sane hmtv hone h with hc | ⟨s₂, s₁, x, final, h₂, h₁, hid, hnext, hperm, hri, hmid, hfin⟩
  · exact hi.carried hc
  · refine GrpInv.carried ((hi.carried h₂).insert hid hnext hperm (fun e he => ?_) fun n' hn' hty e he r hr => ?_) h₁.carried
    · rw [hmid] at he
      obtain ⟨m, hm, rfl⟩ := List.mem_map.mp he
      exact hri ▸ listable_of_enlisted honly (hfin m hm)
    · obtain ⟨n, hn, -, hnty, -, hmids⟩ := h₂.node n' hn'
      obtain ⟨mid, rfl⟩ := str_of_foptId hr
      exact hri ▸ hnone n hn (hnty ▸ hty) _ (hmids mid he) r hr

/-! ## Runs -/

theorem grpInv_ungrouped (h : Ungrouped s) : GrpInv s where
  sane := h.1
  listed := fun n hn hty => absurd hty (h.2 n hn)
  descends := .of_isEmpty fun _ _ hname => by
    obtain ⟨n, hn, -, -, -, -, hty, -⟩ := hname
    exact h.2 n hn hty

theorem grpInv_step (hi : GrpInv s) (h : GrpStep s s') : GrpInv s' := by
  obtain ⟨g, kept, a, r, hg, hopen, h⟩ := h
  cases a with
  | create req i =>
    obtain ⟨n, hn, h⟩ := Option.bind_eq_some_iff.mp h
    exact grpInv_create hg hi hopen h
  | update req i =>
    obtain ⟨n, hn, hrun⟩ := Option.bind_eq_some_iff.mp h
    obtain ⟨hmem, rfl⟩ := Server.node?_mem hn
    split at hrun
    · exact grpInv_update hg hi hmem ‹_› (hopen n hn) hrun
    · cases hrun
  | delete req p =>
    obtain ⟨n, hn, h⟩ := Option.bind_eq_some_iff.mp h
    split at h
    · cases h
    · exact hi.carried (Server.spares_deleteOnem2mResource hi.sane.ids hn ‹_› h).carried

/-- In every run whose creates check their members and whose updates name no group that leads back to the target,
the check of any list of members ends, in every state reached. -/
theorem members_end_of_open_run (h : Reach Ungrouped GrpStep s) (hg : g.Flat) (grp : Obj) (csy : Int) : Ends g s csy grp := by
  have hi := h.inv (I := GrpInv) (fun _ => grpInv_ungrouped) fun _ _ => grpInv_step
  exact ends_of_descends hg hi.sane.ids hi.listed hi.descends grp

end

/-! ## Two runs -/

/-- No other CSE. -/
def aloneGroups : GrpEnv := { firstDay with remote := fun _ => .error .badRequest, depth := 5 }

theorem flat_aloneGroups : aloneGroups.Flat where
  uri := by rintro _ _ ⟨⟩
  members := by rintro _ _ ⟨⟩

/-- A group below the CSEBase, with these members. -/
def makeGrp (rn : String) (mid : List String) : GrpAct :=
  .create (adminReq .create "TinyIoT" .grp
    [(.rn, .str rn.toList), (.mnm, .int 5), (.mid, .arr (mid.map fun m => .str m.toList))]) 0

/-- A list of members, tested one by one. -/
def namesOnlyCheck (l : List Json) (p : CStr → Bool) : Bool :=
  l.all fun e => e.valuestring.all fun mid => plainId (memberAddr mid) && p (memberAddr mid)

theorem namesOnly_of_check {g : GrpEnv} {s : Server} (hs : s.NodupIds) (csy : Int) {l : List Json} {p : CStr → Bool}
    (h : namesOnlyCheck l p = true) : NamesOnly g s csy l fun r => p r = true := by
  have hfound : ∀ n, Found g s l n → ∀ r, n.ri = some r → plainId r = true ∧ p r = true := by
    rintro n ⟨e, he, mid, hmid, s', hs', hn⟩ r hr
    have := List.all_eq_true.mp h e he
    rw [hmid, Option.all_some, Bool.and_eq_true] at this
    unfold namedNode at hn
    rw [localAddr_plain this.1, Option.bind_some] at hn
    have hri := ri_of_findNode ((hs'.spares hs).nodupIds hs) this.1 hn
    rw [hr] at hri
    cases hri
    exact this
  exact ⟨fun n hn r hr => (hfound n hn r hr).1, fun n hn r hr => (hfound n hn.found r hr).2⟩

/-- What `Open` asks of a create request, tested. -/
def createCheck (g : GrpEnv) (s : Server) (body : Obj) : Bool :=
  !(body.get .mtv).any Json.isTrue && decide ((Assoc.entries body .mid).length ≤ 1) &&
    s.tree.nodes.all (fun n => n.ty ≠ .grp || (n.obj.arr .mid).all fun e => (foptId e).all fun r =>
      newGrpId g.toEnv s body ≠ some r) &&
    namesOnlyCheck (body.arr .mid) fun r => newGrpId g.toEnv s body ≠ some r

theorem open_of_createCheck {g : GrpEnv} {s : Server} {req : Req} {i : Nat} (hs : s.NodupIds) (h : createCheck g s req.pc = true) :
    (GrpAct.create req i).Open g s := by
  unfold createCheck at h
  simp only [Bool.and_eq_true, Bool.not_eq_true', decide_eq_true_eq, List.all_eq_true, Bool.or_eq_true] at h
  obtain ⟨⟨⟨hmtv, hone⟩, hnone⟩, honly⟩ := h
  refine ⟨hmtv, hone, fun n hn hty e he r hr => ?_, ?_⟩
  · have := (hnone n hn).resolve_left (fun hne => hne hty) e he
    rw [hr, Option.all_some, decide_eq_true_eq] at this
    exact this
  · obtain ⟨h1, h2⟩ := namesOnly_of_check (g := g) hs (consistency req.pc) honly
    exact ⟨h1, fun n hn r hr => of_decide_eq_true (h2 n hn r hr)⟩

/-- One group, and another that names it by its `fopt`. -/
def nestedGroups : List GrpAct := [makeGrp "a" [], makeGrp "b" ["9-20240101T0000000001/fopt"]]

/-- A create request that passes the test. -/
def checkedCreate (s : Server) : GrpAct → Option Server
  | .create req i =>
    if s.NodupIds ∧ createCheck aloneGroups s req.pc = true then (s.grpAct aloneGroups (fun _ => []) (.create req i)).map (·.1) else none
  | _ => none

theorem members_end_of_open_run_nested : ∃ s, Reach Ungrouped GrpStep s ∧
    (s.tree.nodes.countP fun n => n.ty = .grp) = 2 ∧ ∀ grp csy, Ends aloneGroups s csy grp := by
  have hrun : (boot firstDay).any (fun s => (s.tree.nodes.all fun n => n.ty ≠ .grp) &&
      (nestedGroups.foldlM checkedCreate s).any fun s => (s.tree.nodes.countP fun n => n.ty = .grp) = 2) = true := by
    decide +kernel
  obtain ⟨s₀, hb, h⟩ := (Option.any_eq_true _ _).mp hrun
  rw [Bool.and_eq_true] at h
  obtain ⟨s, hs, hc⟩ := (Option.any_eq_true _ _).mp h.2
  have hstart : Ungrouped s₀ :=
    ⟨(Server.sane_boot hb).1, fun n hn => of_decide_eq_true (List.all_eq_true.mp h.1 n hn)⟩
  have hr : Reach Ungrouped GrpStep s := by
    refine Reach.of_foldlM ?_ nestedGroups (.start hstart) hs
    intro s a s' hs'
    cases a with
    | create req i =>
      rw [checkedCreate, Option.ite_none_right_eq_some] at hs'
      obtain ⟨hok, hs'⟩ := hs'
      obtain ⟨⟨s₁, r⟩, he, rfl⟩ := Option.map_eq_some_iff.mp hs'
      exact ⟨aloneGroups, fun _ => [], _, r, flat_aloneGroups, open_of_createCheck hok.1 hok.2, he⟩
    | update req i => cases hs'
    | delete req p => cases hs'
  exact ⟨s, hr, of_decide_eq_true hc, fun grp csy => members_end_of_open_run hr flat_aloneGroups grp csy⟩

/-- A group that lists itself first is gone into without end. -/
theorem deep_of_self {g : GrpEnv} {s : Server} {n : RTNode} {mid : CStr} {rest : List Json} {i : Nat}
    (hmid : n.obj.arr .mid = .str mid :: rest) (hf : isUriFopt mid = true) (hty : n.ty = .grp)
    (hplain : plainId (memberAddr mid) = true) (hfind : s.findNode g.now (memberAddr mid) = .inTree i)
    (hn : s.node? i = some n) (depth : Nat) (mt : Int) :
    validateGrpMember g depth s n.obj csyAbandonGroup mt = some .deep := by
  induction depth generalizing mt with
  | zero => rfl
  | succ depth ih =>
    have hderef : (s.findNode g.now (memberAddr mid)).deref s = some n := by
      rw [hfind]
      exact hn
    have hseek : seekMember g s csyAbandonGroup .unset (memberAddr mid) = (s, .held (.node n) false) := by
      unfold seekMember
      rw [addressingType_plain hplain]
      rcases seekLocal_cases g s csyAbandonGroup (memberAddr mid) with ⟨m, hm, he⟩ | ⟨hno, -⟩
      · obtain rfl := Option.some.inj (hm.symm.trans hderef)
        exact he
      · rw [hderef] at hno
        cases hno
    unfold validateGrpMember
    rw [hmid]
    unfold checkMembers checkMember
    rw [show Json.valuestring (.str mid) = some mid from rfl, Option.bind_some, hseek]
    simp only [MemberVar.deref, Option.bind_some]
    unfold useMember fitType fitGroup
    simp [hf, hty, ih, nestedFit, Fit.vars]

/-- A group that is given itself as a member. -/
def selfNamed : List GrpAct :=
  [makeGrp "a" [], .update (adminReq .update "TinyIoT/a" .grp [(.mid, .arr [.str "9-20240101T0000000001/fopt".toList])]) 2]

/-- The first member of the group is found to be the node at `i`, named by its `fopt`. -/
def firstNames (g : GrpEnv) (s : Server) (n : RTNode) (i : Nat) : Bool :=
  match n.obj.arr .mid with
  | .str mid :: _ => isUriFopt mid && plainId (memberAddr mid) && (match s.findNode g.now (memberAddr mid) with
    | .inTree j => j = i
    | _ => false)
  | _ => false

theorem firstNames_some {g : GrpEnv} {s : Server} {n : RTNode} {i : Nat} (h : firstNames g s n i = true) :
    ∃ mid rest, n.obj.arr .mid = .str mid :: rest ∧ isUriFopt mid = true ∧ plainId (memberAddr mid) = true ∧
      s.findNode g.now (memberAddr mid) = .inTree i := by
  unfold firstNames at h
  split at h
  · rename_i mid rest hmid
    rw [Bool.and_eq_true, Bool.and_eq_true] at h
    obtain ⟨⟨hf, hplain⟩, hfind⟩ := h
    refine ⟨mid, rest, hmid, hf, hplain, ?_⟩
    split at hfind
    · rename_i j hj
      exact of_decide_eq_true hfind ▸ hj
    · cases hfind
  · cases h

/-- The check of a list that names the group ends at no depth. -/
theorem not_ends_self_named : ¬ ∀ s, Reach Ungrouped (fun s s' => ∃ g kept a r, GrpEnv.Flat g ∧
    s.grpAct g kept a = some (s', r)) s → ∀ g, GrpEnv.Flat g → ∀ grp csy, Ends g s csy grp := by
  intro hall
  have hrun : (boot firstDay).any (fun s => (s.tree.nodes.all fun n => n.ty ≠ .grp) &&
      (selfNamed.foldlM (fun (s : Server) a => (s.grpAct aloneGroups (fun _ => []) a).map (·.1)) s).any fun s =>
        (s.node? 2).any fun n => n.ty = .grp && firstNames aloneGroups s n 2) = true := by decide +kernel
  obtain ⟨s₀, hb, h⟩ := (Option.any_eq_true _ _).mp hrun
  rw [Bool.and_eq_true] at h
  obtain ⟨s, hs, hc⟩ := (Option.any_eq_true _ _).mp h.2
  obtain ⟨n, hn, hc⟩ := (Option.any_eq_true _ _).mp hc
  rw [Bool.and_eq_true, decide_eq_true_eq] at hc
  obtain ⟨hty, hc⟩ := hc
  have hr : Reach Ungrouped (fun s s' => ∃ g kept a r, GrpEnv.Flat g ∧ s.grpAct g kept a = some (s', r)) s := by
    refine Reach.of_foldlM ?_ selfNamed
      (.start ⟨(Server.sane_boot hb).1, fun n hn => of_decide_eq_true (List.all_eq_true.mp h.1 n hn)⟩) hs
    intro s a s' hs'
    obtain ⟨⟨s₁, r⟩, he, rfl⟩ := Option.map_eq_some_iff.mp hs'
    exact ⟨aloneGroups, fun _ => [], a, r, flat_aloneGroups, he⟩
  obtain ⟨N, hN⟩ := hall s hr aloneGroups flat_aloneGroups n.obj csyAbandonGroup
  obtain ⟨mid, rest, hmid, hf, hplain, hfind⟩ := firstNames_some hc
  exact hN N le_rfl 0 (deep_of_self hmid hf hty hplain hfind hn N 0)

end TinyIoT
