/-
Groups and their members (`grp.c`): the check of the members changes nothing of the group but its `mt`; joining and
leaving change `memberOf` lists, and what they find expired goes.
-/
import TinyIoT.Groups.Members
import TinyIoT.Resource.Built
import TinyIoT.Server.Spared

namespace TinyIoT

/-! ## What the check leaves of the group -/

section

variable {g : GrpEnv} {s s' : Server} {nested : Server → Obj → Int → Option Checked} {csy : Int} {c c' : Checking} {k : Attr}

theorem entries_setMixed {grp : Obj} (hk : k ≠ .mt) : Assoc.entries (setMixed grp) k = Assoc.entries grp k := by
  unfold setMixed
  split
  · exact Assoc.entries_add_ne (Ne.symm hk)
  · exact Assoc.entries_set_ne (Ne.symm hk)

theorem entries_fitType {fopt : Bool} {n : RTNode} (h : fitType csy fopt c n = .on c') (hk : k ≠ .mt) :
    Assoc.entries c'.grp k = Assoc.entries c.grp k := by
  unfold fitType at h
  split at h
  · split at h
    · cases h
    · split at h
      · cases h
        exact entries_setMixed hk
      · cases h
  · cases h
    rfl

theorem grp_nestedFit {r : Checked} (h : nestedFit csy c r = .on c') : c'.grp = c.grp := by
  rcases nestedFit_cases csy c r with ⟨-, hd⟩ | ⟨s', -, hd | hd | ⟨rsc, hd⟩⟩ <;> rw [hd] at h <;> cases h
  rfl

theorem grp_fitGroup {fopt isRemote : Bool} {n : RTNode} (h : fitGroup nested csy fopt isRemote c n = some (.on c')) :
    c'.grp = c.grp := by
  unfold fitGroup at h
  split at h
  · obtain ⟨r, -, hr⟩ := Option.bind_eq_some_iff.mp h
    dsimp only at hr
    split at hr
    · exact grp_nestedFit (Option.some.inj hr)
    · cases hr
  · cases h
    rfl

theorem grp_skipGroup {fopt isRemote : Bool} {n : RTNode} (h : fitGroup nested csy fopt isRemote c n = some (.skip c')) :
    c'.grp = c.grp := by
  unfold fitGroup at h
  split at h
  · obtain ⟨r, -, hr⟩ := Option.bind_eq_some_iff.mp h
    dsimp only at hr
    split at hr
    · rcases nestedFit_cases csy c r with ⟨-, hd⟩ | ⟨s', -, hd | hd | ⟨rsc, hd⟩⟩ <;> rw [hd] at hr <;> cases hr
      rfl
    · cases hr
  · cases h

theorem grp_addMember {fopt isRemote : Bool} {n : RTNode} (h : addMember fopt isRemote c n = some c') :
    c'.grp = c.grp := by
  unfold addMember at h
  obtain ⟨id, -, rfl⟩ := Option.map_eq_some_iff.mp h
  split <;> rfl

theorem entries_checkMember {entry : Json} (h : checkMember g nested csy c entry = some (.next c')) (hk : k ≠ .mt) :
    Assoc.entries c'.grp k = Assoc.entries c.grp k := by
  unfold checkMember at h
  obtain ⟨mid, -, h⟩ := Option.bind_eq_some_iff.mp h
  dsimp only at h
  split at h
  · cases h
  · cases h
    rfl
  · obtain ⟨n, -, h⟩ := Option.bind_eq_some_iff.mp h
    unfold useMember at h
    dsimp only at h
    split at h
    · cases h
    · rename_i c₁ hfit
      rcases fitType_off csy (isUriFopt mid) { c with server := _, rtNode := _ } n with ⟨c₂, hty⟩ | hty | ⟨rsc, hty⟩
      · cases hty.symm.trans hfit
      · cases hty.symm.trans hfit
        cases h
        rfl
      · cases hty.symm.trans hfit
    · cases h
    · rename_i c₁ hfit
      have hent := entries_fitType hfit hk
      obtain ⟨fit, hgrp, h⟩ := Option.bind_eq_some_iff.mp h
      split at h
      · cases h
      · rename_i c₂
        have hsame : c₂.grp = c₁.grp := grp_skipGroup hgrp
        cases h
        rw [← hent]
        exact congrArg (Assoc.entries · k) hsame
      · cases h
      · rename_i c₂
        obtain ⟨c₃, hadd, hc⟩ := Option.map_eq_some_iff.mp h
        cases hc
        dsimp only
        rw [grp_addMember hadd, grp_fitGroup hgrp]
        exact hent

theorem entries_checkMembers {l : List Json} (h : checkMembers g nested csy l c = some (.next c')) (hk : k ≠ .mt) :
    Assoc.entries c'.grp k = Assoc.entries c.grp k := by
  induction l generalizing c with
  | nil =>
    cases h
    rfl
  | cons entry l ih =>
    unfold checkMembers at h
    obtain ⟨r, hr, h⟩ := Option.bind_eq_some_iff.mp h
    cases r with
    | next c₁ => exact (ih h).trans (entries_checkMember hr hk)
    | refused rsc _ => cases h
    | deep => cases h

theorem entries_validateGrpMember {depth : Nat} {grp : Obj} {mt : Int}
    (h : validateGrpMember g depth s grp csy mt = some (.next c)) (hk : k ≠ .mt) :
    Assoc.entries c.grp k = Assoc.entries grp k := by
  cases depth with
  | zero => cases h
  | succ depth => exact entries_checkMembers h hk

theorem entries_memberType {grp : Obj} (hk : k ≠ .mt) : Assoc.entries (memberType grp).1 k = Assoc.entries grp k := by
  unfold memberType
  split
  · exact Assoc.entries_add_ne (Ne.symm hk)
  · rfl

theorem entries_validateGrp {grp o : Obj} (hk : k ∉ [Attr.mt, .mtv, .mid, .aa]) (h : validateGrp g s grp = some (s', .ok o)) :
    Assoc.entries o k = Assoc.entries grp k := by
  simp only [List.mem_cons, List.not_mem_nil, or_false, not_or] at hk
  obtain ⟨hmt, hmtv, hmid, haa⟩ := hk
  unfold validateGrp at h
  split at h
  · cases h
  · split at h
    · cases h
      exact entries_memberType hmt
    · split at h
      · cases h
      · unfold checkedGrp at h
        obtain ⟨c, hc, h⟩ := Option.bind_eq_some_iff.mp h
        split at h
        · cases h
        · cases h
        · cases h
          unfold storeMembers
          rw [entries_validateAa haa, Assoc.entries_add_ne (Ne.symm hmid), Assoc.entries_del_ne (Ne.symm hmid),
            Assoc.entries_add_ne (Ne.symm hmtv), entries_validateGrpMember hc hmt, entries_memberType hmt]

end

/-! ## What the checks leave of the server -/

section

variable {g : GrpEnv} {s s' : Server} {now : CStr}

theorem looksUp_afterGrp (grp : Obj) : s.LooksUp now (afterGrp now s grp) := by
  unfold afterGrp
  split <;> exact Server.looksUp_afterChecks _ _

/-- `validate_grp` only looks resources up. -/
theorem looksUp_validateGrp {grp : Obj} {r : Except Resp Obj} (h : validateGrp g s grp = some (s', r)) :
    s.LooksUp g.now s' := by
  unfold validateGrp at h
  split at h
  · cases h
    exact .refl
  · split at h
    · cases h
      exact .refl
    · split at h
      · cases h
        exact looksUp_afterGrp grp
      · unfold checkedGrp at h
        obtain ⟨c, hc, h⟩ := Option.bind_eq_some_iff.mp h
        split at h
        · cases h
        · cases h
          exact looksUp_validateGrpMember hc rfl
        · cases h
          exact looksUp_validateGrpMember hc rfl

end

/-! ## Membership -/

namespace Server

variable {s s' : Server} {now grpUri : CStr}

/-- A node that is as before, its `memberOf` list and its counts apart. -/
structure Rejoined (n n' : RTNode) : Prop where
  id : n.id = n'.id
  ty : n'.ty = n.ty
  attrs : ∀ k ∉ [Attr.cni, .cbs], Assoc.entries n'.obj k = Assoc.entries n.obj k

theorem Rejoined.refl (n : RTNode) : Rejoined n n := ⟨rfl, rfl, fun _ _ => rfl⟩

theorem Rejoined.trans {n n' n'' : RTNode} (h : Rejoined n n') (h' : Rejoined n' n'') : Rejoined n n'' :=
  ⟨h.id.trans h'.id, h'.ty.trans h.ty, fun k hk => (h'.attrs k hk).trans (h.attrs k hk)⟩

theorem Rejoined.get {n n' : RTNode} (h : Rejoined n n') {k : Attr} (hk : k ∉ [Attr.cni, .cbs]) :
    n'.obj.get k = n.obj.get k := Assoc.get_congr (h.attrs k hk)

/-- The nodes are as before, `memberOf` lists and counts apart; expired ones may be gone. -/
structure OnlyMembership (s s' : Server) : Prop where
  tree : s.tree.Pruned Rejoined s'.tree
  nextId : s'.nextId = s.nextId

namespace OnlyMembership

theorem refl (s : Server) : s.OnlyMembership s := ⟨.refl Rejoined.refl _, rfl⟩

theorem trans {s'' : Server} (h : s.OnlyMembership s') (h' : s'.OnlyMembership s'') : s.OnlyMembership s'' :=
  ⟨h.tree.trans Rejoined.trans h'.tree, h'.nextId.trans h.nextId⟩

theorem nodupIds (h : s.OnlyMembership s') (hs : s.NodupIds) : s'.NodupIds :=
  (Forest.Pruned.keys RTNode.id Rejoined.id h.tree).nodup hs

theorem looksUp (hs : s.NodupIds) (h : s.LooksUp now s') : s.OnlyMembership s' := by
  refine ⟨(h.recounts hs).mono ?_, (h.spares hs).nextId⟩
  rintro n _ ⟨o, rfl, ho⟩
  exact ⟨rfl, rfl, ho⟩

theorem setMemberOf (s : Server) (p : Ptr) (l : List CStr) : s.OnlyMembership (s.setMemberOf p l) := by
  cases p with
  | inTree i => exact ⟨.modify Rejoined.refl _ fun _ _ _ => ⟨rfl, rfl, fun _ _ => rfl⟩, rfl⟩
  | null => exact refl s
  | loose _ _ => exact refl s

theorem foldl {α : Type} {f : Server → α → Server} (hf : ∀ (s : Server) (a : α), s.NodupIds → s.OnlyMembership (f s a))
    (l : List α) (hs : s.NodupIds) : s.OnlyMembership (l.foldl f s) := by
  induction l generalizing s with
  | nil => exact refl s
  | cons a l ih => exact (hf s a hs).trans (ih ((hf s a hs).nodupIds hs))

theorem joinGroup (hs : s.NodupIds) (mid : Json) : s.OnlyMembership (joinGroup now grpUri s mid) := by
  unfold Server.joinGroup
  split
  · exact refl s
  · rename_i addr _
    have hfind : s.OnlyMembership (s.findRtnode now addr).1 := looksUp hs (.find addr)
    dsimp only
    split
    · exact hfind
    · rename_i m _
      split
      · exact hfind
      · have hset := hfind.trans (setMemberOf (s.findRtnode now addr).1 (s.findRtnode now addr).2
          (m.memberOf ++ [grpUri]))
        split
        · exact hset
        · exact ⟨hset.tree, hset.nextId⟩

theorem setGrpMember {grp : RTNode} (hs : s.NodupIds) (h : s.setGrpMember now grp = some s') : s.OnlyMembership s' := by
  unfold Server.setGrpMember at h
  obtain ⟨-, -, rfl⟩ := Option.map_eq_some_iff.mp h
  exact foldl (fun s mid hs => joinGroup hs mid) _ hs

theorem leaveUnlisted {final : List CStr} (hs : s.NodupIds) (mid : Json) :
    s.OnlyMembership (leaveUnlisted now grpUri final s mid) := by
  unfold Server.leaveUnlisted
  split
  · exact refl s
  · split
    · exact refl s
    · rename_i addr _ _
      have hfind : s.OnlyMembership (s.findRtnode now addr).1 := looksUp hs (.find addr)
      dsimp only
      split
      · exact hfind
      · exact hfind.trans (setMemberOf _ _ _)

end OnlyMembership

end Server

end TinyIoT
