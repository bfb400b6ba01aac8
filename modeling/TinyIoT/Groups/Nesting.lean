/-
The check of a group's members ends where no path from stored group to stored group goes on for ever, and does
not end at a group that lists itself.
-/
import TinyIoT.Groups.Members
import TinyIoT.Server.Spared

namespace TinyIoT

/-! ## Groups that are looked up -/

section

variable {g : GrpEnv} {s : Server} {now r : CStr} {n : RTNode}

/-- A group that a lookup finds is in the tree. -/
theorem grp_of_findNode (h : (s.findNode now r).deref s = some n) (hty : n.ty = .grp) : n ∈ s.tree.nodes := by
  have hok := s.findNode_ok now r
  cases hp : s.findNode now r with
  | null =>
    rw [hp] at h
    cases h
  | inTree i =>
    rw [hp] at h
    exact (Server.node?_mem h).1
  | loose m p =>
    rw [hp] at h hok
    cases h
    rcases hok.2 with hi | hi | hi <;> exact absurd (hty.symm.trans hi) (by decide)

theorem plainId_iff : plainId r = true ↔ '/' ∉ r ∧ r ≠ cseBaseName ∧ r ≠ ['-'] := by
  unfold plainId
  simp [and_assoc]

theorem not_isPrefixOf {p : CStr} (hp : '/' ∈ p) (hr : '/' ∉ r) : p.isPrefixOf r = false := by
  by_contra h
  rw [Bool.not_eq_false, List.isPrefixOf_iff_prefix] at h
  exact hr (h.subset hp)

theorem addressingType_plain (hr : plainId r = true) : addressingType r = .cseRelative := by
  obtain ⟨h1, -, -⟩ := plainId_iff.mp hr
  unfold addressingType
  rw [not_isPrefixOf (by simp) h1, not_isPrefixOf (by simp) h1]
  simp only [Bool.false_eq_true, if_false, List.any_cons, List.any_nil, Bool.or_false]
  rw [not_isPrefixOf (by simp) h1, not_isPrefixOf (by simp) h1, not_isPrefixOf (by simp) h1,
    not_isPrefixOf (by simp) h1, not_isPrefixOf (by simp) h1, not_isPrefixOf (by simp) h1]
  rfl

/-- An identifier finds what carries it. -/
theorem ri_of_findNode (hs : s.NodupIds) (hr : plainId r = true) (h : (s.findNode now r).deref s = some n) : n.ri = some r := by
  obtain ⟨h1, h2, h3⟩ := plainId_iff.mp hr
  have hres : s.resolve r = s.findRtnodeByRi r := by
    unfold Server.resolve Server.isStructured
    rw [if_neg (by simp [h2, h3]), not_isPrefixOf (by simp) h1, not_isPrefixOf (by simp) h1]
    simp [h1]
  have hfind : (s.resolve r).deref s = some n := by
    unfold Server.findNode at h
    rcases Server.findRtnode_cases (s := s) now r with he | ⟨m, -, -, he⟩ | ⟨m, -, -, -, he⟩
    · rw [he] at h
      cases h
    · rw [he] at h
      exact h
    · rw [he] at h
      cases h
  rw [hres] at hfind
  unfold Server.findRtnodeByRi at hfind
  split at hfind
  · split at hfind
    · cases hfind
    · rename_i m hm
      cases hfind
      obtain ⟨o, hrow, ho⟩ := Option.bind_eq_some_iff.mp hm
      obtain ⟨row, hfound, rfl⟩ := Option.map_eq_some_iff.mp hrow
      have hri := List.find?_some hfound
      rw [Bool.and_eq_true, decide_eq_true_eq] at hri
      have hload : row.load.str .ri = row.ri := Obj.str_congr (get_load (by decide))
      have hnode : n.ri = row.load.str .ri := Obj.str_congr (Assoc.get_congr (entries_createRtnode ho (by decide)))
      exact hnode.trans (hload.trans hri.1)
  · split at hfind
    · cases hfind
    · rename_i m hm
      obtain ⟨hmem, hri⟩ := Forest.find?_mem hm
      obtain rfl : m = n := Option.some.inj ((Server.node?_eq hs hmem).symm.trans hfind)
      exact of_decide_eq_true hri

theorem localAddr_plain (hr : plainId r = true) : localAddr r = some r := by
  unfold localAddr
  rw [addressingType_plain hr]

theorem localAddr_foreign (hr : foreign r = true) : localAddr r = none := by
  unfold foreign at hr
  rw [Bool.and_eq_true, decide_eq_true_eq] at hr
  unfold localAddr
  rw [hr.1]
  simpa using hr.2

end

/-! ## What lookups leave of the groups -/

section

variable {now : CStr} {s s' : Server} {m : RTNode}

/-- A group that lookups on the way leave was there before, with the same identifier and members. -/
theorem grp_of_looksUp (hs : s.NodupIds) (h : s.LooksUp now s') (hm : m ∈ s'.tree.nodes) :
    ∃ n ∈ s.tree.nodes, n.id = m.id ∧ n.ty = m.ty ∧ n.ri = m.ri ∧ n.obj.arr .mid = m.obj.arr .mid := by
  obtain ⟨n, hn, o, rfl, ho⟩ := Forest.Pruned.mem (h.recounts hs) hm
  refine ⟨n, hn, rfl, rfl, (Obj.str_congr (Assoc.get_congr (ho .ri (by decide)))).symm, ?_⟩
  unfold Obj.arr
  rw [show n.obj.get .mid = o.get .mid from (Assoc.get_congr (ho .mid (by decide))).symm]

end

/-! ## The check ends -/

section

variable {g : GrpEnv} {s : Server} {n m : RTNode} {csy : Int} {l : List Json}

/-- What the check of a stored group enters is named by it. -/
theorem names_of_foundByFopt (hs : s.NodupIds) (hl : s.Listed) (hn : n ∈ s.tree.nodes) (hty : n.ty = .grp)
    (hm : m.ty = .grp) (h : FoundByFopt g s csyAbandonGroup (n.obj.arr .mid) m) :
    s.Names n.id m.id := by
  obtain ⟨e, he, mid, hmid, ⟨s', hs', hnamed⟩, hf⟩ := h
  have hf : isUriFopt mid = true := hf.resolve_right fun hstray => hstray.2.1 rfl
  obtain ⟨a, ha, hfind⟩ := Option.bind_eq_some_iff.mp hnamed
  have hlist := hl n hn hty e he
  unfold listable at hlist
  rw [hmid, Option.all_some, hf, Bool.not_true, Bool.false_or, Bool.or_eq_true] at hlist
  have hplain : plainId (memberAddr mid) = true := by
    refine hlist.resolve_right fun hfor => ?_
    rw [localAddr_foreign hfor] at ha
    cases ha
  obtain rfl : memberAddr mid = a := Option.some.inj ((localAddr_plain hplain).symm.trans ha)
  obtain ⟨k, hk, hid, hkty, hkri, -⟩ := grp_of_looksUp hs hs' (grp_of_findNode hfind hm)
  have hri := ri_of_findNode ((hs'.spares hs).nodupIds hs) hplain hfind
  refine ⟨n, hn, k, hk, rfl, hid, hty, hkty.trans hm, e, he, memberAddr mid, ?_, hkri.trans hri⟩
  unfold foptId
  rw [hmid, Option.bind_some, hf, hplain]
  rfl

/-- The check of this list ends: from some depth on the stack holds it. -/
def Ends (g : GrpEnv) (s : Server) (csy : Int) (grp : Obj) : Prop :=
  ∃ N, ∀ depth ≥ N, ∀ mt, validateGrpMember g depth s grp csy mt ≠ some .deep

/-- The check of a group with these members ends, whatever lookups have removed before. -/
def ListEnds (g : GrpEnv) (s : Server) (csy : Int) (l : List Json) : Prop :=
  ∃ N, ∀ depth ≥ N, ∀ s', s.LooksUp g.now s' → ∀ grp : Obj, grp.arr .mid = l → ∀ mt,
    validateGrpMember g depth s' grp csy mt ≠ some .deep

/-- A group of another CSE is not gone into further. -/
theorem ends_away (hg : g.Flat) (h : AwayByFopt g l m) (hm : m.ty = .grp) {depth : Nat} (hd : 1 ≤ depth)
    (mt : Int) : validateGrpMember g depth s m.obj csyAbandonGroup mt ≠ some .deep := by
  obtain ⟨depth, rfl⟩ := Nat.exists_eq_add_of_le' hd
  obtain ⟨-, -, mid, -, -, hrem⟩ := h
  intro hdeep
  have hplain := hg.members hrem hm
  rcases validateGrpMember_ends hg hdeep with ⟨-, -, ⟨⟩⟩ | ⟨-, x, -, -, ⟨-, hx⟩, -, -⟩ | ⟨-, ⟨⟩, -⟩
  rcases hx with ⟨e, he, mid', hmid, -, hf⟩ | ⟨e, he, mid', hmid, hf, -⟩
  · have hf : isUriFopt mid' = true := hf.resolve_right fun hstray => hstray.2.1 rfl
    rw [hplain e he mid' hmid] at hf
    cases hf
  · rw [hplain e he mid' hmid] at hf
    cases hf

/-- What is found after some lookups is found. -/
theorem FoundAs.of_looksUp {s' : Server} {mid : CStr} (hs : s.LooksUp g.now s') (h : FoundAs g s' mid n) :
    FoundAs g s mid n := by
  obtain ⟨s₁, hs₁, hn⟩ := h
  exact ⟨s₁, hs.trans hs₁, hn⟩

theorem FoundByFopt.of_looksUp {s' : Server} (hs : s.LooksUp g.now s') (h : FoundByFopt g s' csy l n) :
    FoundByFopt g s csy l n := by
  obtain ⟨e, he, mid, hmid, hn, hf⟩ := h
  exact ⟨e, he, mid, hmid, hn.of_looksUp hs, hf⟩

/-- A list whose groups of this CSE are checked to the end is checked to the end. -/
theorem ends_of_entered (hg : g.Flat) (hs : s.NodupIds)
    (h : ∀ m : RTNode, m.ty = .grp → FoundByFopt g s csy l m → ∀ k ∈ s.tree.nodes, k.id = m.id → k.ty = .grp →
      ListEnds g s csyAbandonGroup (k.obj.arr .mid)) : ListEnds g s csy l := by
  obtain ⟨N, hN⟩ := exists_common_bound (P := fun k depth => (∃ m : RTNode, m.ty = .grp ∧ FoundByFopt g s csy l m ∧ k.id = m.id) →
      k.ty = .grp → ∀ s', s.LooksUp g.now s' → ∀ grp : Obj, grp.arr .mid = k.obj.arr .mid → ∀ mt,
        validateGrpMember g depth s' grp csyAbandonGroup mt ≠ some .deep) s.tree.nodes fun k hk => by
    by_cases hin : (∃ m : RTNode, m.ty = .grp ∧ FoundByFopt g s csy l m ∧ k.id = m.id) ∧ k.ty = .grp
    · obtain ⟨⟨m, hty, hm, hid⟩, hkty⟩ := hin
      obtain ⟨N, hN⟩ := h m hty hm k hk hid hkty
      exact ⟨N, fun d hd _ _ => hN d hd⟩
    · exact ⟨0, fun d _ hm hty => absurd ⟨hm, hty⟩ hin⟩
  refine ⟨N + 2, fun depth hd s' hs' grp hgrp mt hdeep => ?_⟩
  obtain ⟨depth, rfl⟩ := Nat.exists_eq_add_of_le' (show 1 ≤ depth by omega)
  rcases validateGrpMember_ends hg hdeep with ⟨-, -, ⟨⟩⟩ | ⟨-, m, mt', s₁, ⟨hty, hm⟩, hs₁, hnest⟩ | ⟨-, ⟨⟩, -⟩
  rw [hgrp] at hm
  rcases hm with hm | hm
  · have hm := hm.of_looksUp hs'
    obtain ⟨e, he, mid, hmid, ⟨s₂, hs₂, hnamed⟩, hf⟩ := id hm
    obtain ⟨a, -, hfind⟩ := Option.bind_eq_some_iff.mp hnamed
    obtain ⟨k, hk, hid, hkty, -, hlist⟩ := grp_of_looksUp hs hs₂ (grp_of_findNode hfind hty)
    exact hN k hk depth (by omega) ⟨m, hty, hm, hid⟩ (hkty.trans hty) s₁ (hs'.trans hs₁) m.obj hlist.symm mt' hnest
  · exact ends_away hg hm hty (by omega) mt' hnest

/-- Where no path of groups goes on for ever, every list is checked to the end. -/
theorem ends_of_descends (hg : g.Flat) (hs : s.NodupIds) (hl : s.Listed) (hd : Descends s.Names) (grp : Obj) :
    Ends g s csy grp := by
  have hstored : ∀ i, ∀ n ∈ s.tree.nodes, n.id = i → n.ty = .grp → ListEnds g s csyAbandonGroup (n.obj.arr .mid) := by
    intro i
    induction i using hd.induct with
    | hP i ih =>
      rintro n hn rfl hty
      refine ends_of_entered hg hs fun m hmty hm k hk hid hkty => ?_
      have hnames := names_of_foundByFopt hs hl hn hty hmty hm
      exact ih m.id hnames k hk hid hkty
  obtain ⟨N, hN⟩ : ListEnds g s csy (grp.arr .mid) := ends_of_entered hg hs fun m _ _ k hk hid hkty =>
    hstored m.id k hk hid hkty
  exact ⟨N, fun depth hd' mt => hN depth hd' s .refl grp rfl mt⟩

end

end TinyIoT
