/-
What a policy grants an originator (`get_acop_origin`), said without its loops and early exits: the operations of
the rules that are for the originator, in whatever order rules and their entries stand. An entry with an asterisk is
compared by what stands before and after the first one, in two separate comparisons.
-/
import TinyIoT.Access.Contexts
import TinyIoT.Access.Decision
import Mathlib.Data.List.TakeWhile

namespace TinyIoT

/-! ## Unions, bit by bit -/

namespace Acop

/-- A union whose elements are all there has the bits of its elements. -/
theorem union_bits {α : Type} {f : α → Option Acop} {l : List α} (h : ∀ x ∈ l, (f x).isSome = true) :
    ∃ g, union f l = some g ∧ ∀ i, g.getLsbD i = true ↔ ∃ x ∈ l, ∃ a, f x = some a ∧ a.getLsbD i = true := by
  suffices hacc : ∀ acc : Acop, ∃ g, l.foldlM (fun acop x => (f x).map (acop ||| ·)) acc = some g ∧
      ∀ i, g.getLsbD i = true ↔ acc.getLsbD i = true ∨ ∃ x ∈ l, ∃ a, f x = some a ∧ a.getLsbD i = true by
    obtain ⟨g, hg, hbits⟩ := hacc 0
    refine ⟨g, hg, fun i => (hbits i).trans ?_⟩
    simp
  induction l with
  | nil =>
    intro acc
    exact ⟨acc, rfl, fun i => by simp⟩
  | cons x l ih =>
    intro acc
    obtain ⟨a, ha⟩ := Option.isSome_iff_exists.mp (h x List.mem_cons_self)
    obtain ⟨g, hg, hbits⟩ := ih (fun y hy => h y (List.mem_cons_of_mem _ hy)) (acc ||| a)
    refine ⟨g, ?_, fun i => (hbits i).trans ?_⟩
    · rw [List.foldlM_cons, ha]
      exact hg
    · rw [BitVec.getLsbD_or, Bool.or_eq_true]
      simp only [List.mem_cons, exists_eq_or_imp, ha, Option.some.injEq, exists_eq_left', or_assoc]

theorem eq_of_bits {a b : Acop} (h : ∀ i, a.getLsbD i = true ↔ b.getLsbD i = true) : a = b := by
  apply BitVec.eq_of_getLsbD_eq
  intro i _
  rw [Bool.eq_iff_iff]
  exact h i

end Acop

/-! ## Entries -/

namespace Server

/-- What an entry without the local prefix stands for: without an asterisk the originator itself, everybody, or the
members of a group; with one, every originator that begins and ends as the entry does. -/
inductive StandsFor (now : CStr) (s : Server) (origin : CStr) : CStr → Prop
  | name : '*' ∉ origin → StandsFor now s origin origin
  | everybody : StandsFor now s origin "all".toList
  | group {acor : CStr} : '*' ∉ acor → s.acorMatchesGroupMember now acor origin = true → StandsFor now s origin acor
  | pattern {front back : CStr} (w : CStr) : '*' ∉ front → origin = front ++ w ++ back →
      StandsFor now s origin (front ++ '*' :: back)

variable {now : CStr} {s : Server} {origin : CStr}

theorem split_asterisk {acor : CStr} (h : '*' ∈ acor) : ∃ front back, '*' ∉ front ∧ acor = front ++ '*' :: back ∧
    acor.takeWhile (fun c => decide (c ≠ '*')) = front ∧ (acor.dropWhile fun c => decide (c ≠ '*')).tail = back := by
  induction acor with
  | nil => cases h
  | cons c acor ih =>
    by_cases hc : c = '*'
    · subst hc
      exact ⟨[], acor, List.not_mem_nil, rfl, rfl, rfl⟩
    · rcases List.mem_cons.mp h with h | h
      · exact absurd h.symm hc
      obtain ⟨front, back, hno, rfl, ht, hd⟩ := ih h
      refine ⟨c :: front, back, ?_, rfl, ?_, ?_⟩
      · rintro (h | h)
        · exact hc rfl
        · exact hno ‹_›
      · rw [List.takeWhile_cons_of_pos (by simpa using hc), ht]
      · rw [List.dropWhile_cons_of_pos (by simpa using hc), hd]

theorem append_asterisk_inj {f f' b b' : CStr} (hf : '*' ∉ f) (hf' : '*' ∉ f') (h : f ++ '*' :: b = f' ++ '*' :: b') :
    f = f' ∧ b = b' := by
  induction f generalizing f' with
  | nil =>
    cases f' with
    | nil => exact ⟨rfl, (List.cons.inj h).2⟩
    | cons c f' => exact absurd (List.mem_cons.mpr (.inl (List.cons.inj h).1)) hf'
  | cons c f ih =>
    cases f' with
    | nil => exact absurd (List.mem_cons.mpr (.inl (List.cons.inj h).1.symm)) hf
    | cons c' f' =>
      obtain ⟨hc, h⟩ := List.cons.inj h
      obtain ⟨rfl, rfl⟩ := ih (fun hm => hf (List.mem_cons_of_mem _ hm)) (fun hm => hf' (List.mem_cons_of_mem _ hm)) h
      exact ⟨by rw [hc], rfl⟩

/-- The two comparisons of a pattern decide as it says when they do not overlap. -/
theorem acorMatches_iff {acor : CStr} (hfits : patternFits origin acor = true) :
    s.acorMatches now origin acor = true ↔ StandsFor now s origin (localOrigin acor) := by
  unfold acorMatches
  dsimp only
  unfold patternFits at hfits
  generalize localOrigin acor = entry at hfits ⊢
  by_cases hstar : '*' ∈ entry
  · rw [if_pos hstar]
    obtain ⟨front, back, hno, rfl, ht, hd⟩ := split_asterisk hstar
    dsimp only at hfits
    rw [ht, hd] at hfits
    rw [ht, hd, Bool.and_eq_true, List.isPrefixOf_iff_prefix, List.isSuffixOf_iff_suffix]
    constructor
    · rintro ⟨hfront, hback⟩
      have hlen : front.length + back.length ≤ origin.length := by
        rw [List.contains_iff_mem.mpr hstar, List.isPrefixOf_iff_prefix.mpr hfront, List.isSuffixOf_iff_suffix.mpr hback] at hfits
        simpa using hfits
      obtain ⟨l, hl⟩ := hfront
      obtain ⟨m, hm⟩ := hback
      -- the two ends meet within the originator
      have hpre : front <+: m := by
        refine List.prefix_of_prefix_length_le ⟨l, hl⟩ ⟨back, hm⟩ ?_
        have := congrArg List.length hm
        rw [List.length_append] at this
        omega
      obtain ⟨w, rfl⟩ := hpre
      exact .pattern w hno hm.symm
    · intro h
      generalize hentry : front ++ '*' :: back = e at h
      cases h with
      | name hname =>
        rw [← hentry] at hname
        simp at hname
      | everybody =>
        have : '*' ∈ "all".toList := by
          rw [← hentry]
          simp
        exact absurd this (by decide)
      | group hgroup _ =>
        rw [← hentry] at hgroup
        simp at hgroup
      | pattern w hno' horigin =>
        obtain ⟨rfl, rfl⟩ := append_asterisk_inj hno hno' hentry
        rw [horigin]
        exact ⟨⟨w ++ back, by rw [List.append_assoc]⟩, ⟨front ++ w, rfl⟩⟩
  · rw [if_neg hstar]
    simp only [Bool.or_eq_true, decide_eq_true_eq]
    constructor
    · rintro ((rfl | h) | rfl)
      · exact .name hstar
      · exact .group hstar h
      · exact .everybody
    · intro h
      cases h with
      | name => exact .inl (.inl rfl)
      | everybody => exact .inr rfl
      | group _ h => exact .inl (.inr h)
      | pattern w _ _ => simp at hstar

/-! ## Rules -/

/-- What `get_acop_origin` relies on in a rule: its entries and the addresses of its contexts are texts, and it has
operations. -/
structure Ruled (acr : Json) : Prop where
  entries : ∀ j ∈ originators acr, j.isString = true
  operations : (acr.member .acop).isSome = true
  addresses : ∀ acco ∈ acr.member .acco, ∀ j ∈ acco.items.flatMap contextEntries, j.isString = true

/-- A rule is for the originator, in the context of the request. -/
def Applies (now : CStr) (s : Server) (ip : Option CStr) (origin : CStr) (acr : Json) : Prop :=
  (∃ acor, .str acor ∈ originators acr ∧ StandsFor now s origin (localOrigin acor)) ∧
    checkAcco (acr.member .acco) ip = some true

/-- A rule has the bit of an operation. -/
def HasBit (acr : Json) (i : Nat) : Prop := ∃ acop ∈ acr.member .acop, (BitVec.ofInt 32 acop.valueint).getLsbD i = true

theorem isSome_checkAcco {acr : Json} (h : Ruled acr) (ip : Option CStr) : (checkAcco (acr.member .acco) ip).isSome = true := by
  unfold checkAcco
  cases hacco : acr.member .acco with
  | none => rfl
  | some acco =>
    cases ip with
    | none => rfl
    | some ip =>
      dsimp only
      split
      · rfl
      · rw [show (acco.items.flatMap fun c => (((c.member .acip).bind (Json.member · .ipv4)).map Json.items).getD []) =
          acco.items.flatMap contextEntries from rfl, anyString_of_texts (h.addresses acco hacco)]
        rfl

/-- A rule adds its operations when it applies, and nothing otherwise. -/
theorem ruleAcop_bits {acr : Json} {ip : Option CStr} (h : Ruled acr) (hfit : Fitting origin acr) :
    ∃ a, s.ruleAcop now ip origin acr = some a ∧
      ∀ i, a.getLsbD i = true ↔ s.Applies now ip origin acr ∧ HasBit acr i := by
  obtain ⟨acop, hacop⟩ := Option.isSome_iff_exists.mp h.operations
  obtain ⟨c, hc⟩ := Option.isSome_iff_exists.mp (isSome_checkAcco h ip)
  have hfor : ((originators acr).filterMap Json.valuestring).any (s.acorMatches now origin) = true ↔
      ∃ acor, .str acor ∈ originators acr ∧ StandsFor now s origin (localOrigin acor) := by
    rw [List.any_eq_true]
    constructor
    · rintro ⟨acor, hacor, hm⟩
      obtain ⟨j, hj, hv⟩ := List.mem_filterMap.mp hacor
      have hstr : j = .str acor := by
        cases j with
        | str x =>
          cases hv
          rfl
        | _ => cases hv
      rw [hstr] at hj
      exact ⟨acor, hj, (acorMatches_iff (hfit acor hj)).mp hm⟩
    · rintro ⟨acor, hacor, hs⟩
      exact ⟨acor, List.mem_filterMap.mpr ⟨_, hacor, rfl⟩, (acorMatches_iff (hfit acor hacor)).mpr hs⟩
  unfold Server.ruleAcop Applies HasBit
  rw [anyString_of_texts h.entries, hc, hacop, ← hfor]
  cases ((originators acr).filterMap Json.valuestring).any (s.acorMatches now origin) with
  | false => exact ⟨0, rfl, fun i => by simp⟩
  | true =>
    cases c with
    | false => exact ⟨0, rfl, fun i => by simp⟩
    | true => exact ⟨_, rfl, fun i => by simp⟩

/-- The same rule with its entries in another order. -/
structure SameRule (acr acr' : Json) : Prop where
  entries : (originators acr).Perm (originators acr')
  operations : acr'.member .acop = acr.member .acop
  contexts : acr'.member .acco = acr.member .acco

/-- The same rules in another order. -/
def SameRules (l l' : List Json) : Prop := ∃ m, l.Perm m ∧ List.Forall₂ SameRule m l'

theorem SameRule.ruled {acr acr' : Json} (h : SameRule acr acr') (hr : Ruled acr) : Ruled acr' :=
  ⟨fun j hj => hr.entries j (h.entries.mem_iff.mpr hj), h.operations ▸ hr.operations, h.contexts ▸ hr.addresses⟩

theorem SameRule.fitting {acr acr' : Json} (h : SameRule acr acr') (hf : Fitting origin acr) : Fitting origin acr' :=
  fun acor hacor => hf acor (h.entries.mem_iff.mpr hacor)

theorem SameRule.applies {acr acr' : Json} (h : SameRule acr acr') {ip : Option CStr} :
    s.Applies now ip origin acr' ↔ s.Applies now ip origin acr := by
  unfold Applies
  rw [h.contexts]
  simp only [h.entries.mem_iff]

theorem SameRule.hasBit {acr acr' : Json} (h : SameRule acr acr') (i : Nat) : HasBit acr' i ↔ HasBit acr i := by
  unfold HasBit
  rw [h.operations]

theorem SameRules.exists {l l' : List Json} (h : SameRules l l') : ∀ acr' ∈ l', ∃ acr ∈ l, SameRule acr acr' := by
  obtain ⟨m, hp, hf⟩ := h
  intro acr' hacr'
  obtain ⟨i, hi, rfl⟩ := List.getElem_of_mem hacr'
  have hi' : i < m.length := hf.length_eq ▸ hi
  exact ⟨m[i], hp.mem_iff.mpr (List.getElem_mem hi'), hf.get hi' hi⟩

theorem SameRules.exists' {l l' : List Json} (h : SameRules l l') : ∀ acr ∈ l, ∃ acr' ∈ l', SameRule acr acr' := by
  obtain ⟨m, hp, hf⟩ := h
  intro acr hacr
  obtain ⟨i, hi, rfl⟩ := List.getElem_of_mem (hp.mem_iff.mp hacr)
  have hi' : i < l'.length := hf.length_eq ▸ hi
  exact ⟨l'[i], List.getElem_mem hi', hf.get hi hi'⟩

/-- The rules of a privilege together. -/
theorem getAcopOrigin_bits {ip : Option CStr} {acp : RTNode} {self : Bool} (horigin : origin ≠ adminAeId)
    (hrules : ∀ acr ∈ rules acp.obj (if self then .pvs else .pv), Ruled acr ∧ Fitting origin acr) :
    ∃ g, s.getAcopOrigin now ip origin acp self = some g ∧ ∀ i, g.getLsbD i = true ↔
      ∃ acr ∈ rules acp.obj (if self then .pvs else .pv), s.Applies now ip origin acr ∧ HasBit acr i := by
  unfold Server.getAcopOrigin
  rw [if_neg horigin]
  obtain ⟨g, hg, hbits⟩ := Acop.union_bits (f := s.ruleAcop now ip origin)
    (l := rules acp.obj (if self then .pvs else .pv)) fun acr hacr => by
      obtain ⟨a, ha, -⟩ : ∃ a, s.ruleAcop now ip origin acr = some a ∧ _ := ruleAcop_bits (hrules acr hacr).1 (hrules acr hacr).2
      rw [ha]
      rfl
  refine ⟨g, hg, fun i => (hbits i).trans (exists_congr fun acr => and_congr_right fun hacr => ?_)⟩
  obtain ⟨a, ha, hb⟩ : ∃ a, s.ruleAcop now ip origin acr = some a ∧ _ := ruleAcop_bits (hrules acr hacr).1 (hrules acr hacr).2
  rw [ha, ← hb i]
  simp

/-- `get_acop_origin` grants the operations of the rules that are for the originator in this context, reads inside its
texts only, and leaves the CSE as it is. -/
def GrantsByRule (now : CStr) (s : Server) (ip : Option CStr) (origin : CStr) (acp : RTNode) (self : Bool) (g : Acop) : Prop :=
  Looking.getAcopOrigin now [] ip origin acp self s = some (g, s) ∧ ∀ i, g.getLsbD i = true ↔
    ∃ acr ∈ rules acp.obj (if self then .pvs else .pv), s.Applies now ip origin acr ∧ HasBit acr i

/-- What `get_acop_origin` returns for anybody but the administrator when no pattern overlaps itself in the originator:
the operations of the rules that are for it, in any order of the rules and of their entries. -/
theorem granted_iff_rule {ip : Option CStr} {acp : RTNode} {self : Bool} (horigin : origin ≠ adminAeId)
    (hrules : ∀ acr ∈ rules acp.obj (if self then .pvs else .pv), Ruled acr ∧ Fitting origin acr)
    (hset : ∀ addr ∈ groupRefs origin acp.obj (if self then .pvs else .pv), s.Settled now addr) :
    ∃ g, GrantsByRule now s ip origin acp self g ∧
      ∀ acp' : RTNode, SameRules (rules acp.obj (if self then .pvs else .pv)) (rules acp'.obj (if self then .pvs else .pv)) →
        GrantsByRule now s ip origin acp' self g := by
  obtain ⟨g, hg, hbits⟩ : ∃ g, s.getAcopOrigin now ip origin acp self = some g ∧ _ := getAcopOrigin_bits horigin hrules
  have hstill : Looking.Still True (Looking.getAcopOrigin now [] ip origin acp self) (s.getAcopOrigin now ip origin acp self) s :=
    Looking.still_getAcopOrigin (fun _ acr hacr => (hrules acr hacr).2) hset
  refine ⟨g, ⟨?_, hbits⟩, fun acp' hsame => ?_⟩
  · rw [hstill.eq trivial, hg]
    rfl
  have hrules' : ∀ acr ∈ rules acp'.obj (if self then .pvs else .pv), Ruled acr ∧ Fitting origin acr := by
    intro acr' hacr'
    obtain ⟨acr, hacr, hs⟩ := hsame.exists acr' hacr'
    exact ⟨hs.ruled (hrules acr hacr).1, hs.fitting (hrules acr hacr).2⟩
  have hset' : ∀ addr ∈ groupRefs origin acp'.obj (if self then .pvs else .pv), s.Settled now addr := by
    intro addr haddr
    obtain ⟨acr', hacr', haddr⟩ := List.mem_flatMap.mp haddr
    obtain ⟨acr, hacr, hs⟩ := hsame.exists acr' hacr'
    refine hset addr (List.mem_flatMap.mpr ⟨acr, hacr, ?_⟩)
    exact ((hs.entries.filterMap _).filter _).mem_iff.mpr haddr
  have hstill' : Looking.Still True (Looking.getAcopOrigin now [] ip origin acp' self)
      (s.getAcopOrigin now ip origin acp' self) s :=
    Looking.still_getAcopOrigin (fun _ acr hacr => (hrules' acr hacr).2) hset'
  obtain ⟨g', hg', hbits'⟩ : ∃ g, s.getAcopOrigin now ip origin acp' self = some g ∧ _ :=
    getAcopOrigin_bits horigin hrules'
  have hall : ∀ i, g'.getLsbD i = true ↔ g.getLsbD i = true := by
    refine fun i => (hbits' i).trans (Iff.trans ?_ (hbits i).symm)
    constructor
    · rintro ⟨acr', hacr', happ, hbit⟩
      obtain ⟨acr, hacr, hs⟩ := hsame.exists acr' hacr'
      exact ⟨acr, hacr, hs.applies.mp happ, (hs.hasBit i).mp hbit⟩
    · rintro ⟨acr, hacr, happ, hbit⟩
      obtain ⟨acr', hacr', hs⟩ := hsame.exists' acr hacr
      exact ⟨acr', hacr', hs.applies.mpr happ, (hs.hasBit i).mpr hbit⟩
  obtain rfl := Acop.eq_of_bits hall
  refine ⟨?_, hbits'⟩
  rw [hstill'.eq trivial, hg']
  rfl

/-- A policy that lets the originators between two ends create, and everybody retrieve; the rules as they stand, and the
other way round. -/
def gatePolicy (reversed : Bool) : RTNode :=
  let acrs := [acrEntry ["CNobody".toList, "C*ger".toList] 1, acrEntry ["all".toList] 2]
  ⟨2, .acp, "gate".toList, "TinyIoT/gate".toList, [(.pv, .obj [(.acr, .arr (if reversed then acrs.reverse else acrs))])], [],
    [], 0⟩

/-- A stranger gets the operations of both rules, in either order. -/
theorem granted_iff_rule_gate : ∃ (s : Server) (g : Acop),
    GrantsByRule firstDay.now s none "CStranger".toList (gatePolicy false) false g ∧
    GrantsByRule firstDay.now s none "CStranger".toList (gatePolicy true) false g := by
  have hrun : (boot firstDay).any (fun s => (groupRefs "CStranger".toList (gatePolicy false).obj .pv).all fun addr =>
      decide (s.Settled firstDay.now addr)) = true := by decide +kernel
  obtain ⟨s, -, hset⟩ := (Option.any_eq_true _ _).mp hrun
  have hrules : ∀ acr ∈ rules (gatePolicy false).obj .pv, Ruled acr ∧ Fitting "CStranger".toList acr := by
    intro acr hacr
    have htwo : rules (gatePolicy false).obj .pv =
        [acrEntry ["CNobody".toList, "C*ger".toList] 1, acrEntry ["all".toList] 2] := rfl
    have hentries : ∀ acors acop, originators (acrEntry acors acop) = acors.map .str := fun _ _ => rfl
    rw [htwo] at hacr
    have hone : ∀ acors acop, (∀ acor ∈ acors, patternFits "CStranger".toList acor = true) →
        Ruled (acrEntry acors acop) ∧ Fitting "CStranger".toList (acrEntry acors acop) := by
      intro acors acop hfits
      refine ⟨⟨fun j hj => ?_, rfl, fun acco hacco => ?_⟩, fun acor hacor => ?_⟩
      · rw [hentries] at hj
        obtain ⟨acor, -, rfl⟩ := List.mem_map.mp hj
        rfl
      · cases hacco
      · rw [hentries] at hacor
        obtain ⟨x, hx, he⟩ := List.mem_map.mp hacor
        cases he
        exact hfits _ hx
    rcases List.mem_cons.mp hacr with rfl | hacr
    · exact hone _ _ (by decide)
    · rw [List.mem_singleton.mp hacr]
      exact hone _ _ (by decide)
  obtain ⟨g, hg, hsame⟩ : ∃ g, GrantsByRule firstDay.now s none "CStranger".toList (gatePolicy false) false g ∧ _ :=
    granted_iff_rule (by decide) hrules fun addr haddr => of_decide_eq_true (List.all_eq_true.mp hset addr haddr)
  refine ⟨s, g, hg, hsame (gatePolicy true) ⟨_, (List.reverse_perm _).symm, ?_⟩⟩
  exact List.forall₂_same.mpr fun acr _ => ⟨List.Perm.refl _, rfl, rfl⟩

/-- A policy that lets the originators of one pattern do everything. -/
def patternPolicy (acor : String) : RTNode :=
  ⟨2, .acp, "pattern".toList, "TinyIoT/pattern".toList, [(.pv, .obj [(.acr, .arr [acrEntry [acor.toList] 63])])], [], [], 0⟩

/-- The originator `CAE` is granted what a rule for `CA*AE` has, although the two ends overlap in it, and for the
originator `AE` the comparison with what follows the asterisk in `*CAE` starts before its first character. -/
theorem not_granted_iff_rule_overlap : ∃ s, boot firstDay = some s ∧
    (∀ g, ¬ GrantsByRule firstDay.now s none "CAE".toList (patternPolicy "CA*AE") false g) ∧
    ∀ g, ¬ GrantsByRule firstDay.now s none "AE".toList (patternPolicy "*CAE") false g := by
  have hrun : (boot firstDay).any (fun s =>
      decide ((Looking.getAcopOrigin firstDay.now [] none "CAE".toList (patternPolicy "CA*AE") false s).map Prod.fst = some 63) &&
      (Looking.getAcopOrigin firstDay.now [] none "AE".toList (patternPolicy "*CAE") false s).isNone) = true := by
    decide +kernel
  obtain ⟨s, hs, h⟩ := (Option.any_eq_true _ _).mp hrun
  rw [Bool.and_eq_true, decide_eq_true_eq, Option.isNone_iff_eq_none] at h
  refine ⟨s, hs, fun g hg => ?_, fun g hg => ?_⟩
  · obtain ⟨hres, hbits⟩ := hg
    rw [hres] at h
    obtain rfl : g = 63 := by simpa using h.1
    obtain ⟨acr, hacr, ⟨⟨acor, hacor, hstands⟩, -⟩, -⟩ := (hbits 0).mp (by decide)
    have hone : rules (patternPolicy "CA*AE").obj .pv = [acrEntry ["CA*AE".toList] 63] := rfl
    rw [if_neg Bool.false_ne_true, hone, List.mem_singleton] at hacr
    subst hacr
    have hentries : originators (acrEntry ["CA*AE".toList] 63) = [.str "CA*AE".toList] := rfl
    rw [hentries, List.mem_singleton] at hacor
    cases hacor
    generalize hentry : localOrigin "CA*AE".toList = e at hstands
    have he : e = "CA".toList ++ '*' :: "AE".toList := by rw [← hentry]; decide
    generalize horigin : "CAE".toList = origin at hstands
    cases hstands with
    | name hno =>
      rw [← horigin] at he
      exact absurd he (by decide)
    | everybody => exact absurd he (by decide)
    | group hno _ =>
      rw [he] at hno
      exact absurd hno (by decide)
    | pattern w hno hsplit =>
      obtain ⟨rfl, rfl⟩ := append_asterisk_inj hno (by decide) he
      have hlen := congrArg List.length (horigin.trans hsplit)
      simp at hlen
  · rw [hg.1] at h
    cases h.2

end Server

end TinyIoT
