/-
What a deletion does to access rights. A deletion only takes nodes away and leaves the attributes the
access checks read as they are, except that a group loses members; so the policies an `acpi` still
finds grant at most what they granted, and a right can only appear where the `acpi` finds no policy
any more or finds another one.
-/
import TinyIoT.Access.Lookups
import TinyIoT.Server.Resolve
import TinyIoT.Server.Spared

namespace TinyIoT

/-! ## What a deletion leaves of a node -/

/-- The attributes `check_privilege` reads, besides the members of a group. -/
def policyAttrs : List Attr := [.acpi, .cr, .ri, .csi, .lnk, .ast, .at, .pv, .pvs]

/-- The attributes the access checks read are kept, and a group has no new member. -/
structure KinObj (o o' : Obj) : Prop where
  attrs : ∀ k ∈ policyAttrs, o'.get k = o.get k
  members : ∀ v l', o'.get .mid = some (.arr l') → l'.any (Json.isStr v) = true →
    ∃ l, o.get .mid = some (.arr l) ∧ l.any (Json.isStr v) = true

/-- The same node, as far as the access checks go. -/
structure Kin (n n' : RTNode) : Prop where
  id : n.id = n'.id
  ty : n'.ty = n.ty
  obj : KinObj n.obj n'.obj

theorem Kin.refl (n : RTNode) : Kin n n := ⟨rfl, rfl, fun _ _ => rfl, fun _ l' h hv => ⟨l', h, hv⟩⟩

/-- What a deletion spares is the same to the access checks. -/
theorem Kin.of_spared {n n' : RTNode} (h : Spared n n') : Kin n n' := by
  refine ⟨h.id, h.ty, fun k hk => Assoc.get_congr (h.obj.attrs k ?_), h.obj.members⟩
  have hdisj : ∀ k ∈ policyAttrs, k ∉ .mid :: deletionAttrs := by decide
  exact hdisj k hk

namespace Server

/-- Nodes are gone, and those left are the same to the access checks. -/
def Sheds (s s' : Server) : Prop := s.tree.Pruned Kin s'.tree

variable {s s' : Server} {now : CStr}

/-- Deleting a policy takes nodes away and leaves the others as they are to the access checks. -/
theorem sheds_deleteOnem2mResource (hs : s.NodupIds) {req : Req} {p : Ptr} {n : RTNode} {resp : Resp}
    (hp : p.deref s = some n) (hty : n.ty = .acp) (h : s.deleteOnem2mResource now req p = some (s', resp)) :
    s.Sheds s' :=
  (spares_deleteOnem2mResource hs hp (by rw [hty]; decide) h).tree.mono Kin.of_spared

theorem Sheds.node? (h : s.Sheds s') (hs : s.NodupIds) {i : Nat} {n' : RTNode} (hn : s'.node? i = some n') :
    ∃ n, s.node? i = some n ∧ Kin n n' := by
  obtain ⟨hn', hi⟩ := node?_mem hn
  obtain ⟨n, hn, hk⟩ := Forest.Pruned.mem h hn'
  refine ⟨n, ?_, hk⟩
  rw [← hi, ← hk.id]
  exact node?_eq hs hn

end Server

/-! ## Sets of operations -/

namespace Acop

/-- Every operation of `a` is one of `b`. -/
def Within (a b : Acop) : Prop := a ||| b = b

theorem Within.refl (a : Acop) : a.Within a := BitVec.or_self

theorem zero_within (a : Acop) : Within 0 a := BitVec.zero_or

theorem within_or_right (a b : Acop) : b.Within (a ||| b) := by
  unfold Within
  rw [BitVec.or_comm, BitVec.or_assoc, BitVec.or_self]

theorem within_or_left (a b : Acop) : a.Within (a ||| b) := by
  unfold Within
  rw [← BitVec.or_assoc, BitVec.or_self]

theorem Within.trans {a b c : Acop} (h : a.Within b) (h' : b.Within c) : a.Within c := by
  unfold Within at *
  rw [← h', ← BitVec.or_assoc, h]

theorem Within.or {a b c : Acop} (h : a.Within c) (h' : b.Within c) : (a ||| b).Within c := by
  unfold Within at *
  rw [BitVec.or_assoc, h', h]

theorem covers_mono {a b w : Acop} (h : a.Within b) (hc : a.covers w = true) : b.covers w = true := by
  unfold covers Within at *
  rw [decide_eq_true_eq] at *
  rw [← h, ← hc]
  ext i
  simp only [BitVec.getElem_and, BitVec.getElem_or]
  grind

/-- One step of the union. -/
theorem union_step {α : Type} {f : α → Option Acop} {l : List α} {x : α} {acc g : Acop}
    (h : (x :: l).foldlM (fun acop x => (f x).map (acop ||| ·)) acc = some g) :
    ∃ a, f x = some a ∧ l.foldlM (fun acop x => (f x).map (acop ||| ·)) (acc ||| a) = some g := by
  rw [List.foldlM_cons, Option.bind_eq_bind, Option.bind_eq_some_iff] at h
  obtain ⟨b, hb, h⟩ := h
  obtain ⟨a, ha, rfl⟩ := Option.map_eq_some_iff.mp hb
  exact ⟨a, ha, h⟩

/-- What one element grants is part of the union. -/
theorem within_union {α : Type} {f : α → Option Acop} {l : List α} {g : Acop} (h : union f l = some g) :
    ∀ x ∈ l, ∃ a, f x = some a ∧ a.Within g := by
  unfold union at h
  suffices hacc : ∀ acc, l.foldlM (fun acop x => (f x).map (acop ||| ·)) acc = some g →
      acc.Within g ∧ ∀ x ∈ l, ∃ a, f x = some a ∧ a.Within g from (hacc 0 h).2
  clear h
  induction l with
  | nil =>
    intro acc h
    cases h
    exact ⟨.refl _, fun x hx => absurd hx List.not_mem_nil⟩
  | cons x l ih =>
    intro acc h
    obtain ⟨a, ha, h⟩ := union_step h
    obtain ⟨hacc, hall⟩ := ih _ h
    refine ⟨(within_or_left acc a).trans hacc, fun y hy => ?_⟩
    rcases List.mem_cons.mp hy with rfl | hy
    · exact ⟨a, ha, (within_or_right acc a).trans hacc⟩
    · exact hall y hy

/-- The union is the least such set. -/
theorem union_within {α : Type} {f : α → Option Acop} {l : List α} {g b : Acop} (h : union f l = some g)
    (hb : ∀ x ∈ l, ∀ a, f x = some a → a.Within b) : g.Within b := by
  unfold union at h
  suffices hacc : ∀ acc : Acop, acc.Within b → l.foldlM (fun acop x => (f x).map (acop ||| ·)) acc = some g →
      g.Within b from hacc 0 (zero_within b) h
  clear h
  induction l with
  | nil =>
    intro acc hacc h
    cases h
    exact hacc
  | cons x l ih =>
    intro acc hacc h
    obtain ⟨a, ha, h⟩ := union_step h
    exact ih (fun y hy => hb y (List.mem_cons_of_mem _ hy)) _ (hacc.or (hb x List.mem_cons_self a ha)) h

end Acop

/-! ## What the policies grant -/

theorem anyString_mono {p q : CStr → Bool} {l : List Json} (hpq : ∀ j ∈ l, ∀ x, j.valuestring = some x → p x → q x)
    (h : anyString p l = some true) : anyString q l = some true := by
  induction l with
  | nil => cases h
  | cons j l ih =>
    unfold anyString at h ⊢
    simp only [Option.bind_eq_bind, Option.bind_eq_some_iff] at h ⊢
    obtain ⟨x, hx, h⟩ := h
    refine ⟨x, hx, ?_⟩
    by_cases hq : q x = true
    · rw [if_pos hq]
      rfl
    · rw [if_neg hq]
      rw [if_neg fun hp => hq (hpq j List.mem_cons_self x hx hp)] at h
      exact ih (fun j hj => hpq j (List.mem_cons_of_mem _ hj)) h

/-- The address leads to a node it did not lead to before. -/
def retargeted (now : CStr) (s s' : Server) (addr : CStr) : Bool :=
  (s'.findNode now addr).treeId.any fun i => (s.findNode now addr).treeId ≠ some i

namespace Server

section Grants

variable {s s' : Server} {now : CStr} {ip : Option CStr} {origin : CStr}

/-- What an address still leads to, it led to before. -/
theorem Sheds.find (h : s.Sheds s') (hs : s.NodupIds) {addr : CStr} {n' : RTNode} (hr : retargeted now s s' addr = false)
    (hn : (s'.findNode now addr).deref s' = some n') (hty : ¬ isInstance n'.ty) :
    ∃ n, (s.findNode now addr).deref s = some n ∧ Kin n n' := by
  have hok := findNode_ok (s := s') now addr
  cases hf : s'.findNode now addr with
  | null => rw [hf] at hn; cases hn
  | inTree i =>
    have hsame : s.findNode now addr = .inTree i := by
      have hi : (s'.findNode now addr).treeId = some i := by rw [hf]; rfl
      rw [retargeted, hi] at hr
      exact Ptr.eq_inTree (by simpa using hr)
    rw [hf] at hn
    rw [hsame]
    exact h.node? hs hn
  | loose m p =>
    rw [hf] at hn hok
    cases hn
    exact absurd hok.2 hty

theorem Sheds.acorMatches (h : s.Sheds s') (hs : s.NodupIds) {acor : CStr}
    (hr : asksGroup origin (localOrigin acor) = true → retargeted now s s' (localOrigin acor) = false) (hm : s'.acorMatches now origin acor = true) :
    s.acorMatches now origin acor = true := by
  unfold Server.acorMatches at hm ⊢
  dsimp only at hm ⊢
  split at hm
  · rename_i hstar
    rw [if_pos hstar]
    exact hm
  · rename_i hstar
    rw [if_neg hstar]
    simp only [Bool.or_eq_true, decide_eq_true_eq] at hm ⊢
    by_cases heq : localOrigin acor = origin
    · exact .inl (.inl heq)
    have hr := hr (by simp [asksGroup, hstar, heq])
    refine hm.imp_left (Or.imp_right fun hg => ?_)
    unfold acorMatchesGroupMember at hg ⊢
    split at hg
    · cases hg
    · rename_i grp' hgrp'
      split at hg
      · cases hg
      · rename_i hty
        rw [not_not] at hty
        obtain ⟨grp, hgrp, hk⟩ := h.find hs hr hgrp' (by rw [hty]; rintro (h | h | h) <;> cases h)
        split at hg
        · rename_i mid' hmid'
          obtain ⟨mid, hmid, hv⟩ := hk.obj.members _ _ hmid' hg
          simp only [hgrp, ← hk.ty, hty, ne_eq, not_true_eq_false, if_false, hmid]
          exact hv
        · cases hg

theorem Sheds.ruleAcop (h : s.Sheds s') (hs : s.NodupIds) {acr : Json} {a a' : Acop}
    (hr : ∀ j ∈ originators acr, ∀ x, j.valuestring = some x → asksGroup origin (localOrigin x) = true →
      retargeted now s s' (localOrigin x) = false)
    (ha : s.ruleAcop now ip origin acr = some a) (ha' : s'.ruleAcop now ip origin acr = some a') : a'.Within a := by
  unfold Server.ruleAcop at ha ha'
  simp only [Option.bind_eq_bind, Option.bind_eq_some_iff] at ha ha'
  obtain ⟨m', hm', ha'⟩ := ha'
  cases m' with
  | false =>
    cases ha'
    exact Acop.zero_within a
  | true =>
    -- the rule still is for the originator, so it was before
    have hm := anyString_mono (fun j hj x hx hp => h.acorMatches hs (hr j hj x hx) hp) hm'
    obtain ⟨m, hm₀, ha⟩ := ha
    cases hm.symm.trans hm₀
    cases ha.symm.trans ha'
    exact .refl a

theorem Sheds.getAcopOrigin (h : s.Sheds s') (hs : s.NodupIds) {acp acp' : RTNode} (self : Bool) {a a' : Acop}
    (hk : Kin acp acp') (hr : ∀ x ∈ groupRefs origin acp'.obj (if self then .pvs else .pv), retargeted now s s' x = false)
    (ha : s.getAcopOrigin now ip origin acp self = some a)
    (ha' : s'.getAcopOrigin now ip origin acp' self = some a') : a'.Within a := by
  have hrules : rules acp'.obj (if self then .pvs else .pv) = rules acp.obj (if self then .pvs else .pv) := by
    unfold rules
    rw [hk.obj.attrs _ (by cases self <;> decide)]
  unfold Server.getAcopOrigin at ha ha'
  split at ha
  · rename_i hadmin
    rw [if_pos hadmin] at ha'
    cases ha
    cases ha'
    exact .refl _
  · rename_i hadmin
    rw [if_neg hadmin] at ha'
    rw [← hrules] at ha
    refine Acop.union_within ha' fun acr hacr b' hb' => ?_
    obtain ⟨b, hb, hw⟩ := Acop.within_union ha acr hacr
    refine (h.ruleAcop hs (fun j hj x hx hasks => hr _ ?_) hb hb').trans hw
    exact List.mem_flatMap.mpr ⟨acr, hacr, List.mem_filter.mpr ⟨List.mem_filterMap.mpr ⟨j, hj, by rw [hx]; rfl⟩, hasks⟩⟩

/-- A policy a list still finds, it found before. -/
theorem Sheds.policyNodes (h : s.Sheds s') (hs : s.NodupIds) {l : List Json} {acp' : RTNode}
    (hr : ∀ x ∈ l.filterMap Json.valuestring, retargeted now s s' x = false) (hm : acp' ∈ s'.policyNodes now l) :
    ∃ acp ∈ s.policyNodes now l, Kin acp acp' := by
  unfold Server.policyNodes at hm ⊢
  obtain ⟨j, hj, hp⟩ := List.mem_filterMap.mp hm
  unfold policyNode at hp
  split at hp
  · cases hp
  · rename_i addr haddr
    split at hp
    · cases hp
    · rename_i n' hn'
      split at hp
      · rename_i hty
        cases hp
        obtain ⟨n, hn, hk⟩ := h.find hs (hr addr (List.mem_filterMap.mpr ⟨j, hj, haddr⟩)) hn'
          (by rw [hty]; rintro (h | h | h) <;> cases h)
        refine ⟨n, List.mem_filterMap.mpr ⟨j, hj, ?_⟩, hk⟩
        unfold policyNode
        simp only [haddr, hn, ← hk.ty, hty, if_true]
      · cases hp

theorem Sheds.unionAcop (h : s.Sheds s') (hs : s.NodupIds) {l : List Json} {a a' : Acop}
    (hr : ∀ x ∈ l.filterMap Json.valuestring, retargeted now s s' x = false)
    (hg : ∀ acp ∈ s'.policyNodes now l, ∀ x ∈ groupRefs origin acp.obj .pv, retargeted now s s' x = false)
    (ha : s.unionAcop now ip origin (s.policyNodes now l) = some a)
    (ha' : s'.unionAcop now ip origin (s'.policyNodes now l) = some a') : a'.Within a := by
  refine Acop.union_within ha' fun acp' hacp' b' hb' => ?_
  obtain ⟨acp, hacp, hk⟩ := h.policyNodes hs hr hacp'
  obtain ⟨b, hb, hw⟩ := Acop.within_union ha acp hacp
  exact (h.getAcopOrigin hs false hk (hg acp' hacp') hb hb').trans hw

/-- What a node's policies grant after nodes have gone they granted before, unless none is found any
more and the default takes over. -/
theorem Sheds.getAcop (h : s.Sheds s') (hs : s.NodupIds) {n n' : RTNode} {a a' : Acop} (hk : Kin n n')
    (hr : ∀ x ∈ s'.acopRefs now origin n', retargeted now s s' x = false) (ha : s.getAcop now ip origin n = some a)
    (ha' : s'.getAcop now ip origin n' = some a') :
    a'.Within a ∨ (s'.policyNodes now (n'.obj.arr .acpi) = [] ∧ a' = .fallback) := by
  unfold acopRefs at hr
  have hacpi := hk.obj.attrs .acpi (by decide)
  unfold Server.getAcop at ha ha'
  split at ha
  · rename_i hadmin
    rw [if_pos hadmin] at ha'
    cases ha
    cases ha'
    exact .inl (.refl _)
  rename_i hadmin
  rw [if_neg hadmin, hk.ty] at ha'
  rw [hk.ty] at hr
  split at ha
  · rename_i hty
    rw [if_pos hty] at ha' hr
    exact .inl (h.getAcopOrigin hs true hk hr ha ha')
  rename_i hty
  rw [if_neg hty] at ha' hr
  unfold Obj.arr at hr ⊢
  rw [hacpi] at ha' hr ⊢
  cases hget : n.obj.get .acpi with
  | none =>
    simp only [hget] at ha ha'
    cases ha
    cases ha'
    exact .inl (.refl _)
  | some acpi =>
    simp only [hget, Option.map_some, Option.getD_some, List.mem_append, List.mem_flatMap] at ha ha' hr ⊢
    split at ha'
    · rename_i hnil
      cases ha'
      exact .inr ⟨hnil, rfl⟩
    · have hr₁ : ∀ x ∈ acpi.items.filterMap Json.valuestring, retargeted now s s' x = false := fun x hx => hr x (.inl hx)
      have hr₂ : ∀ acp ∈ s'.policyNodes now acpi.items, ∀ x ∈ groupRefs origin acp.obj .pv, retargeted now s s' x = false :=
        fun acp hacp x hx => hr x (.inr ⟨acp, hacp, hx⟩)
      split at ha
      · -- a policy found now was found before
        rename_i hne _ hnil
        obtain ⟨acp', hacp'⟩ := List.exists_mem_of_ne_nil _ hne
        obtain ⟨acp, hacp, -⟩ := h.policyNodes hs hr₁ hacp'
        rw [hnil] at hacp
        cases hacp
      · exact .inl (h.unionAcop hs hr₁ hr₂ ha ha')

end Grants

end Server

/-! ## Which policy governs -/

/-- The resource a pointer names still has its place in the tree. -/
def Ptr.Alive (s : Server) : Ptr → Prop
  | .null => False
  | .inTree i => (s.node? i).isSome = true
  | .loose _ p => p.Alive s

/-- The search for the governing policy ends in the same place. -/
inductive SamePolicy : Policy → Policy → Prop
  | acpi {n n' : RTNode} : Kin n n' → SamePolicy (.acpi n) (.acpi n')
  | owner {n n' : RTNode} : Kin n n' → SamePolicy (.owner n) (.owner n')
  | creator : SamePolicy .creator .creator

theorem governing_kin {l l' : List RTNode} (h : List.Forall₂ Kin l l') : SamePolicy (governing l) (governing l') := by
  induction h with
  | nil => exact .creator
  | @cons n n' l l' hk _ ih =>
    have hacpi : n'.obj.has .acpi = n.obj.has .acpi := congrArg Option.isSome (hk.obj.attrs .acpi (by decide))
    unfold governing
    rw [hacpi, hk.ty]
    split
    · exact .acpi hk
    · split
      · exact .owner hk
      · exact ih

namespace Server

variable {s s' : Server} {now : CStr}

theorem Sheds.deref (h : s.Sheds s') (hs : s.NodupIds) {q : Ptr} {n' : RTNode} (hn : q.deref s' = some n') :
    ∃ n, q.deref s = some n ∧ Kin n n' := by
  cases q with
  | null => cases hn
  | inTree i => exact h.node? hs hn
  | loose m p =>
    cases hn
    exact ⟨n', rfl, .refl n'⟩

theorem Sheds.ancestry (h : s.Sheds s') (hs : s.NodupIds) {q : Ptr} (hq : q.Alive s') :
    List.Forall₂ Kin (s.ancestry q) (s'.ancestry q) := by
  induction q with
  | null => exact hq.elim
  | inTree i =>
    obtain ⟨n', hn'⟩ := Option.isSome_iff_exists.mp hq
    obtain ⟨hm, hi⟩ := node?_mem hn'
    obtain ⟨l', hl'⟩ := Forest.path?_exists (p := RTNode.hasId i) hm (hasId_iff.mpr hi)
    obtain ⟨l, hl, hall⟩ := Forest.Pruned.path? RTNode.id Kin.id (fun _ => hasId_iff) h hs hl'
    unfold Server.ancestry
    rw [hl, hl']
    exact hall
  | loose m p ih => exact .cons (.refl m) (ih hq)

/-- The shortcuts of `check_privilege` look at kept attributes only. -/
theorem shortcut_kin {n n' : RTNode} (hk : Kin n n') (req : Req) (origin : CStr) (acop : Acop) :
    shortcut req origin acop n' = shortcut req origin acop n := by
  have hcsi := Obj.str_congr (hk.obj.attrs .csi (by decide))
  have hlnk := Obj.str_congr (hk.obj.attrs .lnk (by decide))
  have hast := hk.obj.attrs .ast (by decide)
  have hat : n'.obj.arr .at = n.obj.arr .at := by
    unfold Obj.arr
    rw [hk.obj.attrs .at (by decide)]
  unfold shortcut
  rw [hk.ty, hcsi, hlnk, hast, hat]

theorem Sheds.policyAllows (h : s.Sheds s') (hs : s.NodupIds) {req : Req} {origin : CStr} {wanted : Acop} {q : Ptr}
    {n n' : RTNode} (hk : Kin n n') (hq : q.Alive s')
    (hden : s.policyAllows now req origin wanted q n = some false)
    (hgr : s'.policyAllows now req origin wanted q n' = some true) :
    ∃ m', governing (s'.ancestry q) = .acpi m' ∧
      ((s'.policyNodes now (m'.obj.arr .acpi) = [] ∧ Acop.fallback.covers wanted = true) ∨
       ∃ addr ∈ s'.acopRefs now origin m', retargeted now s s' addr = true) := by
  have hgov := governing_kin (h.ancestry hs hq)
  unfold Server.policyAllows at hden hgr
  generalize governing (s.ancestry q) = pol at hden hgov
  generalize governing (s'.ancestry q) = pol' at hgr hgov ⊢
  cases hgov with
  | @acpi m m' hm =>
    refine ⟨m', rfl, ?_⟩
    obtain ⟨a, ha, hden⟩ := Option.map_eq_some_iff.mp hden
    obtain ⟨a', ha', hgr⟩ := Option.map_eq_some_iff.mp hgr
    by_cases hr : ∃ addr ∈ s'.acopRefs now origin m', retargeted now s s' addr = true
    · exact .inr hr
    · have hr : ∀ addr ∈ s'.acopRefs now origin m', retargeted now s s' addr = false := by simpa using hr
      rcases h.getAcop hs hm hr ha ha' with hw | ⟨hnil, rfl⟩
      · have := Acop.covers_mono hw hgr
        rw [hden] at this
        cases this
      · exact .inl ⟨hnil, hgr⟩
  | @owner m m' hm =>
    have hri : m'.ri = m.ri := Obj.str_congr (hm.obj.attrs .ri (by decide))
    simp only [hri] at hgr
    cases hden.symm.trans hgr
  | creator =>
    have hcr := Obj.str_congr (hk.obj.attrs .cr (by decide))
    simp only [hcr] at hgr
    cases hden.symm.trans hgr

/-- The `acpi` that governs a resource finds no policy, and what is wanted is in the default. -/
def defaultOpen (now : CStr) (s : Server) (q : Ptr) (req : Req) (acop : Acop) : Bool :=
  match governing (s.ancestry q) with
  | .acpi m => (s.policyNodes now (m.obj.arr .acpi)).isEmpty && Acop.fallback.covers (wantedAcop req acop)
  | _ => false

/-- An address that decides about a resource leads to another node than before. -/
def redirected (now : CStr) (s s' : Server) (req : Req) (q : Ptr) : Bool :=
  (q.deref s').any fun n' => (s'.decisionRefs now req.fr q n').any (retargeted now s s')

/-- Where a right can appear when nodes go. -/
theorem Sheds.checkPrivilege (h : s.Sheds s') (hs : s.NodupIds) {req : Req} {acop : Acop} {q : Ptr} (hq : q.Alive s')
    (hden : s.checkPrivilege now req q acop = some false) (hgr : s'.checkPrivilege now req q acop = some true) :
    s'.defaultOpen now q req acop = true ∨ s.redirected now s' req q = true := by
  unfold Server.checkPrivilege at hden hgr
  cases hn' : q.deref s' with
  | none => simp [hn'] at hgr
  | some n' =>
    obtain ⟨n, hn, hk⟩ := h.deref hs hn'
    simp only [hn, hn', normalizedOriginator_eq] at hden hgr
    split at hden
    · cases hden
    rename_i hadmin
    rw [if_neg hadmin] at hgr
    split at hden
    · rename_i hfr
      rw [if_pos hfr, hden] at hgr
      cases hgr
    rename_i hfr
    rw [if_neg hfr] at hgr
    rw [hk.ty] at hgr
    split at hden
    · rename_i hty
      rw [if_pos hty] at hgr
      have hrefs : s'.decisionRefs now req.fr q n' = groupRefs req.fr n'.obj .pvs := if_pos (hk.ty.trans hty)
      obtain ⟨a, ha, hden⟩ := Option.map_eq_some_iff.mp hden
      obtain ⟨a', ha', hgr⟩ := Option.map_eq_some_iff.mp hgr
      refine .inr ?_
      unfold redirected
      rw [hn', Option.any_some, hrefs]
      by_contra hr
      have hr : ∀ x ∈ groupRefs req.fr n'.obj .pvs, retargeted now s s' x = false := by simpa using hr
      have := Acop.covers_mono (h.getAcopOrigin hs true hk hr ha ha') hgr
      rw [hden] at this
      cases this
    · rename_i hty
      rw [if_neg hty, shortcut_kin hk] at hgr
      simp only [Option.bind_eq_bind, Option.bind_eq_some_iff] at hden hgr
      obtain ⟨b, hb, hden⟩ := hden
      obtain ⟨b', hb', hgr⟩ := hgr
      cases hb.symm.trans hb'
      cases b with
      | true => cases hden
      | false =>
        obtain ⟨m', hm', hcase⟩ := h.policyAllows hs hk hq hden hgr
        rcases hcase with ⟨hnil, hcov⟩ | hr
        · refine .inl ?_
          unfold defaultOpen
          rw [hm']
          simp [hnil, hcov]
        · refine .inr ?_
          unfold redirected decisionRefs governingRefs
          rw [hn', Option.any_some, hk.ty, if_neg hty, hm']
          exact List.any_eq_true.mpr hr

end Server

/-! ## Deleting a policy -/

/-- A reference that decides about a resource, before or after, names an expired resource. -/
def looksExpired (now : CStr) (s s' : Server) (q : Ptr) (req : Req) : Bool :=
  !s.looksSettled now req.fr q || !s'.looksSettled now req.fr q

/-- Deleting a policy gives nobody a right to a resource that is left, except in the cases `spared`. -/
def RightsKept (spared : CStr → Server → Server → Ptr → Req → Acop → Bool) : Prop :=
  ∀ now s s' dreq resp p acp q req acop, s.NodupIds → p.deref s = some acp → acp.ty = .acp →
    s.deleteOnem2mResource now dreq p = some (s', resp) → q.Alive s' →
    s.privileged now req q acop = some false → spared now s s' q req acop = false →
    s'.privileged now req q acop ≠ some true

/-- Whoever gets a right by the deletion of a policy gets no more than the default, on a resource whose
`acpi` finds no policy any more, or gets it from a policy or group that an address now leads to instead
of another, or one of the addresses looked up names an expired resource. -/
theorem denied_after_delete_acp {now : CStr} {s s' : Server} {dreq req : Req} {resp : Resp} {p q : Ptr} {acp : RTNode}
    {acop : Acop} (hs : s.NodupIds) (hp : p.deref s = some acp) (hty : acp.ty = .acp)
    (hdel : s.deleteOnem2mResource now dreq p = some (s', resp)) (hq : q.Alive s')
    (hden : s.privileged now req q acop = some false) (hopen : s'.defaultOpen now q req acop = false)
    (hred : s.redirected now s' req q = false) (hexp : looksExpired now s s' q req = false) :
    s'.privileged now req q acop ≠ some true := by
  intro hgr
  unfold looksExpired at hexp
  rw [Bool.or_eq_false_iff, Bool.not_eq_false', Bool.not_eq_false'] at hexp
  have hden := Server.privileged_settled hexp.1 hden
  have hgr := Server.privileged_settled hexp.2 hgr
  rcases (Server.sheds_deleteOnem2mResource hs hp hty hdel).checkPrivilege hs hq hden hgr with h | h
  · rw [hopen] at h; cases h
  · rw [hred] at h; cases h

/-- A policy for the originators `acor`, under the CSEBase or another parent. -/
def policyFor (id : Nat) (rn ri pi : String) (acor : CStr) : Option RTNode :=
  createRtnode id [(.rn, .str rn.toList), (.ri, .str ri.toList), (.pi, .str pi.toList),
    (.pv, .obj [(.acr, .arr [acrEntry [acor] allAcop])]), (.pvs, .obj [(.acr, .arr [acrEntry [adminAeId] allAcop])])] .acp

/-- A container with an `acpi`. -/
def containerUnder (id : Nat) (rn ri : String) (acpi : List String) : Option RTNode :=
  createRtnode id [(.rn, .str rn.toList), (.ri, .str ri.toList), (.pi, .str cseBaseRi),
    (.acpi, .arr (acpi.map fun addr => .str addr.toList))] .cnt

/-- Two policies, one that lets everybody in and one that lets only the administrator in, and two
containers: one under the second policy, one whose `acpi` is the address of the first child of the
CSEBase. -/
def guardedContainers : Option Server := do
  let s ← boot firstDay
  let cb ← s.node? 0
  let s := s.addChildResourceTree cb (← policyFor 2 "open" "1-1" "tinyiot" "all".toList)
  let s := s.addChildResourceTree cb (← policyFor 3 "locked" "1-2" "tinyiot" adminAeId)
  let s := s.addChildResourceTree cb (← containerUnder 4 "c" "3-1" ["TinyIoT/locked"])
  return s.addChildResourceTree cb (← containerUnder 5 "d" "3-2" ["-/"])

/-- An expired AE with a policy for everybody below it, a policy for that AE, and a container under both. -/
def shadedContainer : Option Server := do
  let s ← boot firstDay
  let cb ← s.node? 0
  let ae ← createRtnode 2 [(.rn, .str "a".toList), (.ri, .str "CAE1".toList), (.pi, .str cseBaseRi),
    (.et, .str "20000101T000000".toList)] .ae
  let s := s.addChildResourceTree cb ae
  let s := s.addChildResourceTree ae (← policyFor 3 "open" "1-1" "CAE1" "all".toList)
  let s := s.addChildResourceTree cb (← policyFor 4 "owner" "1-2" "tinyiot" "CAE1".toList)
  return s.addChildResourceTree cb (← containerUnder 5 "c" "3-1" ["1-2", "1-1"])

/-- A request of a stranger. -/
def strangerReq (op : Operation) (ty : ResourceType) : Req := { op := op, fr := "CStranger".toList, target := [], ty := ty.code }

theorem denied_after_delete_acp_retrieve : ∃ s s', guardedContainers = some s ∧
    s.deleteOnem2mResource firstDay.now (adminReq .delete "TinyIoT/locked" .acp []) (.inTree 3) = some (s', done .deleted) ∧
    s'.privileged firstDay.now (strangerReq .retrieve .cnt) (.inTree 4) .retrieve ≠ some true := by
  have hrun : guardedContainers.any (fun s => ((Ptr.inTree 3).deref s).any fun acp =>
      decide s.NodupIds && decide (acp.ty = .acp) &&
      decide (s.privileged firstDay.now (strangerReq .retrieve .cnt) (.inTree 4) .retrieve = some false) &&
      (s.deleteOnem2mResource firstDay.now (adminReq .delete "TinyIoT/locked" .acp []) (.inTree 3)).any fun r =>
        decide (r.2 = done .deleted) && (r.1.node? 4).isSome &&
        !r.1.defaultOpen firstDay.now (.inTree 4) (strangerReq .retrieve .cnt) .retrieve &&
        !s.redirected firstDay.now r.1 (strangerReq .retrieve .cnt) (.inTree 4) &&
        !looksExpired firstDay.now s r.1 (.inTree 4) (strangerReq .retrieve .cnt)) = true := by decide +kernel
  obtain ⟨s, hs, h⟩ := (Option.any_eq_true _ _).mp hrun
  obtain ⟨acp, hacp, h⟩ := (Option.any_eq_true _ _).mp h
  rw [Bool.and_eq_true] at h
  obtain ⟨⟨s', resp⟩, hdel, h'⟩ := (Option.any_eq_true _ _).mp h.2
  simp only [Bool.and_eq_true, Bool.not_eq_true', decide_eq_true_eq] at h h'
  obtain ⟨⟨⟨⟨rfl, halive⟩, hopen⟩, hred⟩, hexp⟩ := h'
  exact ⟨s, s', hs, hdel, denied_after_delete_acp h.1.1.1 hacp h.1.1.2 hdel halive h.1.2 hopen hred hexp⟩

/-- A policy is deleted and a stranger is let in who was not before: at an address that is left without
a policy, where the default applies; at one that now is the address of another policy; and where the deleted policy
named an expired resource, whose removal took another policy away. -/
theorem new_right_after_delete_acp :
    ¬ RightsKept (fun _ _ _ _ _ _ => false) ∧ ¬ RightsKept (fun now _ s' q req acop => s'.defaultOpen now q req acop) ∧
    ¬ RightsKept (fun now s s' q req acop => s'.defaultOpen now q req acop || s.redirected now s' req q) := by
  have hrun : guardedContainers.any (fun s => ((Ptr.inTree 3).deref s).any fun locked =>
      ((Ptr.inTree 1).deref s).any fun first =>
      decide s.NodupIds && decide (locked.ty = .acp) && decide (first.ty = .acp) &&
      decide (s.privileged firstDay.now (strangerReq .create .cin) (.inTree 4) .create = some false) &&
      decide (s.privileged firstDay.now (strangerReq .retrieve .cnt) (.inTree 5) .retrieve = some false) &&
      ((s.deleteOnem2mResource firstDay.now (adminReq .delete "TinyIoT/locked" .acp []) (.inTree 3)).any fun r =>
        (r.1.node? 4).isSome &&
        decide (r.1.privileged firstDay.now (strangerReq .create .cin) (.inTree 4) .create = some true)) &&
      (s.deleteOnem2mResource firstDay.now (adminReq .delete "TinyIoT/defaultACP" .acp []) (.inTree 1)).any fun r =>
        (r.1.node? 5).isSome && !r.1.defaultOpen firstDay.now (.inTree 5) (strangerReq .retrieve .cnt) .retrieve &&
        decide (r.1.privileged firstDay.now (strangerReq .retrieve .cnt) (.inTree 5) .retrieve = some true)) = true := by
    decide +kernel
  have hshaded : shadedContainer.any (fun s => ((Ptr.inTree 4).deref s).any fun owner =>
      decide s.NodupIds && decide (owner.ty = .acp) &&
      decide (s.privileged firstDay.now (strangerReq .retrieve .cnt) (.inTree 5) .retrieve = some false) &&
      (s.deleteOnem2mResource firstDay.now (adminReq .delete "TinyIoT/owner" .acp []) (.inTree 4)).any fun r =>
        (r.1.node? 5).isSome && !(r.1.defaultOpen firstDay.now (.inTree 5) (strangerReq .retrieve .cnt) .retrieve ||
          s.redirected firstDay.now r.1 (strangerReq .retrieve .cnt) (.inTree 5)) &&
        decide (r.1.privileged firstDay.now (strangerReq .retrieve .cnt) (.inTree 5) .retrieve = some true)) = true := by
    decide +kernel
  obtain ⟨s, -, h⟩ := (Option.any_eq_true _ _).mp hrun
  obtain ⟨locked, hlocked, h⟩ := (Option.any_eq_true _ _).mp h
  obtain ⟨first, hfirst, h⟩ := (Option.any_eq_true _ _).mp h
  rw [Bool.and_eq_true, Bool.and_eq_true] at h
  obtain ⟨⟨h, h₁⟩, h₂⟩ := h
  simp only [Bool.and_eq_true, decide_eq_true_eq] at h
  obtain ⟨⟨⟨⟨hnd, hty₁⟩, hty₂⟩, hden₁⟩, hden₂⟩ := h
  refine ⟨?_, ?_, ?_⟩
  · intro hall
    obtain ⟨⟨s', resp⟩, hdel, h₁⟩ := (Option.any_eq_true _ _).mp h₁
    simp only [Bool.and_eq_true, decide_eq_true_eq] at h₁
    exact hall _ _ _ _ _ _ _ (.inTree 4) _ _ hnd hlocked hty₁ hdel h₁.1 hden₁ rfl h₁.2
  · intro hall
    obtain ⟨⟨s', resp⟩, hdel, h₂⟩ := (Option.any_eq_true _ _).mp h₂
    simp only [Bool.and_eq_true, Bool.not_eq_true', decide_eq_true_eq] at h₂
    exact hall _ _ _ _ _ _ _ (.inTree 5) _ _ hnd hfirst hty₂ hdel h₂.1.1 hden₂ h₂.1.2 h₂.2
  · intro hall
    obtain ⟨s, -, h⟩ := (Option.any_eq_true _ _).mp hshaded
    obtain ⟨owner, howner, h⟩ := (Option.any_eq_true _ _).mp h
    rw [Bool.and_eq_true] at h
    obtain ⟨h, h₃⟩ := h
    simp only [Bool.and_eq_true, decide_eq_true_eq] at h
    obtain ⟨⟨hnd, hty⟩, hden⟩ := h
    obtain ⟨⟨s', resp⟩, hdel, h₃⟩ := (Option.any_eq_true _ _).mp h₃
    simp only [Bool.and_eq_true, Bool.not_eq_true', decide_eq_true_eq] at h₃
    exact hall _ _ _ _ _ _ _ (.inTree 5) _ _ hnd howner hty hdel h₃.1.1 hden h₃.1.2 h₃.2

end TinyIoT
