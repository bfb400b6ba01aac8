/-
What `validate_grp_member` makes of a list of members: no resource twice, in the order of the request, of one
type, each of them found; and that the loop reads no node but the one it has just looked up. The list is
compared with the bare identifier only, so a resource listed by its `fopt` can come again; and with the
strategy 0, which `validate_grp` lets through, a member that is not there is taken for what `rt_node` still holds.
-/
import TinyIoT.Lib.Listing
import TinyIoT.Groups.Members
import TinyIoT.Server.Boot

namespace TinyIoT

/-! ## The members found -/

section

variable (g : GrpEnv) (s : Server)

/-- The node a member names, and whether it is of another CSE. -/
def resolved (mid : CStr) : Option (RTNode × Bool) :=
  if foreign (memberAddr mid) then (g.remote (memberAddr mid)).toOption.map fun n => (n, true)
  else (namedNode g s mid).map fun n => (n, false)

/-- A member with the node it names, in the state it is looked up in, and the identifier that node is listed by. -/
structure Pick where
  mid : CStr
  server : Server
  node : RTNode
  isRemote : Bool
  id : CStr
  found : resolved g server mid = some (node, isRemote)
  named : memberId isRemote node = some id

/-- The member as it is listed. -/
def Pick.entry {g : GrpEnv} (p : Pick g) : CStr :=
  if isUriFopt p.mid then p.id ++ "/fopt".toList else p.id

def pick? (entry : Json) : Option (Pick g) :=
  entry.valuestring.bind fun mid => (resolved g s mid).attach.bind fun found =>
    (memberId found.1.2 found.1.1).attach.map fun id => ⟨mid, s, found.1.1, found.1.2, id.1, found.2, id.2⟩

end

/-- A nested group refused for the types of its members. -/
def refusesType : Option Checked → Bool
  | some (.refused .groupmemberTypeInconsistent _) => true
  | _ => false

/-- The tests a node passes under a strategy: of its own type, and of the types in a group named by its `fopt`. -/
def fitsNode (nested : Obj → Int → Option Checked) (csy mt : Int) (fopt : Bool) (n : RTNode) : Bool :=
  (csy == csySetMixed || fopt || mt == ResourceType.mixed.code || n.ty.code == mt) &&
    !(csy == csyAbandonMember && fopt && n.ty == .grp && refusesType (nested n.obj mt))

def Pick.fits {g : GrpEnv} (nested : Server → Obj → Int → Option Checked) (csy mt : Int) (p : Pick g) : Bool :=
  fitsNode (nested p.server) csy mt (isUriFopt p.mid) p.node

/-- The members of a request that are found and pass the tests, as the loop comes to them with its variables as in
`c`: what it finds expired on the way is gone for those that come after. -/
def fitting (g : GrpEnv) (nested : Server → Obj → Int → Option Checked) (csy : Int) : Checking → List Json → List (Pick g)
  | _, [] => []
  | c, entry :: l => (pick? g c.server entry).toList.filter (Pick.fits nested csy c.mt) ++
      match checkMember g nested csy c entry with
      | some (.next c') => fitting g nested csy c' l
      | _ => []

/-! ## What the check is for -/

section

variable (g : GrpEnv) (s : Server)

/-- The list the check leaves, with the type it leaves the group. -/
structure WellListed (grp : Obj) (mt : Int) (c : Checking) : Prop where
  listing : ∃ ps : List (Pick g), c.final = ps.map Pick.entry ∧ (∀ p ∈ ps, s.LooksUp g.now p.server) ∧
    (ps.map fun p => some p.mid).Sublist ((grp.arr .mid).map Json.valuestring) ∧ (ps.map Pick.id).Nodup ∧
    (c.mt ≠ ResourceType.mixed.code → ∀ p ∈ ps, isUriFopt p.mid = false → p.node.ty.code = c.mt)
  mt : (c.grp = grp ∧ c.mt = mt) ∨ (c.grp = setMixed grp ∧ c.mt = ResourceType.mixed.code)

/-- The calls the check makes of itself. -/
def nestedCheck (depth : Nat) (s : Server) (grp : Obj) (mt : Int) : Option Checked :=
  validateGrpMember g depth s grp csyAbandonGroup mt

/-- The loop comes to a member with its variables as in `c`. -/
def Checks (depth : Nat) (grp : Obj) (csy mt : Int) (mid : CStr) (c : Checking) : Prop :=
  ∃ l₁ entry l₂, grp.arr .mid = l₁ ++ entry :: l₂ ∧ entry.valuestring = some mid ∧
    checkMembers g (nestedCheck g depth) csy l₁ ⟨s, grp, mt, .unset, []⟩ = some (.next c)

/-- What is read as the node of a member, here or in a group named by its `fopt`, and the state it is looked up in. -/
inductive Reads : Nat → Server → Obj → Int → Int → Server → CStr → MemberVar → Bool → Prop
  | own {depth : Nat} {s : Server} {grp : Obj} {csy mt : Int} {mid : CStr} {c : Checking} {v : MemberVar} {b : Bool} :
    Checks g s depth grp csy mt mid c → (seekMember g c.server csy c.rtNode (memberAddr mid)).2 = .held v b →
      Reads (depth + 1) s grp csy mt c.server mid v b
  | deeper {depth : Nat} {s s₁ : Server} {grp : Obj} {csy mt : Int} {mid : CStr} {c : Checking} {n : RTNode} {b : Bool}
    {there : Server} {m : CStr} {v : MemberVar} {b' : Bool} :
    Checks g s depth grp csy mt mid c → seekMember g c.server csy c.rtNode (memberAddr mid) = (s₁, .held (.node n) b) →
      isUriFopt mid = true → n.ty = .grp → Reads depth s₁ n.obj csyAbandonGroup c.mt there m v b' →
      Reads (depth + 1) s grp csy mt there m v b'

/-- The check reads each member's own node, and what it accepts is well listed. -/
structure Validated (depth : Nat) (grp : Obj) (csy mt : Int) : Prop where
  reads : ∀ {there mid v b}, Reads g depth s grp csy mt there mid v b → ∃ n, v = .node n ∧ resolved g there mid = some (n, b)
  lists : ∀ {c}, validateGrpMember g depth s grp csy mt = some (.next c) → WellListed g s grp mt c

/-- Where the check does what it is for: with a strategy of no meaning every member the loop comes to is there,
and a resource that passes the tests twice in an accepted request is named without its `fopt` first. -/
structure Orderly (depth : Nat) (grp : Obj) (csy mt : Int) : Prop where
  there : strayCsy csy → ∀ {mid c}, Checks g s depth grp csy mt mid c → (resolved g c.server mid).isSome
  plainFirst : ∀ {c}, validateGrpMember g (depth + 1) s grp csy mt = some (.next c) →
    KeyedFirst Pick.id Pick.entry [] (fitting g (nestedCheck g depth) csy ⟨s, grp, mt, .unset, []⟩ (grp.arr .mid))

end

/-! ## The members of a request -/

section

variable {g : GrpEnv} {s : Server} {entry : Json} {p q : Pick g} {mid : CStr} {n : RTNode} {b : Bool}
  {nested : Server → Obj → Int → Option Checked} {csy : Int} {c c' : Checking} {l l' : List Json}

theorem pick?_some (h : pick? g s entry = some p) : entry.valuestring = some p.mid ∧ p.server = s := by
  obtain ⟨mid, hmid, h⟩ := Option.bind_eq_some_iff.mp h
  obtain ⟨found, -, h⟩ := Option.bind_eq_some_iff.mp h
  obtain ⟨id, -, rfl⟩ := Option.map_eq_some_iff.mp h
  exact ⟨hmid, rfl⟩

theorem pick?_eq (entry : Json) (p : Pick g) (h : entry.valuestring = some p.mid) : pick? g p.server entry = some p := by
  unfold pick?
  rw [h, Option.bind_some, Option.attach_eq_some _ ⟨(p.node, p.isRemote), p.found⟩, Option.bind_some,
    Option.attach_eq_some _ ⟨p.id, p.named⟩]
  rfl

theorem pick?_none (h : entry.valuestring = some mid) (hr : resolved g s mid = none) : pick? g s entry = none := by
  cases hp : pick? g s entry with
  | none => rfl
  | some p =>
    obtain ⟨hmid, rfl⟩ := pick?_some hp
    obtain rfl : mid = p.mid := Option.some.inj (h.symm.trans hmid)
    rw [p.found] at hr
    cases hr

theorem pick?_unnamed (h : entry.valuestring = some mid) (hr : resolved g s mid = some (n, b)) (hn : memberId b n = none) :
    pick? g s entry = none := by
  cases hp : pick? g s entry with
  | none => rfl
  | some p =>
    obtain ⟨hmid, rfl⟩ := pick?_some hp
    obtain rfl : mid = p.mid := Option.some.inj (h.symm.trans hmid)
    obtain ⟨hnode, hrem⟩ := Prod.mk.inj (Option.some.inj (hr.symm.trans p.found))
    rw [hnode, hrem, p.named] at hn
    cases hn

theorem fitting_cons : fitting g nested csy c (entry :: l) =
    (pick? g c.server entry).toList.filter (Pick.fits nested csy c.mt) ++
      match checkMember g nested csy c entry with
      | some (.next c') => fitting g nested csy c' l
      | _ => [] := rfl

theorem fitting_next (h : checkMember g nested csy c entry = some (.next c')) : fitting g nested csy c (entry :: l) =
    (pick? g c.server entry).toList.filter (Pick.fits nested csy c.mt) ++ fitting g nested csy c' l := by
  rw [fitting_cons, h]

/-- One member alone. -/
theorem fitting_one :
    fitting g nested csy c [entry] = (pick? g c.server entry).toList.filter (Pick.fits nested csy c.mt) := by
  rw [fitting_cons]
  split
  · exact List.append_nil _
  · exact List.append_nil _

theorem fitting_of_pick (h : pick? g c.server entry = some p) :
    fitting g nested csy c [entry] = if p.fits nested csy c.mt then [p] else [] := by
  rw [fitting_one, h, Option.toList_some, List.filter_cons, List.filter_nil]

theorem fitting_of_none (h : pick? g c.server entry = none) : fitting g nested csy c [entry] = [] := by
  rw [fitting_one, h]
  rfl

/-- The loop gets past a member. -/
theorem checkMembers_cons (h : checkMembers g nested csy (entry :: l) c = some (.next c')) :
    ∃ c₁, checkMember g nested csy c entry = some (.next c₁) ∧ checkMembers g nested csy l c₁ = some (.next c') := by
  unfold checkMembers at h
  obtain ⟨r, hr, h⟩ := Option.bind_eq_some_iff.mp h
  cases r with
  | refused rsc s => cases h
  | deep => cases h
  | next c₁ => exact ⟨c₁, hr, h⟩

theorem fitting_append (h : checkMembers g nested csy l c = some (.next c')) :
    fitting g nested csy c (l ++ l') = fitting g nested csy c l ++ fitting g nested csy c' l' := by
  induction l generalizing c with
  | nil =>
    cases h
    rfl
  | cons entry l ih =>
    obtain ⟨c₁, h₁, h⟩ := checkMembers_cons h
    rw [List.cons_append, fitting_next h₁, fitting_next h₁, ih h, List.append_assoc]

/-- Where a fitting member comes from: an entry that names it, in a state the loop passes. -/
theorem mem_fitting (hn : OnlyLooks g.now nested) (h : p ∈ fitting g nested csy c l) :
    (∃ e ∈ l, e.valuestring = some p.mid) ∧ c.server.LooksUp g.now p.server := by
  induction l generalizing c with
  | nil => cases h
  | cons entry l ih =>
    rw [fitting_cons, List.mem_append] at h
    rcases h with h | h
    · obtain ⟨hmid, hs⟩ := pick?_some (Option.mem_toList.mp (List.mem_of_mem_filter h))
      exact ⟨⟨entry, List.mem_cons_self, hmid⟩, hs ▸ .refl⟩
    · split at h
      · rename_i c₁ h₁
        obtain ⟨⟨e, he, hmid⟩, hs⟩ := ih h
        exact ⟨⟨e, List.mem_cons_of_mem _ he, hmid⟩, (looksUp_checkMember hn h₁ rfl).trans hs⟩
      · cases h

theorem fitting_mids : ((fitting g nested csy c l).map fun p => some p.mid).Sublist (l.map Json.valuestring) := by
  induction l generalizing c with
  | nil => exact List.Sublist.refl _
  | cons entry l ih =>
    have hrest : (((match checkMember g nested csy c entry with
        | some (.next c') => fitting g nested csy c' l
        | _ => []) : List (Pick g)).map fun p => some p.mid).Sublist (l.map Json.valuestring) := by
      split
      · exact ih
      · exact List.nil_sublist _
    rw [fitting_cons, List.map_append, List.map_cons]
    cases hp : pick? g c.server entry with
    | none => exact hrest.cons _
    | some p =>
      rw [Option.toList_some, List.filter_cons, List.filter_nil]
      split
      · rw [List.map_cons, List.map_nil, (pick?_some hp).1]
        exact hrest.cons_cons _
      · exact hrest.cons _

end

/-! ## The lookup -/

section

variable {g : GrpEnv} {s : Server} {csy : Int} {prev : MemberVar} {mid : CStr} {n : RTNode} {b : Bool}

theorem foreign_iff {addr : CStr} :
    foreign addr = true ↔ addressingType addr = .spRelative ∧ isSpRelativeLocal addr = false := by
  unfold foreign
  rw [Bool.and_eq_true, decide_eq_true_eq, Bool.not_eq_true']

theorem seekMember_resolved (h : resolved g s mid = some (n, b)) :
    seekMember g s csy prev (memberAddr mid) = (s, .held (.node n) b) := by
  have hlocal (a : CStr) (ha : (s.findNode g.now a).deref s = some n) :
      seekLocal g s csy a = (s, .held (.node n) false) := by
    rcases seekLocal_cases g s csy a with ⟨m, hm, he⟩ | ⟨hm, -⟩
    · cases hm.symm.trans ha
      exact he
    · cases hm.symm.trans ha
  unfold resolved at h
  unfold seekMember
  by_cases hf : foreign (memberAddr mid) = true
  · rw [if_pos hf] at h
    obtain ⟨m, hm, heq⟩ := Option.map_eq_some_iff.mp h
    cases heq
    obtain ⟨hty, hl⟩ := foreign_iff.mp hf
    rw [hty]
    dsimp only
    rw [hl]
    cases hrem : g.remote (memberAddr mid) with
    | error r =>
      rw [hrem] at hm
      cases hm
    | ok m' =>
      rw [hrem] at hm
      cases hm
      rfl
  · rw [if_neg hf] at h
    obtain ⟨m, hm, heq⟩ := Option.map_eq_some_iff.mp h
    cases heq
    obtain ⟨a, ha, hfind⟩ := Option.bind_eq_some_iff.mp hm
    unfold localAddr at ha
    cases hty : addressingType (memberAddr mid) with
    | cseRelative =>
      rw [hty] at ha
      cases ha
      exact hlocal _ hfind
    | spRelative =>
      rw [hty] at ha
      dsimp only at ha ⊢
      split at ha
      · rename_i hl
        cases ha
        rw [if_pos hl]
        exact hlocal _ hfind
      · cases ha
    | absolute =>
      rw [hty] at ha
      cases ha
    | protocolBinding =>
      rw [hty] at ha
      cases ha

/-- A member that is not there is answered by the strategy alone. -/
theorem seekMember_unresolved (csy : Int) (prev : MemberVar) (h : resolved g s mid = none) :
    ∃ s' rsc v b, seekMember g s csy prev (memberAddr mid) = (s', seekFailed csy rsc v b) := by
  unfold resolved at h
  unfold seekMember
  have hlocal (a : CStr) (ha : localAddr (memberAddr mid) = some a) (hf : foreign (memberAddr mid) = false) :
      seekLocal g s csy a = ((s.findRtnode g.now a).1, seekFailed csy .badRequest .null false) := by
    rw [hf, if_neg (by decide), Option.map_eq_none_iff] at h
    unfold namedNode at h
    rw [ha, Option.bind_some] at h
    rcases seekLocal_cases g s csy a with ⟨m, hm, -⟩ | ⟨-, he⟩
    · cases hm.symm.trans h
    · exact he
  unfold localAddr at hlocal
  cases hty : addressingType (memberAddr mid) with
  | cseRelative =>
    rw [hty] at hlocal
    exact ⟨_, _, _, _, hlocal _ rfl (by unfold foreign; rw [hty]; rfl)⟩
  | spRelative =>
    rw [hty] at hlocal
    dsimp only at hlocal ⊢
    split
    · rename_i hl
      rw [if_pos hl] at hlocal
      exact ⟨_, _, _, _, hlocal _ rfl (by unfold foreign; rw [hl]; simp)⟩
    · rename_i hl
      rw [if_pos (foreign_iff.mpr ⟨hty, by simpa using hl⟩), Option.map_eq_none_iff] at h
      cases hrem : g.remote (memberAddr mid) with
      | error r => exact ⟨_, _, _, _, rfl⟩
      | ok n =>
        rw [hrem] at h
        cases h
  | absolute => exact ⟨_, _, _, _, rfl⟩
  | protocolBinding => exact ⟨_, _, _, _, rfl⟩

theorem seekFailed_cases (csy : Int) (rsc : Rsc) (v : MemberVar) (b : Bool) :
    (strayCsy csy ∧ seekFailed csy rsc v b = .held v b) ∨
      ¬strayCsy csy ∧ (seekFailed csy rsc v b = .refused rsc ∨ seekFailed csy rsc v b = .skipped v) := by
  unfold seekFailed strayCsy
  by_cases h2 : csy = csyAbandonGroup
  · exact .inr ⟨fun h => h.2.1 h2, .inl (if_pos h2)⟩
  · rw [if_neg h2]
    by_cases h13 : csy = csyAbandonMember ∨ csy = csySetMixed
    · rw [if_pos h13]
      exact .inr ⟨fun h => h13.elim h.1 h.2.2, .inr rfl⟩
    · rw [if_neg h13]
      rw [not_or] at h13
      exact .inl ⟨⟨h13.1, h2, h13.2⟩, rfl⟩

/-- With a strategy of a meaning, only the node the member names is held. -/
theorem seekMember_own {v : MemberVar} (hs : strayCsy csy → (resolved g s mid).isSome)
    (h : (seekMember g s csy prev (memberAddr mid)).2 = .held v b) : ∃ n, v = .node n ∧ resolved g s mid = some (n, b) := by
  cases hr : resolved g s mid with
  | some found =>
    obtain ⟨n, b'⟩ := found
    rw [seekMember_resolved hr] at h
    cases h
    exact ⟨n, rfl, rfl⟩
  | none =>
    rw [hr] at hs
    obtain ⟨s', rsc, v', b', hseek⟩ := seekMember_unresolved csy prev hr
    rw [hseek] at h
    dsimp only at h
    rcases seekFailed_cases csy rsc v' b' with ⟨hstray, -⟩ | ⟨-, h' | h'⟩
    · exact absurd (hs hstray) (by decide)
    · rw [h'] at h
      cases h
    · rw [h'] at h
      cases h

end

/-! ## One member -/

/-- What a member leaves of the group and its type: as they were, or mixed. -/
def Retyped (csy : Int) (c c' : Checking) : Prop :=
  (c'.grp = c.grp ∧ c'.mt = c.mt) ∨
    (csy = csySetMixed ∧ c.mt ≠ ResourceType.mixed.code ∧ c'.grp = setMixed c.grp ∧ c'.mt = ResourceType.mixed.code)

section

variable {g : GrpEnv} {nested : Server → Obj → Int → Option Checked} {csy : Int} {c c' : Checking} {fopt b : Bool}
  {n : RTNode}

/-- The type test, with the strategy's own answer where it fails. -/
theorem fitType_cases (csy : Int) (fopt : Bool) (c : Checking) (n : RTNode) :
    (fitType csy fopt c n = .on c ∧ (fopt = true ∨ c.mt = ResourceType.mixed.code ∨ n.ty.code = c.mt)) ∨
      fopt = false ∧ c.mt ≠ ResourceType.mixed.code ∧ n.ty.code ≠ c.mt ∧
        ((csy = csyAbandonGroup ∧ ∃ rsc, fitType csy fopt c n = .refuse rsc c) ∨
          (csy = csySetMixed ∧ fitType csy fopt c n = .on { c with grp := setMixed c.grp, mt := ResourceType.mixed.code }) ∨
          (csy ≠ csyAbandonGroup ∧ csy ≠ csySetMixed ∧ fitType csy fopt c n = .skip c)) := by
  unfold fitType
  split
  · rename_i h
    simp only [Bool.and_eq_true, Bool.not_eq_true', decide_eq_true_eq] at h
    obtain ⟨⟨hf, hmt⟩, hty⟩ := h
    refine .inr ⟨hf, hmt, hty, ?_⟩
    by_cases h2 : csy = csyAbandonGroup
    · rw [if_pos h2]
      exact .inl ⟨h2, _, rfl⟩
    · rw [if_neg h2]
      by_cases h3 : csy = csySetMixed
      · rw [if_pos h3]
        exact .inr (.inl ⟨h3, rfl⟩)
      · rw [if_neg h3]
        exact .inr (.inr ⟨h2, h3, rfl⟩)
  · rename_i h
    simp only [Bool.and_eq_true, Bool.not_eq_true', decide_eq_true_eq, not_and, not_not] at h
    refine .inl ⟨rfl, ?_⟩
    cases fopt with
    | true => exact .inl rfl
    | false =>
      by_cases hmt : c.mt = ResourceType.mixed.code
      · exact .inr (.inl hmt)
      · exact .inr (.inr (h ⟨rfl, hmt⟩))

/-- The test of a nested group. -/
theorem fitGroup_refuses {fit : Fit} (h : fitGroup nested csy fopt b c n = some fit) :
    (∃ rsc c₁, fit = .refuse rsc c₁) ∨ fit = .deep ∨
      (∃ s₁, fit = .skip { c with server := s₁ } ∧ csy = csyAbandonMember ∧ fopt = true ∧ n.ty = .grp ∧
        refusesType (nested c.server n.obj c.mt) = true) ∨
      (∃ s₁, fit = .on { c with server := s₁ } ∧
        ¬(csy = csyAbandonMember ∧ fopt = true ∧ n.ty = .grp ∧ refusesType (nested c.server n.obj c.mt) = true)) := by
  unfold fitGroup at h
  split at h
  · rename_i hf
    rw [Bool.and_eq_true, decide_eq_true_eq] at hf
    obtain ⟨r, hr, h⟩ := Option.bind_eq_some_iff.mp h
    rw [hr]
    dsimp only at h
    obtain rfl : nestedFit csy c r = fit := by
      split at h
      · exact Option.some.inj h
      · cases h
    cases r with
    | deep => exact .inr (.inl rfl)
    | next c₁ => exact .inr (.inr (.inr ⟨_, rfl, fun hc => by cases hc.2.2.2⟩))
    | refused rsc s₁ =>
      unfold nestedFit
      split
      · rename_i heq
        cases heq
      · rename_i heq
        cases heq
        split
        · exact .inl ⟨_, _, rfl⟩
        · split
          · rename_i h1
            exact .inr (.inr (.inl ⟨_, rfl, h1, hf.1, hf.2, rfl⟩))
          · rename_i h1
            exact .inr (.inr (.inr ⟨_, rfl, fun hc => h1 hc.1⟩))
      · rename_i hne heq
        cases heq
        refine .inr (.inr (.inr ⟨_, rfl, fun hc => ?_⟩))
        have href := hc.2.2.2
        unfold refusesType at href
        split at href
        · rename_i heq
          cases heq
          exact hne rfl
        · cases href
      · rename_i heq
        cases heq
  · rename_i hf
    cases h
    rw [Bool.and_eq_true, decide_eq_true_eq] at hf
    exact .inr (.inr (.inr ⟨c.server, rfl, fun hc => hf ⟨hc.2.1, hc.2.2.1⟩⟩))

theorem fitsNode_of_type (ht : fopt = true ∨ c.mt = ResourceType.mixed.code ∨ n.ty.code = c.mt) :
    fitsNode (nested c.server) csy c.mt fopt n =
      !(csy == csyAbandonMember && fopt && n.ty == .grp && refusesType (nested c.server n.obj c.mt)) := by
  unfold fitsNode
  have hor : (csy == csySetMixed || fopt || c.mt == ResourceType.mixed.code || n.ty.code == c.mt) = true := by
    simp only [Bool.or_eq_true, beq_iff_eq]
    tauto
  rw [hor, Bool.true_and]

theorem notMet_iff :
    (csy == csyAbandonMember && fopt && n.ty == .grp && refusesType (nested c.server n.obj c.mt)) = true ↔
      csy = csyAbandonMember ∧ fopt = true ∧ n.ty = .grp ∧ refusesType (nested c.server n.obj c.mt) = true := by
  simp only [Bool.and_eq_true, beq_iff_eq, and_assoc]

theorem addMember_next (h : addMember fopt b c n = some c') :
    ∃ id, memberId b n = some id ∧ c'.grp = c.grp ∧ c'.mt = c.mt ∧
      c'.final = if id ∈ c.final then c.final else c.final ++ [if fopt then id ++ "/fopt".toList else id] := by
  unfold addMember at h
  obtain ⟨id, hid, rfl⟩ := Option.map_eq_some_iff.mp h
  refine ⟨id, hid, ?_⟩
  by_cases hc : id ∈ c.final
  · rw [if_pos (List.contains_iff_mem.mpr hc), if_pos hc]
    exact ⟨rfl, rfl, rfl⟩
  · rw [if_neg (fun hc' => hc (List.contains_iff_mem.mp hc')), if_neg hc]
    exact ⟨rfl, rfl, rfl⟩

/-- The loop goes on after a node: it did not pass, or it is listed unless the list has it. -/
theorem useMember_next (h : useMember nested csy fopt b c n = some (.next c')) :
    Retyped csy c c' ∧ ((fitsNode (nested c.server) csy c.mt fopt n = false ∧ c'.final = c.final) ∨
      (fitsNode (nested c.server) csy c.mt fopt n = true ∧
        (c'.mt ≠ ResourceType.mixed.code → fopt = false → n.ty.code = c'.mt) ∧
        ∃ id, memberId b n = some id ∧
          c'.final = if id ∈ c.final then c.final else c.final ++ [if fopt then id ++ "/fopt".toList else id])) := by
  unfold useMember at h
  dsimp only at h
  rcases fitType_cases csy fopt c n with ⟨hfit, ht⟩ | ⟨hf, hmt, hty, hcsy⟩
  · rw [hfit] at h
    dsimp only at h
    obtain ⟨fit, hgrp, h⟩ := Option.bind_eq_some_iff.mp h
    rcases fitGroup_refuses hgrp with ⟨rsc, c₁, rfl⟩ | rfl | ⟨s₁, rfl, hskip⟩ | ⟨s₁, rfl, hpass⟩
    · cases h
    · cases h
    · cases h
      refine ⟨.inl ⟨rfl, rfl⟩, .inl ⟨?_, rfl⟩⟩
      rw [fitsNode_of_type ht, notMet_iff.mpr hskip]
      rfl
    · dsimp only at h
      obtain ⟨c₂, hadd, heq⟩ := Option.map_eq_some_iff.mp h
      cases heq
      obtain ⟨id, hid, hg, hm, hfin⟩ := addMember_next hadd
      refine ⟨.inl ⟨hg, hm⟩, .inr ⟨?_, fun hmix hf => ?_, id, hid, hfin⟩⟩
      · rw [fitsNode_of_type ht, Bool.not_eq_true', Bool.eq_false_iff]
        exact fun hc => hpass (notMet_iff.mp hc)
      · rw [hm] at hmix ⊢
        rcases ht with ht | ht | ht
        · rw [ht] at hf
          cases hf
        · exact absurd ht hmix
        · exact ht
  · rcases hcsy with ⟨-, rsc, hfit⟩ | ⟨hcsy, hfit⟩ | ⟨h2, h3, hfit⟩
    · rw [hfit] at h
      cases h
    · -- the group becomes mixed, and the member passes
      rw [hfit] at h
      dsimp only at h
      obtain ⟨fit, hgrp, h⟩ := Option.bind_eq_some_iff.mp h
      have hne : csy ≠ csyAbandonMember := by
        rw [hcsy]
        decide
      rcases fitGroup_refuses hgrp with ⟨rsc, c₁, rfl⟩ | rfl | ⟨s₁, rfl, hskip⟩ | ⟨s₁, rfl, -⟩
      · cases h
      · cases h
      · exact absurd hskip.1 hne
      · dsimp only at h
        obtain ⟨c₂, hadd, heq⟩ := Option.map_eq_some_iff.mp h
        cases heq
        obtain ⟨id, hid, hg, hm, hfin⟩ := addMember_next hadd
        refine ⟨.inr ⟨hcsy, hmt, hg, hm⟩, .inr ⟨?_, fun hmix => absurd hm hmix, id, hid, hfin⟩⟩
        unfold fitsNode
        rw [hcsy]
        rfl
    · rw [hfit] at h
      cases h
      refine ⟨.inl ⟨rfl, rfl⟩, .inl ⟨?_, rfl⟩⟩
      unfold fitsNode
      rw [hf, beq_eq_false_iff_ne.mpr h3, beq_eq_false_iff_ne.mpr hmt, beq_eq_false_iff_ne.mpr hty]
      rfl

end

/-! ## The loop -/

/-- What members of a request leave of the variables: the group or its type, the members that fit listed after
those there are, and those of one type. -/
structure Collects (g : GrpEnv) (nested : Server → Obj → Int → Option Checked) (csy : Int) (l : List Json)
    (c c' : Checking) : Prop where
  retyped : Retyped csy c c'
  final : c'.final = c.final ++ (listed Pick.id Pick.entry c.final (fitting g nested csy c l)).map Pick.entry
  types : c'.mt ≠ ResourceType.mixed.code →
    ∀ p ∈ fitting g nested csy c l, isUriFopt p.mid = false → p.node.ty.code = c'.mt

section

variable {g : GrpEnv} {nested : Server → Obj → Int → Option Checked} {csy : Int} {c c' : Checking}
  {entry : Json} {l l' : List Json}

theorem Collects.of_nothing {s' : Server} {v : MemberVar} (h : fitting g nested csy c [entry] = []) :
    Collects g nested csy [entry] c { c with server := s', rtNode := v } where
  retyped := .inl ⟨rfl, rfl⟩
  final := by
    rw [h]
    exact (List.append_nil _).symm
  types _ p hp := by
    rw [h] at hp
    cases hp

theorem checkMember_collects (hs : strayCsy csy → ∀ mid, entry.valuestring = some mid → (resolved g c.server mid).isSome)
    (h : checkMember g nested csy c entry = some (.next c')) : Collects g nested csy [entry] c c' := by
  unfold checkMember at h
  obtain ⟨mid, hmid, h⟩ := Option.bind_eq_some_iff.mp h
  cases hr : resolved g c.server mid with
  | none =>
    obtain ⟨s', rsc, v, b, hseek⟩ := seekMember_unresolved csy c.rtNode hr
    have hfit : fitting g nested csy c [entry] = [] := fitting_of_none (pick?_none hmid hr)
    rw [hseek] at h
    dsimp only at h
    rcases seekFailed_cases csy rsc v b with ⟨hstray, -⟩ | ⟨-, h' | h'⟩
    · have hsome := hs hstray mid hmid
      rw [hr] at hsome
      cases hsome
    · rw [h'] at h
      cases h
    · rw [h'] at h
      cases h
      exact .of_nothing hfit
  | some found =>
    obtain ⟨n, b⟩ := found
    rw [seekMember_resolved hr] at h
    dsimp only [MemberVar.deref, Option.bind_some] at h
    obtain ⟨hty, hout⟩ := useMember_next h
    cases hid : memberId b n with
    | none =>
      have hfit : fitting g nested csy c [entry] = [] := fitting_of_none (pick?_unnamed hmid hr hid)
      rcases hout with ⟨-, hfin⟩ | ⟨-, -, id, hid', -⟩
      · refine ⟨hty, ?_, fun _ p hp => ?_⟩
        · rw [hfit, hfin]
          exact (List.append_nil _).symm
        · rw [hfit] at hp
          cases hp
      · rw [hid] at hid'
        cases hid'
    | some id =>
      have hfit := @fitting_of_pick g entry _ nested csy c (pick?_eq entry (⟨mid, c.server, n, b, id, hr, hid⟩ : Pick g) hmid)
      unfold Pick.fits at hfit
      dsimp only at hfit hout
      rcases hout with ⟨hno, hfin⟩ | ⟨hyes, htype, id', hid', hfin⟩
      · rw [hno, if_neg (by decide)] at hfit
        refine ⟨hty, ?_, fun _ p hp => ?_⟩
        · rw [hfit, hfin]
          exact (List.append_nil _).symm
        · rw [hfit] at hp
          cases hp
      · rw [hyes, if_pos rfl] at hfit
        obtain rfl : id = id' := Option.some.inj (hid.symm.trans hid')
        refine ⟨hty, ?_, fun hmix p hp => ?_⟩
        · rw [hfit, hfin, listed_cons]
          dsimp only [listed]
          split
          · exact (List.append_nil _).symm
          · rfl
        · rw [hfit, List.mem_singleton] at hp
          rw [hp]
          exact htype hmix

theorem Retyped.trans {c₁ : Checking} (h : Retyped csy c c₁) (h' : Retyped csy c₁ c') : Retyped csy c c' := by
  rcases h with ⟨hg, hm⟩ | ⟨hcsy, hne, hg, hm⟩
  · rcases h' with ⟨hg', hm'⟩ | ⟨hcsy, hne, hg', hm'⟩
    · exact .inl ⟨hg'.trans hg, hm'.trans hm⟩
    · exact .inr ⟨hcsy, hm ▸ hne, by rw [hg', hg], hm'⟩
  · rcases h' with ⟨hg', hm'⟩ | ⟨-, hne', -⟩
    · exact .inr ⟨hcsy, hne, hg'.trans hg, hm'.trans hm⟩
    · exact absurd hm hne'

theorem Retyped.mt_eq (h : Retyped csy c c') (hm : c'.mt ≠ ResourceType.mixed.code) : c'.mt = c.mt := by
  rcases h with ⟨-, h⟩ | ⟨-, -, -, h⟩
  · exact h
  · exact absurd h hm

theorem Collects.trans {c₁ : Checking} (hl : checkMembers g nested csy l c = some (.next c₁))
    (h : Collects g nested csy l c c₁) (h' : Collects g nested csy l' c₁ c') : Collects g nested csy (l ++ l') c c' where
  retyped := h.retyped.trans h'.retyped
  final := by
    rw [h'.final, h.final, fitting_append hl, listed_append, List.map_append, List.append_assoc]
  types hm p hp hf := by
    rw [fitting_append hl, List.mem_append] at hp
    rcases hp with hp | hp
    · have hback := h'.retyped.mt_eq hm
      rw [hback] at hm ⊢
      exact h.types hm p hp hf
    · exact h'.types hm p hp hf

theorem checkMembers_one {c₁ : Checking} (h : checkMember g nested csy c entry = some (.next c₁)) :
    checkMembers g nested csy [entry] c = some (.next c₁) := by
  rw [checkMembers, h, Option.bind_some]
  rfl

theorem checkMembers_cons_next {c₁ : Checking} (h : checkMember g nested csy c entry = some (.next c₁)) :
    checkMembers g nested csy (entry :: l) c = checkMembers g nested csy l c₁ := by
  rw [checkMembers, h, Option.bind_some]

/-- A whole list the loop gets through. -/
theorem checkMembers_collects (hs : strayCsy csy → ∀ l₁ entry l₂ mid c₁, l = l₁ ++ entry :: l₂ →
      checkMembers g nested csy l₁ c = some (.next c₁) → entry.valuestring = some mid → (resolved g c₁.server mid).isSome)
    (h : checkMembers g nested csy l c = some (.next c')) : Collects g nested csy l c c' := by
  induction l generalizing c with
  | nil =>
    cases h
    exact ⟨.inl ⟨rfl, rfl⟩, (List.append_nil _).symm, fun _ p hp => by cases hp⟩
  | cons entry l ih =>
    obtain ⟨c₁, h₁, h⟩ := checkMembers_cons h
    refine .trans (checkMembers_one h₁) (checkMember_collects (fun hstray mid hmid => ?_) h₁) (ih ?_ h)
    · exact hs hstray [] entry l mid c rfl rfl hmid
    · rintro hstray l₁ e l₂ mid c₂ rfl hc₂ hmid
      exact hs hstray (entry :: l₁) e l₂ mid c₂ rfl ((checkMembers_cons_next h₁).trans hc₂) hmid

end

/-! ## The whole check -/

section

variable {g : GrpEnv} {s : Server} {depth : Nat} {grp : Obj} {csy mt : Int} {mid : CStr} {c : Checking}

theorem onlyLooks_nestedCheck (g : GrpEnv) (depth : Nat) : OnlyLooks g.now (nestedCheck g depth) :=
  fun h hs => looksUp_validateGrpMember h hs

/-- An accepted request lists the members that fit. -/
theorem collects_of_accepted
    (hthere : strayCsy csy → ∀ {mid c}, Checks g s depth grp csy mt mid c → (resolved g c.server mid).isSome)
    (h : validateGrpMember g (depth + 1) s grp csy mt = some (.next c)) :
    Collects g (nestedCheck g depth) csy (grp.arr .mid) ⟨s, grp, mt, .unset, []⟩ c :=
  checkMembers_collects
    (fun hstray l₁ entry l₂ _ _ hl hc hmid => hthere hstray ⟨l₁, entry, l₂, hl, hmid, hc⟩) h

/-- With a strategy of a meaning, or with all members there, only a member's own node is read; a nested group
is always checked with the strategy that gives the group up. -/
theorem own_of_reads {d : Nat} {there : Server} {v : MemberVar} {b : Bool} (h : Reads g d s grp csy mt there mid v b)
    (hthere : strayCsy csy → ∀ {depth mid c}, d = depth + 1 → Checks g s depth grp csy mt mid c →
      (resolved g c.server mid).isSome) :
    ∃ n, v = .node n ∧ resolved g there mid = some (n, b) := by
  induction h with
  | own hc hseek => exact seekMember_own (fun hstray => hthere hstray rfl hc) hseek
  | deeper _ _ _ _ _ ih => exact ih fun hstray => absurd rfl hstray.2.1

theorem Orderly.wellListed (h : Orderly g s depth grp csy mt)
    (hacc : validateGrpMember g (depth + 1) s grp csy mt = some (.next c)) : WellListed g s grp mt c := by
  have hf := collects_of_accepted h.there hacc
  have hsub : (listed Pick.id Pick.entry [] (fitting g (nestedCheck g depth) csy ⟨s, grp, mt, .unset, []⟩ (grp.arr .mid))).Sublist
      (fitting g (nestedCheck g depth) csy ⟨s, grp, mt, .unset, []⟩ (grp.arr .mid)) := listed_sublist
  refine ⟨⟨_, hf.final, fun p hp => ?_, ?_, nodup_listed (h.plainFirst hacc),
    fun hm p hp => hf.types hm p (hsub.subset hp)⟩, ?_⟩
  · exact (mem_fitting (onlyLooks_nestedCheck g depth) (hsub.subset hp)).2
  · exact (hsub.map _).trans fitting_mids
  · rcases hf.retyped with hr | ⟨-, -, hr⟩
    · exact .inl hr
    · exact .inr hr

theorem Orderly.validated (h : Orderly g s depth grp csy mt) : Validated g s (depth + 1) grp csy mt where
  reads hr := own_of_reads hr fun hstray {_ _ _} hd hc => by
    cases hd
    exact h.there hstray hc
  lists := h.wellListed

/-! ## Where it fails -/

/-- With a strategy of no meaning a member that is not there is read as something else. -/
theorem there_of_validated (h : Validated g s (depth + 1) grp csy mt) (hstray : strayCsy csy)
    (hc : Checks g s depth grp csy mt mid c) : (resolved g c.server mid).isSome := by
  cases hr : resolved g c.server mid with
  | some found => rfl
  | none =>
    obtain ⟨s', rsc, v, b, hseek⟩ := seekMember_unresolved csy c.rtNode hr
    rcases seekFailed_cases csy rsc v b with ⟨-, hheld⟩ | ⟨hno, -⟩
    · rw [hheld] at hseek
      obtain ⟨n, -, hn⟩ := h.reads (.own hc (congrArg Prod.snd hseek))
      rw [hr] at hn
      cases hn
    · exact absurd hstray hno

/-- The identifier in a listed member, where no identifier looks like a member by its `fopt`. -/
def bareId (entry : CStr) : CStr := if isUriFopt entry then entry.take (entry.length - 5) else entry

theorem bareId_entry {p : Pick g} (hp : isUriFopt p.id = false) : bareId p.entry = p.id := by
  unfold Pick.entry bareId
  split
  · rw [isUriFopt_append, if_pos rfl]
    simp
  · rw [hp]
    rfl

/-- A list that is well listed has no resource named again after its `fopt`. -/
theorem plainFirst_of_validated (hids : ∀ p : Pick g, s.LooksUp g.now p.server → isUriFopt p.id = false)
    (h : Validated g s (depth + 1) grp csy mt) (hacc : validateGrpMember g (depth + 1) s grp csy mt = some (.next c)) :
    KeyedFirst Pick.id Pick.entry [] (fitting g (nestedCheck g depth) csy ⟨s, grp, mt, .unset, []⟩ (grp.arr .mid)) := by
  have hf := collects_of_accepted (fun hstray _ _ hc => there_of_validated h hstray hc) hacc
  obtain ⟨ps, hps, hreach, -, hnodup, -⟩ := (h.lists hacc).listing
  have hfit : ∀ p ∈ fitting g (nestedCheck g depth) csy ⟨s, grp, mt, .unset, []⟩ (grp.arr .mid), isUriFopt p.id = false :=
    fun p hp => hids p (mem_fitting (onlyLooks_nestedCheck g depth) hp).2
  refine keyedFirst_of_nodup (fun a ha b _ hab => ?_) ?_
  · unfold Pick.entry at hab
    split at hab
    · have hfopt := hfit a ha
      rw [← hab, isUriFopt_append] at hfopt
      cases hfopt
    · exact hab
  · -- the listed strings tell the identifiers
    have hid (l : List (Pick g)) (hl : ∀ p ∈ l, isUriFopt p.id = false) :
        l.map Pick.id = (l.map Pick.entry).map bareId := by
      rw [List.map_map]
      exact List.map_congr_left fun p hp => (bareId_entry (hl p hp)).symm
    have hlist : (listed Pick.id Pick.entry []
        (fitting g (nestedCheck g depth) csy ⟨s, grp, mt, .unset, []⟩ (grp.arr .mid))).map Pick.entry = ps.map Pick.entry := by
      rw [← hps, hf.final]
      rfl
    rw [hid _ fun p hp => hfit p (listed_sublist.subset hp), hlist, ← hid ps fun p hp => hids p (hreach p hp)]
    exact hnodup

/-- A request that names nothing by its `fopt` is fine with every strategy of a meaning. -/
theorem orderly_of_plain (hcsy : ¬strayCsy csy)
    (h : ∀ e ∈ grp.arr .mid, ∀ mid, e.valuestring = some mid → isUriFopt mid = false) : Orderly g s depth grp csy mt where
  there hstray := absurd hstray hcsy
  plainFirst _ l₁ p l₂ hl _ _ := by
    left
    have hp : p ∈ fitting g (nestedCheck g depth) csy ⟨s, grp, mt, .unset, []⟩ (grp.arr .mid) := by
      rw [hl]
      exact List.mem_append_right _ List.mem_cons_self
    obtain ⟨⟨e, he, hmid⟩, -⟩ := mem_fitting (onlyLooks_nestedCheck g depth) hp
    unfold Pick.entry
    rw [h e he p.mid hmid]
    rfl

end

/-- A CSE with one container. -/
def pairServer : Server where
  tree := .node ⟨0, .cse, "TinyIoT".toList, "TinyIoT".toList, [(.ri, .str "id-in".toList)], [], [], 0⟩
    (.node ⟨1, .cnt, "c".toList, "TinyIoT/c".toList,
      [(.rn, .str "c".toList), (.ri, .str "3-1".toList), (.pi, .str "id-in".toList)], [], [], 0⟩ .nil .nil) .nil
  csrList := []
  db := []
  nextId := 2
  riCount := 1

def withMembers (mids : List String) : Obj := [(.mid, .arr (mids.map fun m => .str m.toList))]

def noRemotes : GrpEnv := { firstDay with remote := fun _ => .error .badRequest, depth := 5 }

end TinyIoT
