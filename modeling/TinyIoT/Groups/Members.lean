/-
How deep `validate_grp_member` goes: it calls itself for the groups among the members that are named by their
`fopt`, and nothing stops it at a group it is already in. It ends where no path from group to group goes on
for ever. The members a stored group lists are identifiers, looked up as such; groups of other CSEs are taken
to name no group by its `fopt`.
-/
import TinyIoT.Lib.Descent
import TinyIoT.Resource.Group
import TinyIoT.Server.Resolve

namespace TinyIoT

/-! ## Which group a member names -/

/-- An identifier that is looked up as one: not an address. -/
def plainId (r : CStr) : Bool := !r.contains '/' && r != cseBaseName && r != ['-']

/-- An address for another CSE. -/
def foreign (r : CStr) : Bool := addressingType r = .spRelative && !isSpRelativeLocal r

/-- The identifier of what a listed member names by its `fopt`. -/
def foptId (entry : Json) : Option CStr :=
  entry.valuestring.bind fun mid =>
    if isUriFopt mid && plainId (memberAddr mid) then some (memberAddr mid) else none

/-- What a stored group may list by its `fopt`: an identifier or something of another CSE. -/
def listable (entry : Json) : Bool :=
  entry.valuestring.all fun mid => !isUriFopt mid || plainId (memberAddr mid) || foreign (memberAddr mid)

namespace Server

/-- One group names another by its `fopt`, in what is stored. -/
def Names (s : Server) (i j : Nat) : Prop :=
  ∃ n ∈ s.tree.nodes, ∃ m ∈ s.tree.nodes, n.id = i ∧ m.id = j ∧ n.ty = .grp ∧ m.ty = .grp ∧
    ∃ e ∈ n.obj.arr .mid, ∃ r, foptId e = some r ∧ m.ri = some r

/-- Groups list what can be listed. -/
def Listed (s : Server) : Prop := ∀ n ∈ s.tree.nodes, n.ty = .grp → ∀ e ∈ n.obj.arr .mid, listable e = true

end Server

/-- The other CSEs: a resource comes under the address it was asked for, and a group names none by its `fopt`. -/
structure GrpEnv.Flat (g : GrpEnv) : Prop where
  uri : ∀ {addr n}, g.remote addr = .ok n → n.uri = addr
  members : ∀ {addr n}, g.remote addr = .ok n → n.ty = .grp →
    ∀ e ∈ n.obj.arr .mid, ∀ mid, e.valuestring = some mid → isUriFopt mid = false

/-! ## Lookups -/

section

variable {g : GrpEnv} {s : Server} {csy : Int} {prev v : MemberVar} {addr r : CStr} {isRemote : Bool} {n : RTNode}

/-- The address of a member of this CSE, as it is looked up. -/
def localAddr (addr : CStr) : Option CStr :=
  match addressingType addr with
  | .cseRelative => some addr
  | .spRelative => if isSpRelativeLocal addr then some (addr.drop (cseBaseRi.length + 2)) else none
  | _ => none

/-- The node of this CSE that a member of a request is found as. -/
def namedNode (g : GrpEnv) (s : Server) (mid : CStr) : Option RTNode :=
  (localAddr (memberAddr mid)).bind fun a => (s.findNode g.now a).deref s

/-- A strategy of no meaning: a member that is not there does not end the loop or its pass. -/
def strayCsy (csy : Int) : Prop := csy ≠ csyAbandonMember ∧ csy ≠ csyAbandonGroup ∧ csy ≠ csySetMixed

theorem seekFailed_held {rsc : Rsc} {v' : MemberVar} {b : Bool} (h : seekFailed csy rsc v b = .held v' isRemote) :
    strayCsy csy ∧ v' = v ∧ isRemote = b := by
  unfold seekFailed at h
  split at h
  · cases h
  · split at h
    · cases h
    · rename_i h1 h2
      cases h
      rw [not_or] at h2
      exact ⟨⟨h2.1, h1, h2.2⟩, rfl, rfl⟩

theorem seekFailed_skipped {rsc : Rsc} {v' : MemberVar} {b : Bool} (h : seekFailed csy rsc v b = .skipped v') : v' = v := by
  unfold seekFailed at h
  split at h
  · cases h
  · split at h <;> cases h
    rfl

/-- The lookup of a member of this CSE: it is there, or it is not and what is expired goes. -/
theorem seekLocal_cases (g : GrpEnv) (s : Server) (csy : Int) (addr : CStr) :
    (∃ n, (s.findNode g.now addr).deref s = some n ∧ seekLocal g s csy addr = (s, .held (.node n) false)) ∨
      ((s.findNode g.now addr).deref s = none ∧
        seekLocal g s csy addr = ((s.findRtnode g.now addr).1, seekFailed csy .badRequest .null false)) := by
  unfold seekLocal Server.findNode
  rcases Server.findRtnode_cases (s := s) g.now addr with he | ⟨n, hn, -, he⟩ | ⟨n, -, -, -, he⟩
  · rw [he]
    exact .inr ⟨rfl, rfl⟩
  · rw [he]
    refine .inl ⟨n, hn, ?_⟩
    dsimp only
    rw [hn]
  · rw [he]
    exact .inr ⟨rfl, rfl⟩

theorem seekLocal_held (h : (seekLocal g s csy addr).2 = .held v isRemote) (hv : v.deref = some n) :
    isRemote = false ∧ (s.findNode g.now addr).deref s = some n := by
  rcases seekLocal_cases g s csy addr with ⟨m, hm, he⟩ | ⟨-, he⟩
  · rw [he] at h
    cases h
    cases hv
    exact ⟨rfl, hm⟩
  · rw [he] at h
    obtain ⟨-, rfl, -⟩ := seekFailed_held h
    cases hv

theorem eq_of_deref (hv : v.deref = some n) : v = .node n := by
  cases v <;> cases hv
  rfl

/-- Where the node a member is tested with comes from. -/
theorem seekMember_held (h : (seekMember g s csy prev addr).2 = .held v isRemote) (hv : v.deref = some n) :
    (isRemote = false ∧ ∃ a, localAddr addr = some a ∧ (s.findNode g.now a).deref s = some n) ∨
      (isRemote = true ∧ foreign addr = true ∧ g.remote addr = .ok n) ∨
      (isRemote = false ∧ strayCsy csy ∧ prev = .node n) := by
  have hstray (h : seekFailed csy .badRequest prev false = .held v isRemote) :
      isRemote = false ∧ strayCsy csy ∧ prev = .node n := by
    obtain ⟨hs, rfl, hb⟩ := seekFailed_held h
    exact ⟨hb, hs, eq_of_deref hv⟩
  unfold seekMember at h
  unfold localAddr foreign
  cases ha : addressingType addr with
  | cseRelative =>
    rw [ha] at h
    obtain ⟨hr, hn⟩ := seekLocal_held h hv
    exact .inl ⟨hr, addr, rfl, hn⟩
  | spRelative =>
    rw [ha] at h
    dsimp only at h ⊢
    split at h
    · rename_i hl
      obtain ⟨hr, hn⟩ := seekLocal_held h hv
      exact .inl ⟨hr, _, if_pos hl, hn⟩
    · rename_i hl
      split at h
      · cases h
        cases hv
        exact .inr (.inl ⟨rfl, by simp [hl], ‹_›⟩)
      · obtain ⟨-, rfl, -⟩ := seekFailed_held h
        cases hv
  | absolute =>
    rw [ha] at h
    exact .inr (.inr (hstray h))
  | protocolBinding =>
    rw [ha] at h
    exact .inr (.inr (hstray h))

/-- A member that is passed over leaves no new node behind. -/
theorem seekMember_skipped (h : (seekMember g s csy prev addr).2 = .skipped v) : v = .null ∨ v = prev := by
  have hlocal : ∀ addr, (seekLocal g s csy addr).2 = .skipped v → v = .null := by
    intro addr h
    rcases seekLocal_cases g s csy addr with ⟨m, -, he⟩ | ⟨-, he⟩
    · rw [he] at h
      cases h
    · rw [he] at h
      exact seekFailed_skipped h
  unfold seekMember at h
  split at h
  · exact .inl (hlocal _ h)
  · split at h
    · exact .inl (hlocal _ h)
    · split at h
      · cases h
      · exact .inl (seekFailed_skipped h)
  · exact .inr (seekFailed_skipped h)

theorem looksUp_seekMember (g : GrpEnv) (s : Server) (csy : Int) (prev : MemberVar) (addr : CStr) :
    s.LooksUp g.now (seekMember g s csy prev addr).1 := by
  have hlocal (addr : CStr) : s.LooksUp g.now (seekLocal g s csy addr).1 := by
    rcases seekLocal_cases g s csy addr with ⟨m, -, he⟩ | ⟨-, he⟩
    · rw [he]
      exact .refl
    · rw [he]
      exact .find addr
  unfold seekMember
  split
  · exact hlocal _
  · split
    · exact hlocal _
    · split
      · exact .refl
      · exact .refl
  · exact .refl

end

/-! ## One member -/

/-- The server a check leaves. -/
def Checked.server : Checked → Option Server
  | .next c => some c.server
  | .refused _ s => some s
  | .deep => none

/-- The calls a check makes of itself only look resources up. -/
def OnlyLooks (now : CStr) (nested : Server → Obj → Int → Option Checked) : Prop :=
  ∀ {s grp mt r s'}, nested s grp mt = some r → r.server = some s' → s.LooksUp now s'

section

variable {now : CStr} {g : GrpEnv} {nested : Server → Obj → Int → Option Checked} {csy : Int} {c c' : Checking} {r : Checked}
  {fopt isRemote : Bool} {n : RTNode} {fit : Fit}

theorem fitType_on (h : fitType csy fopt c n = .on c') :
    c'.server = c.server ∧ c'.final = c.final ∧ c'.rtNode = c.rtNode := by
  unfold fitType at h
  split at h
  · split at h
    · cases h
    · split at h <;> cases h
      exact ⟨rfl, rfl, rfl⟩
  · cases h
    exact ⟨rfl, rfl, rfl⟩

/-- A type test that does not let the member pass changes nothing. -/
theorem fitType_off (csy : Int) (fopt : Bool) (c : Checking) (n : RTNode) :
    (∃ c', fitType csy fopt c n = .on c') ∨ fitType csy fopt c n = .skip c ∨ ∃ rsc, fitType csy fopt c n = .refuse rsc c := by
  unfold fitType
  split
  · split
    · exact .inr (.inr ⟨_, rfl⟩)
    · split
      · exact .inl ⟨_, rfl⟩
      · exact .inr (.inl rfl)
  · exact .inl ⟨_, rfl⟩

/-- What the check of a nested group does to the variables. -/
theorem nestedFit_cases (csy : Int) (c : Checking) (r : Checked) :
    (r = .deep ∧ nestedFit csy c r = .deep) ∨ ∃ s', r.server = some s' ∧
      (nestedFit csy c r = .on { c with server := s' } ∨ nestedFit csy c r = .skip { c with server := s' } ∨
        ∃ rsc, nestedFit csy c r = .refuse rsc { c with server := s' }) := by
  cases r with
  | deep => exact .inl ⟨rfl, rfl⟩
  | next c' => exact .inr ⟨_, rfl, .inl rfl⟩
  | refused rsc s' =>
    refine .inr ⟨s', rfl, ?_⟩
    unfold nestedFit
    split
    · rename_i heq
      cases heq
    · rename_i heq
      cases heq
      split
      · exact .inr (.inr ⟨_, rfl⟩)
      · split
        · exact .inr (.inl rfl)
        · exact .inl rfl
    · rename_i heq
      cases heq
      exact .inl rfl
    · rename_i heq
      cases heq

/-- A group named by its `fopt` is entered; it is the only thing that goes deeper. -/
theorem fitGroup_cases (hn : OnlyLooks now nested) (h : fitGroup nested csy fopt isRemote c n = some fit) :
    (fit = .deep ∧ fopt = true ∧ n.ty = .grp ∧ ∃ mt, nested c.server n.obj mt = some .deep) ∨
      ∃ s', c.server.LooksUp now s' ∧ (fit = .on { c with server := s' } ∨ fit = .skip { c with server := s' } ∨
        ∃ rsc, fit = .refuse rsc { c with server := s' }) := by
  unfold fitGroup at h
  split at h
  · rename_i hf
    rw [Bool.and_eq_true] at hf
    obtain ⟨r, hr, h⟩ := Option.bind_eq_some_iff.mp h
    dsimp only at h
    obtain rfl : nestedFit csy c r = fit := by
      split at h
      · exact Option.some.inj h
      · cases h
    rcases nestedFit_cases csy c r with ⟨rfl, hd⟩ | ⟨s', hs', hd⟩
    · exact .inl ⟨hd, hf.1, of_decide_eq_true hf.2, _, hr⟩
    · exact .inr ⟨s', hn hr hs', hd⟩
  · cases h
    exact .inr ⟨c.server, .refl, .inl rfl⟩

/-- What the use of a node leads to. -/
theorem useMember_cases (hn : OnlyLooks now nested) (h : useMember nested csy fopt isRemote c n = some r) :
    (∃ rsc s', r = .refused rsc s' ∧ c.server.LooksUp now s') ∨
      (r = .deep ∧ fopt = true ∧ n.ty = .grp ∧ ∃ mt, nested c.server n.obj mt = some .deep) ∨
      ∃ c', r = .next c' ∧ c.server.LooksUp now c'.server ∧ c'.rtNode = (if isRemote then .freed else c.rtNode) ∧
        ∀ id ∈ c'.final, id ∈ c.final ∨
          ∃ i, memberId isRemote n = some i ∧ id = if fopt then i ++ "/fopt".toList else i := by
  unfold useMember at h
  dsimp only at h
  rcases fitType_off csy fopt c n with ⟨c₁, hty⟩ | hty | ⟨rsc, hty⟩ <;> rw [hty] at h <;> dsimp only at h
  · obtain ⟨hsrv, hfin, hrt⟩ := fitType_on hty
    obtain ⟨fit, hfit, h⟩ := Option.bind_eq_some_iff.mp h
    rcases fitGroup_cases hn hfit with ⟨rfl, hdeep⟩ | ⟨s', hs', rfl | rfl | ⟨rsc, rfl⟩⟩
    · cases h
      rw [hsrv] at hdeep
      exact .inr (.inl ⟨rfl, hdeep⟩)
    · obtain ⟨c₂, hc₂, rfl⟩ := Option.map_eq_some_iff.mp h
      obtain ⟨i, hi, rfl⟩ := Option.map_eq_some_iff.mp hc₂
      rw [hsrv] at hs'
      refine .inr (.inr ⟨_, rfl, ?_, ?_, fun id hid => ?_⟩)
      · dsimp only
        split <;> exact hs'
      · rfl
      · dsimp only at hid
        split at hid
        · exact .inl (hfin ▸ hid)
        · rcases List.mem_append.mp hid with hid | hid
          · exact .inl (hfin ▸ hid)
          · exact .inr ⟨i, hi, List.mem_singleton.mp hid⟩
    · cases h
      exact .inr (.inr ⟨_, rfl, hsrv ▸ hs', rfl, fun id hid => .inl (hfin ▸ hid)⟩)
    · cases h
      exact .inl ⟨_, _, rfl, hsrv ▸ hs'⟩
  · cases h
    exact .inr (.inr ⟨_, rfl, .refl, rfl, fun id hid => .inl hid⟩)
  · cases h
    exact .inl ⟨_, _, rfl, .refl⟩

/-- One member is looked up, and what its own list names. -/
theorem looksUp_checkMember {entry : Json} {s' : Server} (hn : OnlyLooks g.now nested)
    (h : checkMember g nested csy c entry = some r) (hs : r.server = some s') : c.server.LooksUp g.now s' := by
  unfold checkMember at h
  obtain ⟨mid, -, h⟩ := Option.bind_eq_some_iff.mp h
  have hseek := looksUp_seekMember g c.server csy c.rtNode (memberAddr mid)
  dsimp only at h
  split at h
  · cases h
    cases hs
    exact hseek
  · cases h
    cases hs
    exact hseek
  · obtain ⟨n, -, h⟩ := Option.bind_eq_some_iff.mp h
    rcases useMember_cases hn h with ⟨rsc, s₁, rfl, hs₁⟩ | ⟨rfl, -⟩ | ⟨c₁, rfl, hs₁, -⟩
    · cases hs
      exact hseek.trans hs₁
    · cases hs
    · cases hs
      exact hseek.trans hs₁

theorem looksUp_checkMembers {l : List Json} {s' : Server} (hn : OnlyLooks g.now nested)
    (h : checkMembers g nested csy l c = some r) (hs : r.server = some s') : c.server.LooksUp g.now s' := by
  induction l generalizing c with
  | nil =>
    cases h
    cases hs
    exact .refl
  | cons entry l ih =>
    unfold checkMembers at h
    obtain ⟨r₁, h₁, h⟩ := Option.bind_eq_some_iff.mp h
    have hmember {s₁ : Server} (hs₁ : r₁.server = some s₁) := looksUp_checkMember hn h₁ hs₁
    cases r₁ with
    | next c₁ => exact (hmember rfl).trans (ih h)
    | refused rsc s₁ =>
      cases h
      exact hmember hs
    | deep =>
      cases h
      cases hs

/-- The whole check only looks resources up. -/
theorem looksUp_validateGrpMember {depth : Nat} {s s' : Server} {grp : Obj} {mt : Int}
    (h : validateGrpMember g depth s grp csy mt = some r) (hs : r.server = some s') : s.LooksUp g.now s' := by
  induction depth generalizing s grp csy mt r s' with
  | zero =>
    cases h
    cases hs
  | succ depth ih => exact looksUp_checkMembers (fun h hs => ih h hs) h hs

end

/-! ## The loop -/

/-- The resource of this CSE that a member is found as, in some state the lookups leave. -/
def FoundAs (g : GrpEnv) (s : Server) (mid : CStr) (n : RTNode) : Prop :=
  ∃ s', s.LooksUp g.now s' ∧ namedNode g s' mid = some n

/-- A resource of this CSE that a member of the list is found as. -/
def Found (g : GrpEnv) (s : Server) (l : List Json) (n : RTNode) : Prop :=
  ∃ e ∈ l, ∃ mid, e.valuestring = some mid ∧ FoundAs g s mid n

/-- The same by its `fopt`; with a strategy of no meaning a member that is not there takes over the resource
of another. -/
def FoundByFopt (g : GrpEnv) (s : Server) (csy : Int) (l : List Json) (n : RTNode) : Prop :=
  ∃ e ∈ l, ∃ mid, e.valuestring = some mid ∧ FoundAs g s mid n ∧ (isUriFopt mid = true ∨ strayCsy csy)

/-- What `final_mid` lists. -/
inductive Enlisted (g : GrpEnv) (s : Server) (csy : Int) (l : List Json) : CStr → Prop
  | plain {n : RTNode} {r : CStr} : Found g s l n → n.ri = some r → Enlisted g s csy l r
  | fopt {n : RTNode} {r : CStr} : FoundByFopt g s csy l n → n.ri = some r → Enlisted g s csy l (r ++ "/fopt".toList)
  | away {addr : CStr} : foreign addr = true → isUriFopt addr = false → Enlisted g s csy l addr
  | awayFopt {addr : CStr} : foreign addr = true → Enlisted g s csy l (addr ++ "/fopt".toList)

section

variable {g : GrpEnv} {s : Server} {nested : Server → Obj → Int → Option Checked} {csy : Int} {c : Checking} {r : Checked}
  {l l' : List Json} {entry : Json} {n : RTNode}

theorem FoundByFopt.of_found (hs : strayCsy csy) (h : Found g s l n) : FoundByFopt g s csy l n := by
  obtain ⟨e, he, mid, hmid, hn⟩ := h
  exact ⟨e, he, mid, hmid, hn, .inr hs⟩

/-- A resource of another CSE, named by its `fopt`. -/
def AwayByFopt (g : GrpEnv) (l : List Json) (n : RTNode) : Prop :=
  ∃ e ∈ l, ∃ mid, e.valuestring = some mid ∧ isUriFopt mid = true ∧ g.remote (memberAddr mid) = .ok n

/-- A group the loop may enter. -/
def Entered (g : GrpEnv) (s : Server) (csy : Int) (l : List Json) (n : RTNode) : Prop :=
  n.ty = .grp ∧ (FoundByFopt g s csy l n ∨ AwayByFopt g l n)

/-- How one member, or the loop, ends: refused, deeper than the stack through a group that is entered, or with
members listed that were found. -/
def EndsAs (g : GrpEnv) (s : Server) (nested : Server → Obj → Int → Option Checked) (csy : Int) (l : List Json)
    (c : Checking) (r : Checked) : Prop :=
  (∃ rsc s', r = .refused rsc s') ∨
    (r = .deep ∧ ∃ n mt s', Entered g s csy l n ∧ s.LooksUp g.now s' ∧ nested s' n.obj mt = some .deep) ∨
    ∃ c', r = .next c' ∧ (∀ n, c'.rtNode = .node n → Found g s l n) ∧ ∀ id ∈ c'.final, id ∈ c.final ∨ Enlisted g s csy l id

theorem memberAddr_of_not_fopt {mid : CStr} (h : isUriFopt mid = false) : memberAddr mid = mid := by
  unfold memberAddr
  rw [h]
  rfl

theorem checkMember_ends (hg : g.Flat) (hnest : OnlyLooks g.now nested) (he : entry ∈ l) (hs : s.LooksUp g.now c.server)
    (hprev : ∀ n, c.rtNode = .node n → Found g s l n)
    (h : checkMember g nested csy c entry = some r) : EndsAs g s nested csy l c r := by
  unfold checkMember at h
  obtain ⟨mid, hmid, h⟩ := Option.bind_eq_some_iff.mp h
  have hseek := hs.trans (looksUp_seekMember g c.server csy c.rtNode (memberAddr mid))
  dsimp only at h
  split at h
  · cases h
    exact .inl ⟨_, _, rfl⟩
  · rename_i v hv
    cases h
    refine .inr (.inr ⟨_, rfl, fun n hn => ?_, fun id hid => .inl hid⟩)
    rcases seekMember_skipped hv with rfl | rfl
    · cases hn
    · exact hprev n hn
  · rename_i v b hv
    obtain ⟨n, hn, h⟩ := Option.bind_eq_some_iff.mp h
    have hnode : v = .node n := eq_of_deref hn
    rcases seekMember_held hv hn with ⟨rfl, a, ha, hfind⟩ | ⟨rfl, hfor, hrem⟩ | ⟨rfl, hstray, hp⟩
    · have hnamed : FoundAs g s mid n := by
        refine ⟨c.server, hs, ?_⟩
        unfold namedNode
        rw [ha]
        exact hfind
      have hfound : Found g s l n := ⟨entry, he, mid, hmid, hnamed⟩
      rcases useMember_cases hnest h with ⟨rsc, s₁, hr, -⟩ | ⟨hr, hf, hty, mt, hdeep⟩ | ⟨c', rfl, -, hrt, hfin⟩
      · exact .inl ⟨_, _, hr⟩
      · exact .inr (.inl ⟨hr, n, mt, _, ⟨hty, .inl ⟨entry, he, mid, hmid, hnamed, .inl hf⟩⟩, hseek, hdeep⟩)
      · refine .inr (.inr ⟨c', rfl, fun m hm => ?_, fun id hid => ?_⟩)
        · rw [hrt] at hm
          cases hnode.symm.trans hm
          exact hfound
        · rcases hfin id hid with hid | ⟨i, hi, rfl⟩
          · exact .inl hid
          · right
            split
            · exact .fopt ⟨entry, he, mid, hmid, hnamed, .inl ‹_›⟩ hi
            · exact .plain hfound hi
    · rcases useMember_cases hnest h with ⟨rsc, s₁, hr, -⟩ | ⟨hr, hf, hty, mt, hdeep⟩ | ⟨c', rfl, -, hrt, hfin⟩
      · exact .inl ⟨_, _, hr⟩
      · exact .inr (.inl ⟨hr, n, mt, _, ⟨hty, .inr ⟨entry, he, mid, hmid, hf, hrem⟩⟩, hseek, hdeep⟩)
      · refine .inr (.inr ⟨c', rfl, fun m hm => ?_, fun id hid => ?_⟩)
        · rw [hrt] at hm
          cases hm
        · rcases hfin id hid with hid | ⟨i, hi, rfl⟩
          · exact .inl hid
          · right
            obtain rfl : memberAddr mid = i := (hg.uri hrem).symm.trans (Option.some.inj hi)
            split
            · exact .awayFopt hfor
            · rename_i hf
              have hf : isUriFopt mid = false := by simpa using hf
              refine .away hfor ?_
              rwa [memberAddr_of_not_fopt hf]
    · have hfound : Found g s l n := hprev n hp
      rcases useMember_cases hnest h with ⟨rsc, s₁, hr, -⟩ | ⟨hr, hf, hty, mt, hdeep⟩ | ⟨c', rfl, -, hrt, hfin⟩
      · exact .inl ⟨_, _, hr⟩
      · exact .inr (.inl ⟨hr, n, mt, _, ⟨hty, .inl (.of_found hstray hfound)⟩, hseek, hdeep⟩)
      · refine .inr (.inr ⟨c', rfl, fun m hm => ?_, fun id hid => ?_⟩)
        · rw [hrt] at hm
          cases hnode.symm.trans hm
          exact hfound
        · rcases hfin id hid with hid | ⟨i, hi, rfl⟩
          · exact .inl hid
          · right
            split
            · exact .fopt (.of_found hstray hfound) hi
            · exact .plain hfound hi

theorem checkMembers_ends (hg : g.Flat) (hnest : OnlyLooks g.now nested) (hl : ∀ e ∈ l', e ∈ l)
    (hs : s.LooksUp g.now c.server) (hprev : ∀ n, c.rtNode = .node n → Found g s l n)
    (h : checkMembers g nested csy l' c = some r) : EndsAs g s nested csy l c r := by
  induction l' generalizing c with
  | nil =>
    cases h
    exact .inr (.inr ⟨c, rfl, hprev, fun id hid => .inl hid⟩)
  | cons entry l' ih =>
    unfold checkMembers at h
    obtain ⟨r₁, h₁, h⟩ := Option.bind_eq_some_iff.mp h
    rcases checkMember_ends hg hnest (hl entry List.mem_cons_self) hs hprev h₁ with
      ⟨rsc, s₁, rfl⟩ | ⟨rfl, hdeep⟩ | ⟨c₁, rfl, hprev₁, hfin₁⟩
    · cases h
      exact .inl ⟨_, _, rfl⟩
    · cases h
      exact .inr (.inl ⟨rfl, hdeep⟩)
    · have hs₁ := hs.trans (looksUp_checkMember hnest h₁ rfl)
      rcases ih (fun e he => hl e (List.mem_cons_of_mem _ he)) hs₁ hprev₁ h with hr | hr | ⟨c₂, hr, hprev₂, hfin₂⟩
      · exact .inl hr
      · exact .inr (.inl hr)
      · refine .inr (.inr ⟨c₂, hr, hprev₂, fun id hid => ?_⟩)
        rcases hfin₂ id hid with hid | hid
        · exact hfin₁ id hid
        · exact .inr hid

/-- How the whole check ends. -/
theorem validateGrpMember_ends (hg : g.Flat) {depth : Nat} {grp : Obj} {mt : Int}
    (h : validateGrpMember g (depth + 1) s grp csy mt = some r) :
    EndsAs g s (fun s grp mt => validateGrpMember g depth s grp csyAbandonGroup mt) csy (grp.arr .mid)
      ⟨s, grp, mt, .unset, []⟩ r :=
  checkMembers_ends hg (fun h hs => looksUp_validateGrpMember h hs) (fun _ he => he) .refl (fun _ hn => by cases hn) h

end

end TinyIoT
