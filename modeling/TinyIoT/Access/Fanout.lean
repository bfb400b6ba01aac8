/-
Group fan-out (`fopt_onem2m_resource`): the privilege check on the group and the loop that sends the
request on to every member. The handler of a member request and the retrieval of a remote member are
parameters. What the fan-out issues is recorded, up to the point where a missing attribute or a freed
node is dereferenced.
-/
import TinyIoT.Access.Lookups

namespace TinyIoT

/-! ## The check on the group -/

/-- The entries of a `macp` that is an array. -/
def macpList (grp : RTNode) : List Json :=
  match grp.obj.get .macp with
  | some (.arr l) => l
  | _ => []

namespace Looking

/-- What the policies of `macp` grant. -/
def macpAcop (now : CStr) (req : Req) (grp : RTNode) : Looking Acop :=
  getAcopFromAcpiList now req.ip req.fr grp (.arr (macpList grp))

/-- `check_macp_privilege`: what it returns. -/
def checkMacpPrivilege (now : CStr) (req : Req) (p : Ptr) (grp : RTNode) (acop : Acop) : Looking Int :=
  if req.fr = adminAeId then pure 0
  else if macpList grp ≠ [] then
    (macpAcop now req grp).bind fun granted =>
      -- `handle_error` returns the code it records
      pure (if granted.covers acop then 0 else Rsc.originatorHasNoPrivilege.code)
  else (checkPrivilege now req p acop).bind fun ok => pure (if ok then 0 else -1)

theorem onlyLooks_checkMacpPrivilege (now : CStr) (req : Req) (p : Ptr) (grp : RTNode) (acop : Acop) :
    OnlyLooks now (checkMacpPrivilege now req p grp acop) :=
  .ite (.pure _) (.ite (.bind (onlyLooks_getAcopFromAcpiList _ _) fun _ => .pure _)
    (.bind (onlyLooks_checkPrivilege _ _ _) fun _ => .pure _))

end Looking

/-! ## The loop -/

/-- What the loop has done so far; `target` is the variable `target_rtnode`, which keeps its value from
one member to the next. -/
structure Fan where
  server : Server
  target : Ptr
  issued : List (Req × Ptr)
  updated : Bool

/-- How the loop ends. -/
inductive FanEnd where
  | go | refused | crashed
  deriving DecidableEq, Repr

/-- What an entry of `mid` leads to, with the state and the `target_rtnode` the lookups leave: the next
entry, the end of the loop, or a node the request goes to. -/
inductive Aim where
  | skip (s : Server) (target : Ptr)
  | crash (s : Server) (target : Ptr)
  | refuse (s : Server) (target : Ptr)
  | member (s : Server) (target : Ptr) (mid addr : CStr) (n : RTNode)

/-- What a fan-out leaves: the state, the member requests it issued and the response, if it gets there. -/
structure Fanout where
  server : Server
  issued : List (Req × Ptr)
  resp : Option Resp

section

variable (handle : Server → Req → Ptr → Option (Server × Rsc)) (remote : CStr → CStr → Option RTNode)
  (now : CStr) (fopt : Option CStr) (req : Req) (mt : Int)

/-- The address of a member request. With a suffix an identifier is first turned into the uri it stands
for (`ri_to_uri`), which must be there. -/
def memberTo (s : Server) (mid : CStr) : Option CStr :=
  match fopt with
  | none => some mid
  | some suffix =>
    if cseBaseName.isPrefixOf mid then some (mid ++ suffix)
    else ((s.findRtnodeByRi mid).deref s).map fun n => n.uri ++ suffix

/-- The node a member request goes to; an absolute address leaves the one of the member before. -/
def memberTarget (s : Server) (prev : Ptr) (mid addr : CStr) : Server × Ptr :=
  match addressingType mid with
  | .cseRelative => s.findRtnode now addr
  | .spRelative =>
    if isSpRelativeLocal addr then s.findRtnode now addr
    else match remote addr req.fr with
      | none => (s, .null)
      | some n => (s, .loose n .null)
  | _ => (s, prev)

/-- The type of the resource to create does not fit a member of a group of mixed types. -/
def childRefused (n : RTNode) : Bool :=
  req.op = .create && mt = ResourceType.mixed.code &&
    !((ResourceType.ofCode req.ty).any fun t => ResourceType.isValidChildType n.ty t)

/-- The target of a member request, tested. -/
def aimAt (mid addr : CStr) : Server × Ptr → Aim
  | (s, .null) => .skip s .null
  | (s, p) => match p.deref s with
    | none => .crash s p
    | some n => if childRefused req mt n then .refuse s p else .member s p mid addr n

/-- What one entry of `mid` leads to. -/
def aim (s : Server) (prev : Ptr) (entry : Json) : Aim :=
  match entry.valuestring with
  | none => .skip s prev
  | some mid =>
    if mid = [] then .skip s prev
    else match memberTo fopt s mid with
      | none => .crash s prev
      | some addr => aimAt req mt mid addr (memberTarget remote now req s prev mid addr)

/-- A member request is issued and handled. -/
def fanIssue (f : Fan) (mid addr : CStr) (n : RTNode) : Fan × FanEnd :=
  let memberReq := { req with target := addr }
  let f := { f with issued := f.issued ++ [(memberReq, f.target)] }
  match handle f.server memberReq f.target with
  | none => (f, .crashed)
  | some (s, rsc) =>
    let freed := (req.op ≠ .delete && n.ty = .cin && n.rn ≠ "la".toList) ||
      (addressingType mid = .spRelative && !isSpRelativeLocal mid)
    ({ f with server := s, target := if freed then .null else f.target, updated := f.updated || rsc = .deleted }, .go)

/-- One entry of `mid`. -/
def fanMember (f : Fan) (entry : Json) : Fan × FanEnd :=
  match aim remote now fopt req mt f.server f.target entry with
  | .skip s p => ({ f with server := s, target := p }, .go)
  | .crash s p => ({ f with server := s, target := p }, .crashed)
  | .refuse s p => ({ f with server := s, target := p }, .refused)
  | .member s p mid addr n => fanIssue handle req { f with server := s, target := p } mid addr n

/-- The loop over `mid`. -/
def fanLoop : List Json → Fan → Fan × FanEnd
  | [], f => (f, .go)
  | entry :: rest, f => match fanMember handle remote now fopt req mt f entry with
    | (f, .go) => fanLoop rest f
    | r => r

/-- The end of the loop. -/
def fanFinish (p : Ptr) : Fan × FanEnd → Fanout
  | (f, .crashed) => ⟨f.server, f.issued, none⟩
  | (f, .refused) => ⟨f.server, f.issued, some (handleError .invalidChildResourcetype "invalid child resource type")⟩
  | (f, .go) =>
    if f.updated then
      -- the group is written back, and must still be there
      match (p.deref f.server).bind fun g => g.ri.map fun ri => f.server.db.dbUpdateResource g.obj ri with
      | none => ⟨f.server, f.issued, none⟩
      | some db => ⟨{ f.server with db := db }, f.issued, some (done .ok)⟩
    else ⟨f.server, f.issued, some (done .ok)⟩

/-- `fopt_onem2m_resource`. After the check the group is read again, and must still be there. -/
def foptOnem2mResource (s : Server) (p : Ptr) : Fanout :=
  match p.deref s with
  | none => ⟨s, [], some (done .notFound)⟩
  | some grp => match grp.obj.get .mt with
    | none => ⟨s, [], none⟩
    | some mt => match Looking.checkMacpPrivilege now req p grp (opToAcop req.op) s with
      | none => ⟨s, [], none⟩
      | some (verdict, s₁) =>
        if verdict = -1 then
          ⟨s₁, [], some (handleError .originatorHasNoPrivilege "originator has no privilege")⟩
        else if s.keeps s₁ grp = false then ⟨s₁, [], none⟩
        else match grp.obj.get .cnm with
          | none => ⟨s₁, [], none⟩
          | some cnm =>
            if cnm.valueint = 0 then ⟨s₁, [], some (done .noMembers)⟩
            else fanFinish p (fanLoop handle remote now fopt req mt.valueint (grp.obj.arr .mid) ⟨s₁, .null, [], false⟩)

/-! ## Who may fan out -/

/-- The originator may send the operation to the members: it is the administrator, or the policies of a
non-empty `macp` grant it, or there is no `macp` and the group itself grants it. -/
def FanAllowed (s : Server) (p : Ptr) (grp : RTNode) : Prop :=
  req.fr = adminAeId ∨
  (macpList grp ≠ [] ∧ (Looking.macpAcop now req grp s).any (fun r => r.1.covers (opToAcop req.op)) = true) ∨
  (macpList grp = [] ∧ s.privileged now req p (opToAcop req.op) = some true)

/-- The fan-out keeps to what `FanAllowed` lets it do; what it does not issue leaves the CSE, but for expired resources
that lookups have removed. -/
structure Guarded (s : Server) (p : Ptr) (grp : RTNode) : Prop where
  issues : (foptOnem2mResource handle remote now fopt req s p).issued ≠ [] → FanAllowed now req s p grp
  silent : ¬ FanAllowed now req s p grp → (foptOnem2mResource handle remote now fopt req s p).issued = [] ∧
    s.LooksUp now (foptOnem2mResource handle remote now fopt req s p).server

/-- No entry of a `mid` leads to a node before the loop ends. -/
def nobody : Server → Ptr → List Json → Bool
  | _, _, [] => true
  | s, prev, entry :: rest => match aim remote now fopt req mt s prev entry with
    | .skip s prev => nobody s prev rest
    | .crash _ _ => true
    | .refuse _ _ => true
    | .member _ _ _ _ _ => false

/-- The state the check on the group leaves. -/
def afterMacp (s : Server) (p : Ptr) (grp : RTNode) : Server :=
  ((Looking.checkMacpPrivilege now req p grp (opToAcop req.op) s).map Prod.snd).getD s

/-- After the check the group is gone, or has nobody to fan out to. -/
def Idle (s : Server) (p : Ptr) (grp : RTNode) : Prop :=
  grp.obj.get .mt = none ∨ s.keeps (afterMacp now req s p grp) grp = false ∨
  (∀ cnm, grp.obj.get .cnm = some cnm → cnm.valueint = 0) ∨
  nobody remote now fopt req (((grp.obj.get .mt).map Json.valueint).getD 0) (afterMacp now req s p grp) .null
    (grp.obj.arr .mid)

/-- The state an entry leaves before any request is issued. -/
def Aim.server : Aim → Server
  | .skip s _ => s
  | .crash s _ => s
  | .refuse s _ => s
  | .member s _ _ _ _ => s

variable {handle remote now fopt req mt}

theorem looksUp_memberTarget (s : Server) (prev : Ptr) (mid addr : CStr) :
    s.LooksUp now (memberTarget remote now req s prev mid addr).1 := by
  unfold memberTarget
  split
  · exact .find addr
  · split
    · exact .find addr
    · split <;> exact .refl
  · exact .refl

theorem aimAt_server (mid addr : CStr) (r : Server × Ptr) : (aimAt req mt mid addr r).server = r.1 := by
  unfold aimAt
  split
  · rfl
  · split
    · rfl
    · split <;> rfl

/-- Finding the target of an entry removes expired resources and nothing else. -/
theorem looksUp_aim (s : Server) (prev : Ptr) (entry : Json) :
    s.LooksUp now (aim remote now fopt req mt s prev entry).server := by
  unfold aim
  split
  · exact .refl
  · split
    · exact .refl
    · split
      · exact .refl
      · rw [aimAt_server]
        exact looksUp_memberTarget s prev _ _

theorem fanIssue_issued (f : Fan) (mid addr : CStr) (n : RTNode) :
    (fanIssue handle req f mid addr n).1.issued = f.issued ++ [({ req with target := addr }, f.target)] := by
  unfold fanIssue
  dsimp only
  split <;> rfl

/-- One entry adds to what is issued, and takes nothing back. -/
theorem fanMember_issued (f : Fan) (entry : Json) :
    ∃ l, (fanMember handle remote now fopt req mt f entry).1.issued = f.issued ++ l := by
  unfold fanMember
  split
  · exact ⟨[], by simp⟩
  · exact ⟨[], by simp⟩
  · exact ⟨[], by simp⟩
  · exact ⟨_, fanIssue_issued _ _ _ _⟩

/-- Neither does the rest of the loop. -/
theorem fanLoop_issued (l : List Json) (f : Fan) :
    ∃ l', (fanLoop handle remote now fopt req mt l f).1.issued = f.issued ++ l' := by
  induction l generalizing f with
  | nil => exact ⟨[], by simp [fanLoop]⟩
  | cons entry rest ih =>
    have hm : ∃ l, (fanMember handle remote now fopt req mt f entry).1.issued = f.issued ++ l := fanMember_issued f entry
    obtain ⟨l₁, h₁⟩ := hm
    unfold fanLoop
    split
    · rename_i f' heq
      rw [heq] at h₁
      obtain ⟨l₂, h₂⟩ := ih f'
      exact ⟨l₁ ++ l₂, by rw [h₂, h₁, List.append_assoc]⟩
    · exact ⟨l₁, h₁⟩

variable (handle)

/-- A loop that meets nobody issues nothing and only looks resources up. -/
theorem fanLoop_nobody {l : List Json} {f : Fan} (h : nobody remote now fopt req mt f.server f.target l = true) :
    (fanLoop handle remote now fopt req mt l f).1.issued = f.issued ∧
    (fanLoop handle remote now fopt req mt l f).1.updated = f.updated ∧
    f.server.LooksUp now (fanLoop handle remote now fopt req mt l f).1.server := by
  induction l generalizing f with
  | nil => exact ⟨rfl, rfl, .refl⟩
  | cons entry rest ih =>
    have ht : f.server.LooksUp now (aim remote now fopt req mt f.server f.target entry).server := looksUp_aim _ _ _
    unfold nobody at h
    unfold fanLoop fanMember
    cases heq : aim remote now fopt req mt f.server f.target entry with
    | skip s p =>
      simp only [heq] at h ht ⊢
      obtain ⟨h₁, h₂, h₃⟩ := ih (f := { f with server := s, target := p }) h
      exact ⟨h₁, h₂, ht.trans h₃⟩
    | crash s p =>
      rw [heq] at ht
      exact ⟨rfl, rfl, ht⟩
    | refuse s p =>
      rw [heq] at ht
      exact ⟨rfl, rfl, ht⟩
    | member s p mid addr n => simp only [heq, Bool.false_eq_true] at h

/-- A loop that meets somebody issues a request, whatever the handler does with it. -/
theorem fanLoop_somebody {l : List Json} {f : Fan} (h : nobody remote now fopt req mt f.server f.target l = false) :
    (fanLoop handle remote now fopt req mt l f).1.issued ≠ [] := by
  induction l generalizing f with
  | nil => exact absurd h (by simp [nobody])
  | cons entry rest ih =>
    unfold nobody at h
    cases heq : aim remote now fopt req mt f.server f.target entry with
    | skip s p =>
      unfold fanLoop fanMember
      simp only [heq] at h ⊢
      exact ih (f := { f with server := s, target := p }) h
    | crash s p => simp only [heq, Bool.true_eq_false] at h
    | refuse s p => simp only [heq, Bool.true_eq_false] at h
    | member s p mid addr n =>
      -- what comes after the first request can only add to it
      have h₁ : (fanMember handle remote now fopt req mt f entry).1.issued ≠ [] := by
        unfold fanMember
        simp only [heq, fanIssue_issued]
        simp
      unfold fanLoop
      split
      · rename_i f' hf
        have hl : ∃ l', (fanLoop handle remote now fopt req mt rest f').1.issued = f'.issued ++ l' := fanLoop_issued rest f'
        obtain ⟨l', hl⟩ := hl
        rw [hf] at h₁
        rw [hl]
        simp [h₁]
      · exact h₁

variable {handle}

@[simp] theorem fanFinish_issued (p : Ptr) (r : Fan × FanEnd) : (fanFinish p r).issued = r.1.issued := by
  unfold fanFinish
  split
  · rfl
  · rfl
  · split
    · split <;> rfl
    · rfl

/-- Without a deletion the group is not written back. -/
theorem fanFinish_server {p : Ptr} {r : Fan × FanEnd} (h : r.1.updated = false) : (fanFinish p r).server = r.1.server := by
  unfold fanFinish
  split
  · rfl
  · rfl
  · simp only at h
    simp [h]

variable (handle remote now fopt req)

/-- The requests go out exactly when the check on the group lets them and the loop meets somebody; when
none goes out, expired resources may have gone and nothing else has changed. -/
theorem foptOnem2mResource_spec {s : Server} {p : Ptr} {grp : RTNode} (hp : p.deref s = some grp) :
    ((foptOnem2mResource handle remote now fopt req s p).issued ≠ [] ↔
      (∃ verdict s₁, Looking.checkMacpPrivilege now req p grp (opToAcop req.op) s = some (verdict, s₁) ∧ verdict ≠ -1) ∧
      ¬ Idle remote now fopt req s p grp) ∧
    ((foptOnem2mResource handle remote now fopt req s p).issued = [] →
      s.LooksUp now (foptOnem2mResource handle remote now fopt req s p).server) := by
  unfold foptOnem2mResource Idle afterMacp
  simp only [hp]
  split
  · rename_i hmt
    exact ⟨by simp [hmt], fun _ => .refl⟩
  rename_i mt hmt
  split
  · rename_i hv
    exact ⟨by simp [hv], fun _ => .refl⟩
  rename_i verdict s₁ hv
  have hlook : s.LooksUp now s₁ := Looking.onlyLooks_checkMacpPrivilege now req p grp _ s verdict s₁ hv
  simp only [hv, Option.map_some, Option.getD_some]
  split
  · rename_i hneg
    exact ⟨by simp [hneg], fun _ => hlook⟩
  rename_i hneg
  split
  · rename_i hgone
    exact ⟨by simp [hgone], fun _ => hlook⟩
  rename_i hkept
  split
  · rename_i hc
    exact ⟨by simp [hc], fun _ => hlook⟩
  rename_i cnm hc
  split
  · rename_i h0
    exact ⟨by simp [hc, h0], fun _ => hlook⟩
  rename_i h0
  simp only [hmt, hc, Option.map_some, Option.getD_some, fanFinish_issued]
  cases hn : nobody remote now fopt req mt.valueint s₁ .null (grp.obj.arr .mid) with
  | true =>
    obtain ⟨h₁, h₂, h₃⟩ := fanLoop_nobody handle (f := ⟨s₁, .null, [], false⟩) hn
    refine ⟨by simp [h₁], fun _ => ?_⟩
    rw [fanFinish_server h₂]
    exact hlook.trans h₃
  | false =>
    have hl := fanLoop_somebody handle (f := ⟨s₁, .null, [], false⟩) hn
    refine ⟨?_, fun h => absurd h hl⟩
    simp [hl, h0, hneg, hkept]

/-- Every way `check_macp_privilege` can end: `FanAllowed` holds and it returns 0; or it fails and the
answer is a denial, a crash, or the code of the error it records for a denial by `macp`. -/
theorem checkMacpPrivilege_cases (s : Server) (p : Ptr) (grp : RTNode) :
    (FanAllowed now req s p grp ∧ ∃ s₁, Looking.checkMacpPrivilege now req p grp (opToAcop req.op) s = some (0, s₁)) ∨
    (¬ FanAllowed now req s p grp ∧ macpList grp = [] ∧
      (Looking.checkMacpPrivilege now req p grp (opToAcop req.op) s = none ∨
       ∃ s₁, Looking.checkMacpPrivilege now req p grp (opToAcop req.op) s = some (-1, s₁))) ∨
    (¬ FanAllowed now req s p grp ∧ macpList grp ≠ [] ∧ Looking.macpAcop now req grp s = none ∧
      Looking.checkMacpPrivilege now req p grp (opToAcop req.op) s = none) ∨
    (¬ FanAllowed now req s p grp ∧ macpList grp ≠ [] ∧ Looking.macpAcop now req grp s ≠ none ∧
      ∃ s₁, Looking.checkMacpPrivilege now req p grp (opToAcop req.op) s =
        some (Rsc.originatorHasNoPrivilege.code, s₁)) := by
  unfold FanAllowed Looking.checkMacpPrivilege Server.privileged
  split
  · rename_i hadmin
    exact .inl ⟨.inl hadmin, s, rfl⟩
  rename_i hadmin
  split
  · rename_i hmacp
    cases hu : Looking.macpAcop now req grp s with
    | none =>
      refine .inr (.inr (.inl ⟨?_, hmacp, rfl, ?_⟩))
      · simp [hadmin, hmacp]
      · exact Option.bind_eq_none_iff.mpr fun r hr => by rw [hu] at hr; cases hr
    | some r =>
      obtain ⟨granted, s₁⟩ := r
      have hcheck : (Looking.macpAcop now req grp).bind (fun granted => pure (if granted.covers (opToAcop req.op) then 0
          else Rsc.originatorHasNoPrivilege.code)) s =
            some (if granted.covers (opToAcop req.op) then 0 else Rsc.originatorHasNoPrivilege.code, s₁) :=
        Option.bind_eq_some_iff.mpr ⟨_, hu, rfl⟩
      rw [hcheck]
      by_cases hc : granted.covers (opToAcop req.op) = true
      · exact .inl ⟨.inr (.inl ⟨hmacp, hc⟩), s₁, by rw [if_pos hc]⟩
      · refine .inr (.inr (.inr ⟨?_, hmacp, by simp, s₁, by rw [if_neg hc]⟩))
        simp [hadmin, hmacp, hc]
  · rename_i hmacp
    have hmacp : macpList grp = [] := not_not.mp hmacp
    cases hu : Looking.checkPrivilege now req p (opToAcop req.op) s with
    | none =>
      refine .inr (.inl ⟨?_, hmacp, .inl ?_⟩)
      · simp [hadmin, hmacp]
      · exact Option.bind_eq_none_iff.mpr fun r hr => by rw [hu] at hr; cases hr
    | some r =>
      obtain ⟨ok, s₁⟩ := r
      have hcheck : (Looking.checkPrivilege now req p (opToAcop req.op)).bind (fun ok => pure (if ok then 0 else -1)) s =
          some (if ok then (0 : Int) else -1, s₁) := Option.bind_eq_some_iff.mpr ⟨_, hu, rfl⟩
      rw [hcheck]
      cases ok with
      | true => exact .inl ⟨.inr (.inr ⟨hmacp, rfl⟩), s₁, rfl⟩
      | false => exact .inr (.inl ⟨by simp [hadmin, hmacp], hmacp, .inr ⟨s₁, rfl⟩⟩)

/-- The fan-out is guarded exactly when the originator is allowed, or the decision is not made by a
`macp`, or there is nobody to fan out to: a denial by `macp` is returned as an error code that the
caller does not read as a denial. -/
theorem guarded_iff {s : Server} {p : Ptr} {grp : RTNode} (hp : p.deref s = some grp) :
    Guarded handle remote now fopt req s p grp ↔
      FanAllowed now req s p grp ∨ macpList grp = [] ∨ Looking.macpAcop now req grp s = none ∨
        Idle remote now fopt req s p grp := by
  obtain ⟨hspec, htidy⟩ := foptOnem2mResource_spec handle remote now fopt req hp
  have silent (h : ¬ (foptOnem2mResource handle remote now fopt req s p).issued ≠ []) :
      Guarded handle remote now fopt req s p grp :=
    ⟨fun h' => absurd h' h, fun _ => ⟨not_not.mp h, htidy (not_not.mp h)⟩⟩
  rcases checkMacpPrivilege_cases now req s p grp with
    ⟨ha, -⟩ | ⟨ha, hm, hv⟩ | ⟨ha, hm, hu, hv⟩ | ⟨ha, hm, hu, s₁, hv⟩
  · exact ⟨fun _ => .inl ha, fun _ => ⟨fun _ => ha, fun h => absurd ha h⟩⟩
  · refine ⟨fun _ => .inr (.inl hm), fun _ => silent ?_⟩
    rw [hspec]
    rcases hv with hv | ⟨s₁, hv⟩ <;> simp [hv]
  · refine ⟨fun _ => .inr (.inr (.inl hu)), fun _ => silent ?_⟩
    rw [hspec]
    simp [hv]
  · -- the check returns 4103, which is not -1
    have hgo : ∃ verdict s₁, Looking.checkMacpPrivilege now req p grp (opToAcop req.op) s = some (verdict, s₁) ∧
        verdict ≠ -1 := ⟨_, s₁, hv, by decide⟩
    constructor
    · intro hg
      refine .inr (.inr (.inr ?_))
      by_contra hidle
      exact ha (hg.issues (hspec.mpr ⟨hgo, hidle⟩))
    · rintro (h | h | h | hidle)
      · exact absurd h ha
      · exact absurd h hm
      · exact absurd h hu
      · exact silent fun h => (hspec.mp h).2 hidle

end

/-! ## A stranger and a group -/

instance (now : CStr) (req : Req) (s : Server) (p : Ptr) (grp : RTNode) : Decidable (FanAllowed now req s p grp) :=
  inferInstanceAs (Decidable (_ ∨ (macpList grp ≠ [] ∧ _) ∨ (macpList grp = [] ∧ _)))

/-- A container and a group it is the only member of; the group leaves its members to the default
policy, which lets everyone create. -/
def smallGroup : Option Server := do
  let s ← boot firstDay
  let cb ← s.node? 0
  let cnt ← createRtnode 2 [(.rn, .str "c".toList), (.ri, .str "3-1".toList), (.pi, .str cseBaseRi)] .cnt
  let s := s.addChildResourceTree cb cnt
  let grp ← createRtnode 3 [(.rn, .str "g".toList), (.ri, .str "9-1".toList), (.pi, .str cseBaseRi),
    (.mt, .int ResourceType.cnt.code), (.mnm, .int 10), (.cnm, .int 1), (.mid, .arr [.str "3-1".toList]),
    (.macp, .arr [.str "TinyIoT/defaultACP".toList])] .grp
  return s.addChildResourceTree cb grp

/-- A request to the members of the group. -/
def fanReq (fr : String) (op : Operation) : Req := { op := op, fr := fr.toList, target := "TinyIoT/g/fopt".toList }

theorem guarded_iff_small : ∃ s grp, smallGroup = some s ∧ (Ptr.inTree 3).deref s = some grp ∧
    ∀ handle remote, Guarded handle remote firstDay.now none (fanReq "CStranger" .create) s (.inTree 3) grp := by
  have hrun : smallGroup.any (fun s => ((Ptr.inTree 3).deref s).any fun grp =>
      decide (FanAllowed firstDay.now (fanReq "CStranger" .create) s (.inTree 3) grp)) = true := by decide +kernel
  obtain ⟨s, hs, h⟩ := (Option.any_eq_true _ _).mp hrun
  obtain ⟨grp, hg, h⟩ := (Option.any_eq_true _ _).mp h
  exact ⟨s, grp, hs, hg, fun handle remote =>
    (guarded_iff handle remote firstDay.now none (fanReq "CStranger" .create) hg).mpr (.inl (of_decide_eq_true h))⟩

/-- The default policy lets a stranger create only, and yet the member gets a request to retrieve. -/
theorem not_guarded_macp : ¬ ∀ handle remote now fopt req s p grp, p.deref s = some grp →
    Guarded handle remote now fopt req s p grp := by
  intro hall
  -- the handler refuses the member request, as `check_privilege` on the member does for a stranger
  have hrun : smallGroup.any (fun s => ((Ptr.inTree 3).deref s).any fun grp =>
      !decide (FanAllowed firstDay.now (fanReq "CStranger" .retrieve) s (.inTree 3) grp) &&
      !(foptOnem2mResource (fun s _ _ => some (s, .originatorHasNoPrivilege)) (fun _ _ => none) firstDay.now none
        (fanReq "CStranger" .retrieve) s (.inTree 3)).issued.isEmpty) = true := by decide +kernel
  obtain ⟨s, -, h⟩ := (Option.any_eq_true _ _).mp hrun
  obtain ⟨grp, hg, h⟩ := (Option.any_eq_true _ _).mp h
  simp only [Bool.and_eq_true, Bool.not_eq_true', decide_eq_false_iff_not, List.isEmpty_eq_false_iff] at h
  exact h.1 ((hall _ _ _ _ _ _ _ _ hg).issues h.2)

end TinyIoT
