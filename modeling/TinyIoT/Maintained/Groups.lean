/-
What a create request leaves of a group's `cnm`: the check of the members refuses or keeps the entries there are,
and the count of the CSE comes after them.
-/
import TinyIoT.Groups.Membership
import TinyIoT.Maintained.Creates

namespace TinyIoT

/-! ## Refusals -/

/-- The statuses the check of the members refuses with. -/
def memberRefusals : List Rsc := [.badRequest, .receiverHasNoPrivileges, .groupmemberTypeInconsistent]

section

variable {g : GrpEnv} {s s' : Server} {nested : Server → Obj → Int → Option Checked} {csy : Int} {c c' : Checking} {rsc : Rsc}

theorem seekFailed_refused {v : MemberVar} {isRemote : Bool} {rsc' : Rsc} (hr : rsc ∈ memberRefusals)
    (h : seekFailed csy rsc v isRemote = .refused rsc') : rsc' ∈ memberRefusals := by
  unfold seekFailed at h
  split at h
  · cases h
    exact hr
  · split at h <;> cases h

theorem seekMember_refused {prev : MemberVar} {addr : CStr} (h : (seekMember g s csy prev addr).2 = .refused rsc) :
    rsc ∈ memberRefusals := by
  have hlocal : ∀ addr, (seekLocal g s csy addr).2 = .refused rsc → rsc ∈ memberRefusals := by
    intro addr h
    rcases seekLocal_cases g s csy addr with ⟨n, -, he⟩ | ⟨-, he⟩
    · rw [he] at h
      cases h
    · rw [he] at h
      exact seekFailed_refused (by decide) h
  unfold seekMember at h
  split at h
  · exact hlocal _ h
  · split at h
    · exact hlocal _ h
    · split at h
      · cases h
      · refine seekFailed_refused ?_ h
        unfold remoteRefusal
        split <;> decide
  · exact seekFailed_refused (by decide) h

theorem checkMember_refused {entry : Json} (h : checkMember g nested csy c entry = some (.refused rsc s')) :
    rsc ∈ memberRefusals := by
  unfold checkMember at h
  obtain ⟨mid, -, h⟩ := Option.bind_eq_some_iff.mp h
  dsimp only at h
  split at h
  · rename_i hseek
    cases h
    exact seekMember_refused hseek
  · cases h
  · obtain ⟨n, -, h⟩ := Option.bind_eq_some_iff.mp h
    unfold useMember at h
    dsimp only at h
    split at h
    · rename_i hfit
      cases h
      unfold fitType at hfit
      split at hfit
      · split at hfit
        · cases hfit
          decide
        · split at hfit <;> cases hfit
      · cases hfit
    · cases h
    · cases h
    · obtain ⟨fit, hfit, h⟩ := Option.bind_eq_some_iff.mp h
      split at h
      · cases h
        unfold fitGroup at hfit
        split at hfit
        · obtain ⟨r, -, hr⟩ := Option.bind_eq_some_iff.mp hfit
          dsimp only at hr
          split at hr
          · have hfit := Option.some.inj hr
            unfold nestedFit at hfit
            split at hfit
            · cases hfit
            · split at hfit
              · cases hfit
                decide
              · split at hfit <;> cases hfit
            · cases hfit
            · cases hfit
          · cases hr
        · cases hfit
      · cases h
      · cases h
      · obtain ⟨c, -, hc⟩ := Option.map_eq_some_iff.mp h
        cases hc

theorem checkMembers_refused {l : List Json} (h : checkMembers g nested csy l c = some (.refused rsc s')) :
    rsc ∈ memberRefusals := by
  induction l generalizing c with
  | nil => cases h
  | cons entry l ih =>
    unfold checkMembers at h
    obtain ⟨r, hr, h⟩ := Option.bind_eq_some_iff.mp h
    cases r with
    | next c => exact ih h
    | refused rsc' _ =>
      cases h
      exact checkMember_refused hr
    | deep => cases h

theorem validateGrpMember_refused {depth : Nat} {grp : Obj} {mt : Int}
    (h : validateGrpMember g depth s grp csy mt = some (.refused rsc s')) : rsc ∈ memberRefusals := by
  cases depth with
  | zero => cases h
  | succ depth => exact checkMembers_refused h

theorem not_accepted_of_memberRefusal {msg : String} (h : rsc ∈ memberRefusals) :
    (handleError rsc msg).accepted = false := by
  simp only [memberRefusals, List.mem_cons, List.not_mem_nil, or_false] at h
  rcases h with rfl | rfl | rfl <;> rfl

theorem denies_checkCsy (grp : Obj) : Denies (checkCsy grp) := .ite (.handled rfl) (.ok ())

theorem denies_checkMid (grp : Obj) : Denies (checkMid grp) := .ite (.ok ()) (.handled rfl)

theorem denies_checkGrp (now : CStr) (s : Server) (grp : Obj) : Denies (checkGrp now s grp) := by
  have hgn : Denies (checkGn grp) := by
    unfold checkGn
    split
    · exact .ok ()
    · split
      · exact .handled rfl
      · exact .ite (.handled rfl) (.ite (.handled rfl) (.ok ()))
  have hmacp : Denies (checkMacp now s grp) := by
    unfold checkMacp
    split
    · exact .ok ()
    · exact .ite (.handled rfl) (.ite (.ok ()) (denies_validateAcpi _ _ _ _))
  have hnames : Denies (checkGrpNames grp) := by
    unfold checkGrpNames
    exact .bind hgn fun _ => .bind (denies_checkMid _) fun _ => .ite (.handled rfl) (.ok ())
  unfold checkGrp
  refine .bind hnames fun _ => .bind hmacp fun _ => ?_
  split
  · exact .ok ()
  · exact denies_validateAcpi _ _ _ _

theorem validateGrp_error {grp : Obj} {r : Resp} (h : validateGrp g s grp = some (s', .error r)) : r.accepted = false := by
  unfold validateGrp at h
  split at h
  · rename_i he
    cases h
    exact Denies.bind (denies_validateMandatoryAttrs _ _ _) (fun _ => denies_checkCsy grp) _ he
  · split at h
    · cases h
    · split at h
      · rename_i he
        cases h
        exact denies_checkGrp _ _ _ _ he
      · unfold checkedGrp at h
        obtain ⟨c, hc, h⟩ := Option.bind_eq_some_iff.mp h
        split at h
        · cases h
        · cases h
          exact not_accepted_of_memberRefusal (validateGrpMember_refused hc)
        · cases h

end

namespace Server

variable {s s' : Server}

/-- A node that was made and is still there, with its entries. -/
theorem OnlyMembership.madeAt (h : s.OnlyMembership s') (hs : s.NodupIds) {i : Nat} {ty : ResourceType} {o : Obj}
    (hm : s.MadeAt i ty o) {n : RTNode} (hn : s'.node? i = some n) :
    s'.MadeAt i ty n.obj ∧ ∀ k ∉ [Attr.cni, .cbs], Assoc.entries n.obj k = Assoc.entries o k := by
  obtain ⟨hmem, hi⟩ := node?_mem hn
  obtain ⟨m, hm', hk⟩ := h.tree.mem hmem
  obtain ⟨hty, rfl⟩ := hm.only m hm' (hk.id.trans hi)
  refine ⟨⟨⟨n, hmem, hi⟩, fun n' hn' hi' => ?_⟩, hk.attrs⟩
  obtain rfl := (h.nodupIds hs).eq hn' hmem (hi'.trans hi.symm)
  exact ⟨hk.ty.trans hty, rfl⟩

end Server

/-! ## Create -/

section

variable {g : GrpEnv} {req : Req} {s s' : Server} {parent : RTNode} {r : Resp}

/-- The count of a new group comes after what the body says of it. -/
theorem createGrp_made (hs : s.Sane) (h : s.createGrp g req parent = some (s', r))
    (hr : r.rsc = .created) :
    ∃ o cnm, s'.MadeAt s.nextId .grp o ∧ Assoc.entries o .cnm = Assoc.entries req.pc .cnm ++ [(.cnm, .int cnm)] := by
  unfold Server.createGrp at h
  simp only [Option.bind_eq_bind, Option.bind_eq_some_iff] at h
  obtain ⟨⟨grp, n⟩, hgen, ⟨s₂, v⟩, hv, h⟩ := h
  -- what the lookups of the check leave
  have hlook := looksUp_validateGrp hv
  have hspares := hlook.spares (s := { s with riCount := n }) hs.ids
  have hs₂ : s₂.Sane := hspares.sane (hs.congr rfl le_rfl)
  have hnext : s₂.nextId = s.nextId := hspares.nextId
  cases v with
  | error e =>
    cases h
    have := validateGrp_error hv
    rw [Resp.accepted, hr] at this
    cases this
  | ok o =>
    dsimp only at h
    split at h
    · rename_i he
      cases h
      have := denies_assignCreator _ _ _ he
      rw [Resp.accepted, hr] at this
      cases this
    · rename_i o₁ hcr
      simp only [Option.bind_eq_some_iff] at h
      obtain ⟨p₂, hp₂, ⟨s₁, r₁⟩, hst, h⟩ := h
      obtain ⟨hp₂, hpid⟩ := Server.node?_mem hp₂
      have hr₁ : r₁.rsc = .created := by
        split at h
        · cases h
          exact hr
        · split at h
          · assumption
          · cases h
            exact hr
      obtain ⟨x, hx, hids, hmade⟩ := Server.storeResource_accepted hs₂ hp₂ hpid (by decide) (by decide) hst hr₁
      have hent : Assoc.entries x.obj .cnm =
          Assoc.entries req.pc .cnm ++ [(.cnm, .int ((announceAt g.toEnv o₁).arr .mid).length)] := by
        rw [entries_createRtnode hx (by decide), addCnm, Assoc.entries_add_self, entries_announceAt (by decide),
          entries_assignCreator hcr (by decide), entries_validateGrp (by decide) hv, entries_addGeneralAttribute (by decide) hgen]
      rw [hnext] at hmade
      split at h
      · cases h
        exact ⟨_, _, hmade, hent⟩
      · rename_i node hnode
        rw [if_pos hr₁] at h
        obtain ⟨s₃, hset, ⟨⟩⟩ := Option.map_eq_some_iff.mp h
        have honly := Server.OnlyMembership.setGrpMember hids hset
        unfold Server.setGrpMember at hset
        obtain ⟨n', hn', rfl⟩ := Option.map_eq_some_iff.mp hset
        rw [(Server.node?_mem hnode).2, hnext] at hn'
        obtain ⟨hmade', hsame⟩ := honly.madeAt hids hmade hn'
        exact ⟨_, _, hmade', (hsame .cnm (by decide)).trans hent⟩

end

end TinyIoT
