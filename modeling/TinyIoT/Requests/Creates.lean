/-
What the create handlers come to, one inversion lemma for each: the request is refused, and only the counter of the
identifiers has moved on and expired resources were looked up; or a resource is stored whose object has the type, the identifiers, the name, the time
and the `acpi` of the body with the general attributes.
-/
import TinyIoT.Requests.Handlers
import TinyIoT.Requests.Stamps
import TinyIoT.FlexContainer.Handlers
import TinyIoT.TimeSeries.Creates
import TinyIoT.Maintained.Groups

namespace TinyIoT

/-- The object a create handler stores has the stamp and the `acpi` of the one it starts from. -/
abbrev SameStored : Obj → Obj → Prop := SameOn (.acpi :: stampAttrs)

namespace Server

/-- A create request that stores nothing: an identifier may be drawn, and what its body names is looked up. -/
def Refused (now : CStr) (s s' : Server) (r : Resp) : Prop :=
  (∃ n, (n = s.riCount ∨ n = (s.riCount + 1) % 10000) ∧ LooksUp now { s with riCount := n } s') ∧ r.rsc ≠ .created

variable {env : Env} {req : Req} {s s' : Server} {parent : RTNode} {r : Resp}

theorem addGeneralAttribute_count {ty : ResourceType} {p o₀ : Obj} {c n : Nat} (h : addGeneralAttribute env o p ty c = some (o₀, n)) :
    n = (c + 1) % 10000 := by
  unfold addGeneralAttribute at h
  simp only [Option.bind_eq_bind, Option.bind_eq_some_iff, Option.pure_def, Option.some.injEq, Prod.mk.injEq] at h
  obtain ⟨-, -, -, rfl⟩ := h
  rfl

theorem Refused.same {now : CStr} (hr : r.rsc ≠ .created) : s.Refused now s r := ⟨⟨s.riCount, .inl rfl, .refl⟩, hr⟩

/-- An identifier is drawn before the request is refused. -/
theorem Refused.drawn {now : CStr} {ty : ResourceType} {p o₀ : Obj} {n : Nat}
    (hgen : addGeneralAttribute env o p ty s.riCount = some (o₀, n)) (hs : LooksUp now { s with riCount := n } s')
    (hr : r.rsc ≠ .created) : s.Refused now s' r :=
  ⟨⟨n, .inr (addGeneralAttribute_count hgen), hs⟩, hr⟩

/-! ## Application entities, policies and other CSEs -/

theorem denies_validateAe (now : CStr) (s : Server) (rvi : Int) (ae : Obj) (op : Operation) :
    Denies (validateAe now s rvi ae op) := by
  have hnames : Denies (checkAeNames rvi ae op) := by
    unfold checkAeNames
    refine .ite (.stop rfl) (.bind (denies_validateMandatoryAttrs _ _ _) fun _ => ?_)
    dsimp only
    exact .ite (.stop rfl) (.ite (.handled rfl) (.ok ()))
  unfold validateAe
  refine .bind hnames fun _ => ?_
  split
  · exact .ok ()
  · exact denies_validateAcpi _ _ _ _

theorem checkAeiDuplicate_error (h : s.checkAeiDuplicate req.fr parent = some (.error r)) : r.rsc ≠ .created := by
  unfold checkAeiDuplicate at h
  dsimp only at h
  split at h
  · cases h
    decide
  · rw [Option.ite_none_right_eq_some] at h
    cases h.2

theorem checkRnInvalid_error {body : Obj} (h : checkRnInvalid body = some (.error r)) : r.rsc ≠ .created := by
  unfold checkRnInvalid at h
  split at h
  · cases h
  · obtain ⟨rn, -, h⟩ := Option.map_eq_some_iff.mp h
    split at h <;> cases h
    decide

theorem createAe_cases (h : s.createAe env req parent = some (s', r)) : s.Refused env.now s' r ∨
    ∃ o₀ n o₁ o, addGeneralAttribute env req.pc parent.obj .ae s.riCount = some (o₀, n) ∧
      assignAeId req.fr (validateAa .create o₀ .ae) = some o₁ ∧
      validateAe env.now { s with riCount := n } req.rvi o₀ .create = .ok () ∧ SameStored o₁ o ∧
      { s with riCount := n }.storeResource parent o .ae = some (s', r) := by
  unfold createAe at h
  obtain ⟨dup, hdup, h⟩ := Option.bind_eq_some_iff.mp h
  split at h
  · rename_i e he
    cases h
    refine .inl (.same ?_)
    cases dup with
    | error d =>
      cases he
      exact checkAeiDuplicate_error hdup
    | ok _ =>
      refine Denies.ne_created (x := checkAeiInvalid req.fr) ?_ he
      exact .ite (.handled rfl) (.ok ())
  · obtain ⟨rn, hrn, h⟩ := Option.bind_eq_some_iff.mp h
    cases rn with
    | error e =>
      cases h
      exact .inl (.same (checkRnInvalid_error hrn))
    | ok _ =>
      simp only [Option.bind_eq_bind, Option.bind_eq_some_iff] at h
      obtain ⟨⟨o₀, n⟩, hgen, built, hbuilt, h⟩ := h
      unfold buildAe at hbuilt
      rw [Option.ite_none_right_eq_some] at hbuilt
      obtain ⟨o₁, hid, hbuilt⟩ := Option.map_eq_some_iff.mp hbuilt.2
      cases hv : validateAe env.now { s with riCount := n } req.rvi o₀ .create with
      | error e =>
        rw [hv] at hbuilt
        cases hbuilt
        cases h
        exact .inl (.drawn hgen (looksUp_afterChecks _ _) ((denies_validateAe _ _ _ _ _).ne_created hv))
      | ok _ =>
        rw [hv] at hbuilt
        cases hbuilt
        refine .inr ⟨o₀, n, o₁, _, hgen, hid, hv, ?_, h⟩
        refine .trans ?_ (.announceAt env _ (by decide))
        unfold addAei
        cases o₁.str .ri with
        | none => exact .refl _ o₁
        | some ri => exact .add o₁ _ (by decide)

theorem denies_validateAcp (acp : Obj) (op : Operation) : Denies (validateAcp acp op) := by
  have hrule : ∀ acr, Denies (validateRule acr) := fun acr =>
    .ite (.handled rfl) (.ite (.handled rfl) (.ite (.handled rfl) (.ite (.handled rfl) (.ok ()))))
  have hacr : ∀ privilege name b, Denies (validateAcpAcr privilege name b) := by
    intro privilege name b
    unfold validateAcpAcr
    split
    · split
      · exact .ite (.handled rfl) (.forM hrule _)
      · exact .handled rfl
    · exact .handled rfl
  unfold validateAcp
  refine .bind (denies_validateMandatoryAttrs _ _ _) fun _ => ?_
  dsimp only
  have hpvs : Denies (if op = .create ∨ acp.has .pvs then validateAcpAcr (acp.get .pvs) "pvs" true else pure ()) :=
    .ite (hacr _ _ _) (.ok ())
  exact .ite (.bind (hacr _ _ _) fun _ => hpvs) hpvs

theorem createAcp_cases (h : s.createAcp env req parent = some (s', r)) : s.Refused env.now s' r ∨
    ∃ o₀ n o, addGeneralAttribute env req.pc parent.obj .acp s.riCount = some (o₀, n) ∧ SameStored o₀ o ∧
      { s with riCount := n }.storeResource parent o .acp = some (s', r) := by
  unfold createAcp at h
  split at h
  · cases h
    exact .inl (.same (by decide))
  · simp only [Option.bind_eq_bind, Option.bind_eq_some_iff] at h
    obtain ⟨⟨o₀, n⟩, hgen, h⟩ := h
    dsimp only at h
    split at h
    · rename_i e he
      cases h
      exact .inl (.drawn hgen .refl ((denies_validateAcp _ _).ne_created he))
    · exact .inr ⟨o₀, n, _, hgen, (SameOn.validateAa .create o₀ .acp (by decide)).trans (.announceAt env _ (by decide)), h⟩

theorem denies_validateCsr (s : Server) (parent : RTNode) (csr : Obj) (op : Operation) :
    Denies (validateCsr s parent csr op) := by
  unfold validateCsr
  refine .bind (denies_validateMandatoryAttrs _ _ _) fun _ => ?_
  dsimp only
  exact .ite (.stop rfl) (.ite (.stop rfl) (.ite (.handled rfl) (.ok ())))

theorem createCsr_cases (h : s.createCsr env req parent = some (s', r)) : s.Refused env.now s' r ∨
    ∃ o₀ n o, addGeneralAttribute env req.pc parent.obj .csr s.riCount = some (o₀, n) ∧ SameStored o₀ o ∧
      o = (o₀.del .csi).add .csi (.str req.fr) ∧ validateCsr { s with riCount := n } parent o .create = .ok () ∧
      { s with riCount := n }.storeCsr parent o = some (s', r) := by
  unfold createCsr at h
  obtain ⟨rn, hrn, h⟩ := Option.bind_eq_some_iff.mp h
  cases rn with
  | error e =>
    cases h
    exact .inl (.same (checkRnInvalid_error hrn))
  | ok _ =>
    simp only [Option.bind_eq_bind, Option.bind_eq_some_iff] at h
    obtain ⟨⟨o₀, n⟩, hgen, h⟩ := h
    dsimp only at h
    split at h
    · cases h
      exact .inl (.drawn hgen .refl (by decide))
    · split at h
      · rename_i e he
        cases h
        exact .inl (.drawn hgen .refl ((denies_validateCsr _ _ _ _).ne_created he))
      · rename_i hv
        exact .inr ⟨o₀, n, _, hgen, (SameOn.del o₀ (by decide)).trans (.add _ _ (by decide)), rfl, hv, h⟩

/-! ## Containers, subscriptions, groups and time series -/

theorem createCnt_cases (h : s.createCnt env req parent = some (s', r)) : s.Refused env.now s' r ∨
    ∃ o₀ n o, addGeneralAttribute env req.pc parent.obj .cnt s.riCount = some (o₀, n) ∧
      buildCnt env req { s with riCount := n } o₀ = .ok o ∧ SameStored o₀ o ∧
      { s with riCount := n }.storeResource parent o .cnt = some (s', r) := by
  unfold createCnt at h
  simp only [Option.bind_eq_bind, Option.bind_eq_some_iff] at h
  obtain ⟨⟨o₀, n⟩, hgen, h⟩ := h
  dsimp only at h
  split at h
  · rename_i e he
    cases h
    exact .inl (.drawn hgen (looksUp_afterChecks _ _) ((denies_buildCnt _ _ _ _).ne_created he))
  · rename_i o ho
    exact .inr ⟨o₀, n, o, hgen, ho, .of_get (by decide) (buildCnt_ok ho).1, h⟩

theorem denies_verificationResult (rsc : Int) : Denies (verificationResult rsc) :=
  .ite (.handled rfl) (.ite (.handled rfl) (.ite (.handled rfl) (.ok ())))

theorem denies_verifyTarget (now : CStr) (verify : CStr → Int) (req : Req) (s : Server) (nu : Json) :
    Denies (verifyTarget now verify req s nu).2 := by
  unfold verifyTarget
  split
  · exact .ok ()
  · dsimp only
    split
    · exact .ite (.ok ()) (.ite (.handled rfl) (.ite (.ok ()) (denies_verificationResult _)))
    · exact .ite (.ok ()) (denies_verificationResult _)

theorem denies_verifyAll {target : Server → Json → Server × Except Resp Unit} (h : ∀ s nu, Denies (target s nu).2)
    (l : List Json) (s : Server) : Denies (verifyAll target s l).2 := by
  induction l generalizing s with
  | nil => exact .ok ()
  | cons nu l ih =>
    have hnu := h s nu
    unfold verifyAll
    split
    · rename_i s₁ e he
      rw [he] at hnu
      exact hnu
    · exact ih _

theorem denies_validateSub (now : CStr) (s : Server) (sub : Obj) (op : Operation) : Denies (validateSub now s sub op) := by
  have hnames : Denies (checkSubNames sub op) :=
    .bind (denies_validateMandatoryAttrs _ _ _) fun _ => .ite (.handled rfl) (.ok ())
  have hacpi : Denies (checkSubAcpi now s sub op) := by
    unfold checkSubAcpi
    split
    · exact .ok ()
    · exact denies_validateAcpi _ _ _ _
  have hnet : ∀ net, Denies (checkNet (sub.get .enc) (sub.get .nct) net) := by
    intro net
    unfold checkNet
    refine .ite (.handled rfl) ?_
    split
    · exact .ok ()
    · exact .ite (.ite (.handled rfl) (.ite (.handled rfl) (.ok ()))) (.ite (.handled rfl) (.ok ()))
  have hnu : Denies (checkNu (sub.get .nu)) := by
    unfold checkNu
    split
    · exact .ok ()
    · exact .ite (.handled rfl) (.ok ())
    · exact .handled rfl
  exact .bind hnames fun _ => .bind hacpi fun _ => .bind (.forM hnet _) fun _ => hnu

theorem denies_buildSub (env : Env) (req : Req) (s : Server) (parent : RTNode) (o : Obj) :
    Denies (buildSub env req s parent o) := by
  unfold buildSub
  split
  · rename_i e he
    refine .bind (denies_assignCreator _ _) fun _ => ?_
    rintro r ⟨⟩
    exact denies_validateSub _ _ _ _ _ he
  · exact .bind (.ite (.handled rfl) (.ok ())) fun _ => denies_assignCreator _ _

theorem sameStored_buildSub {o o' : Obj} (h : buildSub env req s parent o = .ok o') :
    validateSub env.now s o .create = .ok () ∧ SameStored o o' := by
  unfold buildSub at h
  split at h
  · obtain ⟨_, -, h⟩ := bind_ok h
    cases h
  · rename_i hv
    obtain ⟨⟨⟩, -, hcr⟩ := bind_ok h
    refine ⟨hv, .trans ?_ (.assignCreator hcr (by decide))⟩
    split
    · exact .refl _ o
    · exact .add o _ (by decide)

/-- Under a content instance only the row is made, and the answer is a refusal. -/
theorem createSub_cases {verify : CStr → Int} (h : s.createSub env verify req parent = some (s', r)) :
    s.Refused env.now s' r ∨
    ∃ o₀ n o, ∃ s₁ : Server, addGeneralAttribute env req.pc parent.obj .sub s.riCount = some (o₀, n) ∧
      validateSub env.now { s with riCount := n } o₀ .create = .ok () ∧ SameStored o₀ o ∧
      LooksUp env.now { s with riCount := n } s₁ ∧
      ((parent.ty = .cin ∧ r.rsc ≠ .created ∧ ∃ uri db, s₁.db.dbStoreResource o uri = some db ∧
        s' = { s₁ with db := db }) ∨
      ((s₁.node? parent.id).isSome ∧ s₁.storeResource parent o .sub = some (s', r))) := by
  unfold createSub at h
  simp only [Option.bind_eq_bind, Option.bind_eq_some_iff] at h
  obtain ⟨⟨o₀, n⟩, hgen, h⟩ := h
  dsimp only at h
  split at h
  · rename_i e he
    cases h
    exact .inl (.drawn hgen (looksUp_afterChecks _ _) ((denies_buildSub _ _ _ _ _).ne_created he))
  · rename_i o ho
    obtain ⟨hv, hsame⟩ := sameStored_buildSub ho
    have hlook := looksUp_verifyAll (looksUp_verifyTarget env.now verify req) (o.arr .nu) { s with riCount := n }
    have hdeny := denies_verifyAll (denies_verifyTarget env.now verify req) (o.arr .nu) { s with riCount := n }
    split at h
    · rename_i s₁ e he
      rw [he] at hlook hdeny
      cases h
      exact .inl (.drawn hgen hlook (hdeny.ne_created rfl))
    · rename_i s₁ he
      rw [he] at hlook
      unfold storeSub at h
      split at h
      · rename_i hcin
        obtain ⟨rn, -, h⟩ := Option.bind_eq_some_iff.mp h
        split at h
        · cases h
          exact .inl (.drawn hgen hlook (by decide))
        · rename_i db hdb
          cases h
          exact .inr ⟨o₀, n, o, s₁, hgen, hv, hsame, hlook, .inl ⟨hcin, by decide, _, db, hdb, rfl⟩⟩
      · split at h
        · rename_i hparent
          exact .inr ⟨o₀, n, o, s₁, hgen, hv, hsame, hlook, .inr ⟨hparent, h⟩⟩
        · cases h

theorem not_created_of_denied (h : r.accepted = false) : r.rsc ≠ .created := by
  intro hr
  rw [Resp.accepted, hr] at h
  cases h

theorem createGrp_cases {g : GrpEnv} (h : s.createGrp g req parent = some (s', r)) : s.Refused g.now s' r ∨
    ∃ o₀ n o₁ o, ∃ s₁ s₂ : Server, addGeneralAttribute g.toEnv req.pc parent.obj .grp s.riCount = some (o₀, n) ∧
      validateGrp g { s with riCount := n } o₀ = some (s₁, .ok o₁) ∧ SameStored o₀ o ∧ (s₁.node? parent.id).isSome ∧
      s₁.storeResource parent o .grp = some (s₂, r) ∧
      (s' = s₂ ∨ ∃ grp ∈ s₂.tree.nodes, s₂.setGrpMember g.now grp = some s') := by
  unfold createGrp at h
  simp only [Option.bind_eq_bind, Option.bind_eq_some_iff] at h
  obtain ⟨⟨o₀, n⟩, hgen, ⟨s₁, v⟩, hv, h⟩ := h
  have hlook := looksUp_validateGrp hv
  cases v with
  | error e =>
    cases h
    exact .inl (.drawn hgen hlook (not_created_of_denied (validateGrp_error hv)))
  | ok o₁ =>
    dsimp only at h
    split at h
    · rename_i e he
      cases h
      exact .inl (.drawn hgen hlook ((denies_assignCreator _ _).ne_created he))
    · rename_i o₂ hcr
      have hsame : SameStored o₀ (addCnm (announceAt g.toEnv o₂)) := by
        refine .trans (fun k hk => ?_) ((SameOn.assignCreator hcr (by decide)).trans
          ((SameOn.announceAt g.toEnv o₂ (by decide)).trans (.add _ _ (by decide))))
        exact Assoc.get_congr (entries_validateGrp (by revert k; decide) hv)
      simp only [Option.bind_eq_some_iff] at h
      obtain ⟨p, hp, ⟨s₂, r₁⟩, hst, h⟩ := h
      dsimp only at h
      split at h
      · cases h
        exact .inr ⟨o₀, n, o₁, _, s₁, s', hgen, hv, hsame, by rw [hp]; rfl, hst, .inl rfl⟩
      · rename_i node hnode
        split at h
        · obtain ⟨s₃, hs₃, h⟩ := Option.map_eq_some_iff.mp h
          cases h
          exact .inr ⟨o₀, n, o₁, _, s₁, s₂, hgen, hv, hsame, by rw [hp]; rfl, hst, .inr ⟨node, (node?_mem hnode).1, hs₃⟩⟩
        · cases h
          exact .inr ⟨o₀, n, o₁, _, s₁, s', hgen, hv, hsame, by rw [hp]; rfl, hst, .inl rfl⟩

theorem denies_buildTs (env : Env) (req : Req) (o : Obj) : Denies (buildTs env req o) := by
  have hvalid : ∀ o, Denies (validateTs o .create) := fun o =>
    .bind (denies_validateMandatoryAttrs _ _ _) fun _ => .ite (.handled rfl) (.ok ())
  have hcnf : ∀ o, Denies (checkTsCnf o) := by
    intro o
    unfold checkTsCnf
    split
    · exact .ok ()
    · exact .ite (.ok ()) (.handled rfl)
    · exact .handled rfl
  have hdetection : ∀ mdt mdn, Denies (checkDetection mdt mdn) := fun _ _ => .ite (.ok ()) (.handled rfl)
  unfold buildTs
  refine .bind (hvalid _) fun _ => ?_
  dsimp only
  -- what follows the checks of the detection does not depend on them
  generalize createPeriod (o.orAdd .cr (.str req.fr)) = p
  refine .ite (.bind (hdetection _ _) fun _ => .bind (hcnf _) fun _ => ?_) (.bind (hcnf _) fun _ => ?_)
  all_goals
    split
    · split
      · exact .stop rfl
      · exact .ok _
    · exact .ok _

theorem createTs_cases (h : s.createTs env req parent = some (s', r)) : s.Refused env.now s' r ∨
    ∃ o₀ n o, addGeneralAttribute env req.pc parent.obj .ts s.riCount = some (o₀, n) ∧ SameStored o₀ o ∧
      { s with riCount := n }.storeResource parent o .ts = some (s', r) := by
  unfold createTs at h
  split at h
  · cases h
    exact .inl (.same (by decide))
  · simp only [Option.bind_eq_bind, Option.bind_eq_some_iff] at h
    obtain ⟨⟨o₀, n⟩, hgen, h⟩ := h
    dsimp only at h
    split at h
    · rename_i e he
      cases h
      exact .inl (.drawn hgen .refl ((denies_buildTs _ _ _).ne_created he))
    · rename_i o ho
      exact .inr ⟨o₀, n, o, hgen, .of_get (by decide) (buildTs_ok ho), h⟩

/-! ## Announced resources -/

theorem createAnnc_cases {ty : ResourceType} (h : s.createAnnc env req ty parent = some (s', r)) :
    ∃ o₀ n, addGeneralAttribute env (if ty = .cba then req.pc.del .et else req.pc) parent.obj ty s.riCount = some (o₀, n) ∧
      { s with riCount := n }.storeResource parent o₀ ty = some (s', r) := by
  unfold createAnnc at h
  simp only [Option.bind_eq_bind, Option.bind_eq_some_iff] at h
  obtain ⟨⟨o₀, n⟩, hgen, h⟩ := h
  exact ⟨o₀, n, hgen, h⟩

/-! ## Content instances -/

theorem createCin_cases (h : s.createCin env req parent = some (s', r)) : s.Refused env.now s' r ∨
    ∃ o₀ n st o node s₁, addGeneralAttribute env req.pc parent.obj .cin s.riCount = some (o₀, n) ∧
      parent.obj.get .st = some st ∧ buildCin env req parent.obj st.valueint o₀ = .ok o ∧
      createRtnode s.nextId o .cin = some node ∧
      { s with riCount := n }.addCnt env (.inTree parent.id) node.obj = some s₁ ∧ ∃ db,
        s₁.db.dbStoreResource node.obj (parent.uri ++ '/' :: node.rn) = some db ∧
        s' = { s₁ with db := db, nextId := s₁.nextId + 1 }.cacheLatest parent node := by
  unfold createCin at h
  simp only [Option.bind_eq_bind, Option.bind_eq_some_iff] at h
  obtain ⟨⟨o₀, n⟩, hgen, st, hst, h⟩ := h
  dsimp only at h
  split at h
  · rename_i e he
    cases h
    exact .inl (.drawn hgen .refl ((denies_buildCin _ _ _ _ _).ne_created he))
  · rename_i o ho
    simp only [Option.bind_eq_some_iff] at h
    obtain ⟨node, hnode, s₁, hs₁, db, hdb, h⟩ := h
    cases h
    exact .inr ⟨o₀, n, st, o, node, s₁, hgen, hst, ho, hnode, hs₁, db, hdb, rfl⟩

/-! ## Instances of a time series -/

theorem sameStored_normalizeCount (ts : Obj) {k : Attr} (hk : k ∉ .acpi :: stampAttrs) :
    SameStored ts (normalizeCount ts k) := by
  unfold normalizeCount
  split
  · exact .add ts _ hk
  · exact .set ts _ hk

theorem sameStored_countIn (db : Db) (tsRi : CStr) (cs : Int) (ts : Obj) : SameStored ts (countIn db tsRi cs ts) := by
  unfold countIn
  dsimp only
  split
  · split
    · exact .refl _ ts
    · exact .set ts _ (by decide)
  · refine .trans ?_ (.set _ _ (by decide))
    split
    · exact .refl _ ts
    · exact .set ts _ (by decide)

theorem sameStored_recordMissing (ts : Obj) (time : CStr) : SameStored ts (recordMissing ts time) := by
  have hput : ∀ (o : Obj) (k : Attr) (v : Json), k ∉ .acpi :: stampAttrs →
      SameStored o (if o.has k then o.set k v else o.add k v) := by
    intro o k v hk
    split
    · exact .set o v hk
    · exact .add o v hk
  exact (hput ts .mdlt _ (by decide)).trans (hput _ .mdc _ (by decide))

theorem sameStored_detectMissing (env : TsEnv) (db : Db) (ts : Obj) (tsRi : CStr) (dgt : Option CStr) (snr : Int) :
    SameStored ts (detectMissing env db ts tsRi dgt snr) := by
  unfold detectMissing
  split
  · split
    · split
      · exact .refl _ ts
      · exact sameStored_recordMissing ts _
    · exact .refl _ ts
  · exact .refl _ ts

theorem sameStored_putStr (o : Obj) (v : CStr) {k : Attr} (hk : k ∉ .acpi :: stampAttrs) : SameStored o (o.putStr k v) := by
  unfold Obj.putStr
  split
  · exact .set o _ hk
  · exact .add o _ hk

/-- The body of a new instance as far as it goes into the stamp; a name may be made for it. -/
theorem get_tsiBody {db : Db} {tsRi : CStr} {snr : Int} {o : Obj} {v : Json} {k : Attr}
    (hk : k ∈ [Attr.ty, .ri, .pi, .ct, .acpi]) : (buildTsi db tsRi snr ((o.del .cs).add .cs v)).get k = o.get k := by
  have hbody : SameOn [.ty, .ri, .pi, .ct, .acpi] o ((o.del .cs).add .cs v) :=
    (SameOn.del o (by decide)).trans (.add _ _ (by decide))
  exact ((hbody.trans (.orAdd _ _ (by decide))).trans (.orAdd _ _ (by decide))) k hk

/-- The name of a new instance is the one in the body, or made of its number. -/
theorem rn_tsiBody {db : Db} {tsRi : CStr} {snr : Int} {o : Obj} {v : Json} {rn : CStr}
    (h : (buildTsi db tsRi snr ((o.del .cs).add .cs v)).str .rn = some rn) :
    o.str .rn = some rn ∨ ∃ rest, rn = "tsi_".toList ++ rest := by
  have hbody : SameOn [.rn] o (((o.del .cs).add .cs v).orAdd .snr (.int snr)) :=
    ((SameOn.del o (by decide)).trans (.add _ _ (by decide))).trans (.orAdd _ _ (by decide))
  unfold buildTsi at h
  dsimp only at h
  unfold Obj.str at h ⊢
  rw [Obj.orAdd, get_addMissing, if_pos rfl, hbody .rn (by decide)] at h
  cases hrn : o.get .rn with
  | some w =>
    rw [hrn] at h
    exact .inl h
  | none =>
    rw [hrn] at h
    refine .inr ?_
    obtain rfl : tsiName _ _ _ _ = rn := Option.some.inj h
    unfold tsiName
    split
    · exact ⟨decimal snr ++ '_' :: decimal (db.dbTsiGetCount tsRi), List.append_assoc _ _ _⟩
    · exact ⟨_, rfl⟩

/-- A refusal may leave the counters of the time series in order; a new instance is stored and counted, and the
limits are applied. -/
theorem createTsi_cases {env : TsEnv} (h : s.createTsi env req parent = some (.reply s' r)) :
    (s' = s ∧ r.rsc ≠ .created) ∨ ∃ obj n, SameStored parent.obj obj ∧
      (((n = s.riCount ∨ n = (s.riCount + 1) % 10000) ∧ s' = { s.setObj parent.id obj with riCount := n } ∧
        r.rsc ≠ .created) ∨
      ∃ body o₀ uri db node ts tsRi mbs, parent.ty = .ts ∧ parent.ri = some tsRi ∧
        (∀ k ∈ [Attr.ty, .ri, .pi, .ct, .acpi], body.get k = req.pc.get k) ∧
        (∀ rn, body.str .rn = some rn → req.pc.str .rn = some rn ∨ ∃ rest, rn = "tsi_".toList ++ rest) ∧
        addGeneralAttribute env.toEnv body obj .tsi s.riCount = some (o₀, n) ∧
        s.db.dbStoreResource o₀ uri = some db ∧ createRtnode s.nextId o₀ .tsi = some node ∧ SameStored obj ts ∧
        ({ s.setObj parent.id obj with
            riCount := n, db := db.dbUpdateResource [(.lt, .str env.now)] tsRi, nextId := s.nextId + 1 }.setObj parent.id
          ts |>.addChildResourceTree { parent with obj := obj } node).settleTsi parent.id tsRi mbs node.id =
            some (.reply s' r)) := by
  unfold createTsi at h
  split at h
  · cases h
    exact .inl ⟨rfl, by decide⟩
  · rename_i hts
    split at h
    · rename_i e he
      cases h
      exact .inl ⟨rfl, (denies_validateMandatoryAttrs _ _ _).ne_created he⟩
    · simp only [Option.bind_eq_bind, Option.bind_eq_some_iff] at h
      obtain ⟨tsRi, hri, h⟩ := h
      split at h
      · cases h
        exact .inl ⟨rfl, by decide⟩
      · simp only [Option.bind_eq_some_iff] at h
        obtain ⟨con, -, mbs, -, h⟩ := h
        split at h
        · cases h
          exact .inl ⟨rfl, by decide⟩
        · have hobj : SameStored parent.obj (normalizeCount (normalizeCount parent.obj .cni) .cbs) :=
            (sameStored_normalizeCount _ (by decide)).trans (sameStored_normalizeCount _ (by decide))
          generalize normalizeCount (normalizeCount parent.obj .cni) .cbs = obj at h hobj
          split at h
          · rename_i e he
            cases h
            refine .inr ⟨obj, s.riCount, hobj, .inl ⟨.inl rfl, rfl, ?_⟩⟩
            unfold tsiSnr at he
            split at he
            · cases he
            · split at he <;> cases he
              decide
            · cases he
              decide
          · rename_i snr _
            unfold storeTsi at h
            simp only [Option.bind_eq_bind, Option.bind_eq_some_iff] at h
            obtain ⟨⟨o₀, n⟩, hgen, rn, -, h⟩ := h
            refine .inr ⟨obj, n, hobj, ?_⟩
            split at h
            · cases h
              exact .inl ⟨.inr (addGeneralAttribute_count hgen), rfl, by decide⟩
            · rename_i db hdb
              simp only [Option.bind_eq_some_iff] at h
              obtain ⟨node, hnode, h⟩ := h
              refine .inr ⟨_, o₀, _, db, node, _, tsRi, _, not_not.mp hts, hri, fun k hk => get_tsiBody hk,
                fun rn => rn_tsiBody, hgen, hdb, hnode, ?_, h⟩
              refine .trans (sameStored_countIn db tsRi con.length obj) ?_
              exact (sameStored_detectMissing _ _ _ _ _ _).trans (sameStored_putStr _ _ (by decide))

/-! ## FlexContainers -/

theorem createFcnt_cases {e : FcntEnv} {sn : Option CStr} (h : s.createFcnt e sn req parent = some (s', r)) :
    s.Refused e.now s' r ∨ ∃ o₀ n o, checkFcntBody e.sdt sn req.rvi (fcntBody sn req.pc) = .ok () ∧
      addGeneralAttribute e.toEnv (fcntBody sn req.pc) parent.obj .fcnt s.riCount = some (o₀, n) ∧
      validateFcnt e.now { s with riCount := n } req.rvi o₀ .create = .ok () ∧ SameStored o₀ o ∧
      { s with riCount := n }.storeFcnt e req parent (customAttributes (fcntBody sn req.pc))
        (contentSize e.print (customAttributes (fcntBody sn req.pc))) o = some (s', r) := by
  unfold createFcnt at h
  dsimp only at h
  split at h
  · rename_i d hd
    cases h
    exact .inl (.same ((denies_checkFcntBody _ _ _ _).ne_created hd))
  · rename_i hcheck
    simp only [Option.bind_eq_bind, Option.bind_eq_some_iff] at h
    obtain ⟨⟨o₀, n⟩, hgen, h⟩ := h
    dsimp only at h
    split at h
    · rename_i d hd
      cases h
      exact .inl (.drawn hgen (looksUp_afterChecks _ _) ((denies_buildFcnt _ _ _ _ _).ne_created hd))
    · rename_i o ho
      refine .inr ⟨o₀, n, o, hcheck, hgen, ?_, .of_touches (touches_buildFcnt ho) (by decide), h⟩
      unfold buildFcnt at ho
      obtain ⟨⟨⟩, hv, -⟩ := bind_ok ho
      exact hv

end Server

end TinyIoT
