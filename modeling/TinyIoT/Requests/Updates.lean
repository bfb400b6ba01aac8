/-
Update requests as runs of elementary changes: an accepted request that carries none of the attributes a resource gets
at its creation leaves them alone. Every handler but that of a time series refuses a body that does.
-/
import TinyIoT.Requests.Instances
import TinyIoT.Requests.Handlers
import TinyIoT.Groups.Run
import TinyIoT.Monitor.Series

namespace TinyIoT

/-- What a resource gets at its creation is not among what the server assigns in passing. -/
theorem stamps_stampAttrs : Stamps stampAttrs := ⟨by decide, fun _ hk => List.mem_cons_of_mem _ hk⟩

/-- The body names none of the attributes a resource gets at its creation. -/
def Plain (body : Obj) : Prop := ∀ k ∈ stampAttrs, body.get k = none

section

variable {o o' b : Obj} {l : List Attr}

theorem Plain.congr (h : Plain o) (hs : SameOn stampAttrs o o') : Plain o' := fun k hk => (hs k hk).trans (h k hk)

theorem Plain.updateResource (h : Plain b) (o : Obj) : SameOn stampAttrs o (o.updateResource b) :=
  fun k hk => Obj.get_updateResource_of_not_has (h k hk)

/-- The body names one of these attributes only with the value it has. -/
def Restates (o body : Obj) : Prop := ∀ e ∈ body, e.1 ∈ stampAttrs → e.2.isNull = false ∧ o.get e.1 = some e.2

theorem Restates.congr (h : Restates o b) (ho : SameOn stampAttrs o o') : Restates o' b := by
  intro e he hk
  obtain ⟨hnull, hget⟩ := h e he hk
  exact ⟨hnull, (ho e.1 hk).trans hget⟩

theorem Restates.updateResource (h : Restates o b) : SameOn stampAttrs o (o.updateResource b) := by
  induction b generalizing o with
  | nil => exact .refl _ o
  | cons e b ih =>
    have hone : SameOn stampAttrs o (o.updateMember e.1 e.2) := by
      intro k hk
      by_cases he : e.1 = k
      · subst he
        obtain ⟨hnull, hget⟩ := h e List.mem_cons_self hk
        rw [Obj.get_updateMember_self hnull, hget]
      · exact Obj.get_updateMember_ne he
    exact hone.trans (ih (Restates.congr (fun e' he' => h e' (List.mem_cons_of_mem _ he')) hone))

/-- A deny list with these attributes lets no other body through. -/
theorem plain_of_denied (h : ¬ l.any (fun k => b.has k) = true) (hl : stampAttrs ⊆ l) : Plain b := by
  intro k hk
  by_contra hsome
  exact h (List.any_eq_true.mpr ⟨k, hl hk, Option.isSome_iff_ne_none.mpr hsome⟩)

theorem Plain.lt (h : Plain b) (v : Json) : Plain (b.add .lt v) := h.congr (.add _ _ (by decide))

theorem Plain.announced (h : Plain b) (kept : Json → List Json) (o : Obj) : Plain (processAnncAtUpdate kept o b).1 :=
  h.congr (.of_touches (touches_processAnncAtUpdate _ _ _) (by decide))

theorem Plain.aa (h : Plain b) (ty : ResourceType) : Plain (validateAa .update b ty) :=
  h.congr (.validateAa _ _ _ (by decide))

end

namespace Server

variable {w : Outside} {req : Req} {s s₁ s' : Server} {n : RTNode} {r : Resp} {env : Env} {kept : Json → List Json} {o b : Obj}

/-- The end of an update handler: the row is written from the body, the object is assigned. -/
theorem edits_replace {i : Nat} {ty : ResourceType} {p : Obj} (hp : s.ShowsOn stampAttrs i ty p) (ri : CStr)
    (ho : SameOn stampAttrs p o) (hb : Plain b) :
    Edits stampAttrs s 0 [] ({ s with db := s.db.dbUpdateResource b ri }.setObj i o) := by
  have hrow : ShowsOn stampAttrs { s with db := s.db.dbUpdateResource b ri } i ty p := hp.congr rfl
  exact (Edits.of_edit (.columns ri hb)).edit (hrow.edit ho)

/-- The list of announcements may be cleared first. -/
theorem edits_clearAt (cleared : Bool) (ri : CStr) : Edits stampAttrs s 0 [] { s with
    db := if cleared then s.db.dbUpdateResource [(.at, .null)] ri else s.db } := by
  cases cleared with
  | false => exact .refl
  | true => exact .of_edit (.columns ri (by decide))

theorem edits_cleared {i : Nat} {ty : ResourceType} {p : Obj} (hp : s.ShowsOn stampAttrs i ty p) (ri ri' : CStr)
    (cleared : Bool) (ho : SameOn stampAttrs p o) (hb : Plain b) : Edits stampAttrs s 0 [] ({ s with
      db := (if cleared then s.db.dbUpdateResource [(.at, .null)] ri else s.db).dbUpdateResource b ri' }.setObj i o) :=
  (edits_clearAt cleared ri).trans_nil
    (edits_replace (s := { s with db := if cleared then s.db.dbUpdateResource [(.at, .null)] ri else s.db })
      (hp.congr rfl) ri' ho hb)

theorem edits_updateAe (hs : s.Sane) (hn : n ∈ s.tree.nodes) (h : s.updateAe env kept req n = some (s', r)) :
    Edits stampAttrs s 0 [] s' := by
  unfold updateAe at h
  split at h
  · cases h
    exact .refl
  · rename_i hdeny
    split at h
    · cases h
      exact .refl
    · split at h
      · cases h
        exact edits_looksUp stamps_stampAttrs hs (looksUp_afterChecks _ _)
      · simp only [Option.bind_eq_bind, Option.bind_eq_some_iff, Option.pure_def, Option.some.injEq, Prod.mk.injEq] at h
        obtain ⟨ri, -, ri', -, rfl, -⟩ := h
        have hbody := (((plain_of_denied hdeny (by decide)).aa .ae).announced kept n.obj).lt (.str env.now)
        refine edits_cleared (.of_mem hs hn) _ _ _ ?_ hbody
        split
        · exact (hbody.updateResource _).trans (.del _ (by decide))
        · exact hbody.updateResource _

theorem edits_updateAcp (hs : s.Sane) (hn : n ∈ s.tree.nodes) (h : s.updateAcp env kept req n = some (s', r)) :
    Edits stampAttrs s 0 [] s' := by
  unfold updateAcp at h
  split at h
  · cases h
    exact .refl
  · rename_i hdeny
    split at h
    · cases h
      exact .refl
    · simp only [Option.bind_eq_bind, Option.bind_eq_some_iff, Option.pure_def, Option.some.injEq, Prod.mk.injEq] at h
      obtain ⟨ri, -, ri', -, rfl, -⟩ := h
      have hbody := (((plain_of_denied hdeny (by decide)).aa .acp).announced kept n.obj).lt (.str env.now)
      exact edits_cleared (.of_mem hs hn) _ _ _ (hbody.updateResource _) hbody

theorem edits_updateCsr (hs : s.Sane) (hn : n ∈ s.tree.nodes) (h : s.updateCsr env req n = some (s', r)) :
    Edits stampAttrs s 0 [] s' := by
  unfold updateCsr at h
  split at h
  · cases h
    exact .refl
  · rename_i hdeny
    split at h
    · cases h
      exact .refl
    · simp only [Option.bind_eq_bind, Option.bind_eq_some_iff, Option.pure_def, Option.some.injEq, Prod.mk.injEq] at h
      obtain ⟨ri, -, rfl, -⟩ := h
      have hbody := (plain_of_denied hdeny (by decide)).lt (.str env.now)
      exact edits_replace (.of_mem hs hn) _ (hbody.updateResource _) hbody

theorem edits_updateAnnc (hs : s.Sane) (hn : n ∈ s.tree.nodes) {forwarded : Rsc}
    (h : s.updateAnnc forwarded req n = some (s', r)) : Edits stampAttrs s 0 [] s' := by
  unfold updateAnnc at h
  split at h
  · cases h
    exact .refl
  · rename_i hdeny
    obtain ⟨lnk, -, h⟩ := Option.bind_eq_some_iff.mp h
    split at h
    · cases h
      exact .refl
    · split at h
      · cases h
        exact .refl
      · simp only [Option.bind_eq_bind, Option.bind_eq_some_iff, Option.pure_def, Option.some.injEq, Prod.mk.injEq] at h
        obtain ⟨ri, -, rfl, -⟩ := h
        have hbody := plain_of_denied hdeny (by decide)
        exact edits_replace (.of_mem hs hn) _ (hbody.updateResource _) hbody

theorem edits_updateSub (hs : s.Sane) (hn : n ∈ s.tree.nodes) (hty : n.ty ≠ .cin) {verify : CStr → Int}
    (h : s.updateSub env verify req n = some (s', r)) : Edits stampAttrs s 0 [] s' := by
  unfold updateSub at h
  split at h
  · cases h
    exact .refl
  · rename_i hdeny
    split at h
    · cases h
      exact edits_looksUp stamps_stampAttrs hs (looksUp_afterChecks _ _)
    · have hlook : Edits stampAttrs s 0 [] _ := edits_looksUp stamps_stampAttrs hs
        (looksUp_verifyAll (looksUp_reverifyTarget env.now verify req) (req.pc.arr .nu) s)
      split at h
      · rename_i s₁ e he
        rw [he] at hlook
        cases h
        exact hlook
      · rename_i s₁ he
        rw [he] at hlook
        split at h
        · cases h
        simp only [Option.bind_eq_bind, Option.bind_eq_some_iff, Option.pure_def, Option.some.injEq, Prod.mk.injEq] at h
        obtain ⟨ri, -, rfl, -⟩ := h
        have hbody : Plain ((defaultEnc req.pc).add .lt (.str env.now)) := by
          refine ((plain_of_denied hdeny (by decide)).congr ?_).lt _
          unfold defaultEnc
          split
          · exact .set _ _ (by decide)
          · exact .refl _ _
        have hshow := (ShowsOn.of_mem hs hn).edits hlook stamps_stampAttrs hs (hs.below n hn) hty
        exact hlook.trans_nil (edits_replace hshow _ (hbody.updateResource _) hbody)

/-- New limits of a container apply to the rows there are then. -/
theorem edits_limits {db₀ db : Db} {o' : Obj} (hn : n ∈ s.tree.nodes) (h₀ : Edits stampAttrs s 0 [] { s with db := db₀ })
    (ho : SameOn stampAttrs n.obj o) (h : deleteCinUnderCntMniMbs o db₀ = some (o', db)) :
    SameOn stampAttrs n.obj o' ∧ Edits stampAttrs s 0 [] { s with db := db } := by
  obtain ⟨hsame, hrows⟩ := edits_deleteCinUnder (s := { s with db := db₀ }) stamps_stampAttrs hn ho h
  exact ⟨hsame, h₀.trans_nil hrows⟩

theorem edits_updateCnt (hs : s.Sane) (hn : n ∈ s.tree.nodes) (h : s.updateCnt env kept req n = some (s', r)) :
    Edits stampAttrs s 0 [] s' := by
  unfold updateCnt at h
  split at h
  · cases h
    exact .refl
  · rename_i hdeny
    split at h
    · cases h
      exact edits_looksUp stamps_stampAttrs hs (looksUp_afterChecks _ _)
    · simp only [Option.bind_eq_bind, Option.bind_eq_some_iff, Option.pure_def, Option.some.injEq, Prod.mk.injEq] at h
      obtain ⟨st, -, ri, -, ⟨obj, db⟩, hdel, ri', -, rfl, -⟩ := h
      have hst : Plain ((validateAa .update req.pc .cnt).add .st (.int (cInt (st.valueint + 1)))) :=
        ((plain_of_denied hdeny (by decide)).aa .cnt).congr (.add _ _ (by decide))
      have hbody := (hst.announced kept n.obj).lt (.str env.now)
      obtain ⟨hsame, hrows⟩ := edits_limits hn (edits_clearAt _ ri) (hbody.updateResource n.obj) hdel
      exact (hrows.edit (.obj n.id fun m hm hi => hs.ids.eq hm hn hi ▸ hsame)).edit (.columns ri' hbody)

/-! ## Time series -/

/-- The limits apply to the instances there are, and the row is written from the object. -/
theorem edits_settleTs (hs : s.Sane) (hn : n ∈ s.tree.nodes) {ri : CStr} (hri : n.ri = some ri) (hty : n.ty ≠ .cin)
    (ho : SameOn stampAttrs n.obj o) (h : s.settleTs n ri o = some (.reply s' r)) : Edits stampAttrs s 0 [] s' := by
  unfold settleTs at h
  simp only [Option.bind_eq_bind, Option.bind_eq_some_iff] at h
  obtain ⟨e, he, h⟩ := h
  cases e with
  | endless => cases h
  | within s₁ =>
    simp only [Option.bind_eq_some_iff, Option.pure_def, Option.some.injEq, Outcome.reply.injEq] at h
    obtain ⟨m, hm, rfl, -⟩ := h
    have hset : Edits stampAttrs s 0 [] (s.setObj n.id o) := .of_edit ((ShowsOn.of_mem hs hn).edit ho)
    have hevict := edits_evictTsi stamps_stampAttrs (hset.sane hs) he
    have hshow := ((ShowsOn.of_mem hs hn).setObj o).edits hevict stamps_stampAttrs (hset.sane hs) (hs.below n hn) hty
    obtain ⟨hmem, hid⟩ := node?_mem hm
    refine (hset.trans_nil hevict).edit (.write hmem ?_ fun _ _ => .inr rfl)
    exact (Obj.str_congr ((ho.trans (hshow m hmem hid).2) .ri (by decide))).trans hri

/-- `update_ts` refuses none of the attributes; a body that restates them leaves them alone. -/
theorem edits_updateTs (hs : s.Sane) (hn : n ∈ s.tree.nodes) (hty : n.ty ≠ .cin) (hb : Restates n.obj req.pc)
    (h : s.updateTs env kept req n = some (.reply s' r)) : Edits stampAttrs s 0 [] s' := by
  unfold updateTs at h
  split at h
  · cases h
    exact .refl
  · split at h
    · cases h
      exact .refl
    · rename_i body hbody
      obtain ⟨ri, hri, h⟩ := Option.bind_eq_some_iff.mp h
      obtain ⟨⟨⟩, -, hbody⟩ := bind_ok hbody
      obtain ⟨⟨⟩, -, hbody⟩ := bind_ok hbody
      have hobj : SameOn stampAttrs n.obj
          (if (body.get .mdd).any mddOn then restartDetection env.now n.obj else n.obj) := by
        split
        · exact fun k hk => get_restartDetection (by revert k; decide)
        · exact .refl _ _
      dsimp only at h
      generalize (if (body.get .mdd).any mddOn then restartDetection env.now n.obj else n.obj) = obj at h hobj
      have hrestart : Edits stampAttrs s 0 [] { s with
          db := if (body.get .mdd).any mddOn then s.db.dbUpdateResource [(.mdlt, .null)] ri else s.db } := by
        split
        · exact .of_edit (.columns ri (by decide))
        · exact .refl
      have hrestates : Restates obj (processAnncAtUpdate kept obj body).1 := by
        refine Restates.congr (fun e he hk => ?_) hobj
        rcases mem_processAnncAtUpdate he with he | he
        · rcases (updatePeriod_ok hbody).2 e he with he | he | he
          · exact hb e he hk
          · exact absurd (he ▸ hk) (by decide)
          · exact absurd (he ▸ hk) (by decide)
        · exact absurd (he ▸ hk) (by decide)
      have hupd := hobj.trans hrestates.updateResource
      have hclear := hrestart.trans_nil (edits_clearAt (processAnncAtUpdate kept obj body).2 ri)
      exact hclear.trans_nil (edits_settleTs (hclear.sane hs) hn hri hty hupd h)

/-! ## Groups -/

theorem edits_leaveUnlisted (hs : s.Sane) {now grpAddr : CStr} {final : List CStr} (mid : Json) :
    Edits stampAttrs s 0 [] (leaveUnlisted now grpAddr final s mid) := by
  unfold leaveUnlisted
  split
  · exact .refl
  · split
    · exact .refl
    · rename_i addr _ _
      have hfind : Edits stampAttrs s 0 [] (s.findRtnode now addr).1 := edits_findRtnode stamps_stampAttrs hs addr
      refine hfind.trans_nil ?_
      dsimp only
      split
      · exact .refl
      · exact edits_setMemberOf _ _

/-- The body of an update that is accepted, and what its members lose. -/
theorem edits_validateGrpUpdate (hs : s.Sane) {g : GrpEnv} {old body : Obj}
    (h : validateGrpUpdate g req s old = some (s', .ok body)) :
    Edits stampAttrs s 0 [] s' ∧ SameOn stampAttrs req.pc body := by
  unfold validateGrpUpdate at h
  split at h
  · cases h
  · obtain ⟨ok, -, h⟩ := Option.bind_eq_some_iff.mp h
    split at h
    · cases h
    · split at h
      · cases h
      · rename_i b hb
        have hmacp : ∀ k ∈ stampAttrs, Assoc.entries b k = Assoc.entries req.pc k := fun k hk =>
          entries_updateMacp (by revert k; decide) hb
        unfold updateMembers at h
        split at h
        · obtain ⟨v, hv, h⟩ := Option.bind_eq_some_iff.mp h
          split at h
          · cases h
          · cases h
          · cases h
            have hlook := edits_looksUp stamps_stampAttrs hs (looksUp_validateGrpMember hv rfl)
            refine ⟨hlook.trans_nil (.foldl (fun s mid hs => edits_leaveUnlisted hs mid) _ (hlook.sane hs)),
              fun k hk => Assoc.get_congr ?_⟩
            rw [entries_storeMembers (by revert k; decide), entries_validateGrpMember hv (by revert k; decide), hmacp k hk]
        · cases h
          exact ⟨.refl, fun k hk => Assoc.get_congr (hmacp k hk)⟩

theorem edits_updateGrp (hs : s.Sane) (hn : n ∈ s.tree.nodes) (hty : n.ty ≠ .cin) {g : GrpEnv} (h : s.updateGrp g kept req n = some (s', r)) :
    Edits stampAttrs s 0 [] s' := by
  unfold updateGrp at h
  split at h
  · cases h
    exact .refl
  · rename_i hdeny
    obtain ⟨⟨s₁, v⟩, hv, h⟩ := Option.bind_eq_some_iff.mp h
    dsimp only at h
    split at h
    · cases h
      exact edits_looksUp stamps_stampAttrs hs (validateGrpUpdate_refused hv)
    · rename_i body
      obtain ⟨hleave, hsame⟩ := edits_validateGrpUpdate hs hv
      simp only [Option.bind_eq_bind, Option.bind_eq_some_iff] at h
      obtain ⟨-, -, ri, -, ri', -, h⟩ := h
      obtain ⟨s₂, hjoin, h⟩ := Option.map_eq_some_iff.mp h
      cases h
      have hbody := (((plain_of_denied hdeny (by decide)).congr hsame).aa .grp).announced kept n.obj
      have hobj : SameOn stampAttrs n.obj ((countMembers n.obj
          (processAnncAtUpdate kept n.obj (validateAa .update body .grp)).1).updateResource
            ((processAnncAtUpdate kept n.obj (validateAa .update body .grp)).1.add .lt (.str g.now))) := by
        refine .trans ?_ ((hbody.lt (.str g.now)).updateResource _)
        unfold countMembers
        split
        · split
          · exact .refl _ _
          · exact .set _ _ (by decide)
        · exact .refl _ _
      have hs₁ := hleave.sane hs
      have hshow := (ShowsOn.of_mem hs hn).edits hleave stamps_stampAttrs hs (hs.below n hn) hty
      have hset := edits_cleared hshow ri ri' (processAnncAtUpdate kept n.obj (validateAa .update body .grp)).2 hobj
        (hbody.lt (.str g.now))
      exact (hleave.trans_nil hset).trans_nil (edits_setGrpMember stamps_stampAttrs (hset.sane hs₁) hjoin)

/-! ## FlexContainers -/

/-- What an update of a flexContainer stores: nothing, or one instance by the identifier it draws. -/
def OneFcin (e : FcntEnv) (n d : Nat) (l : List Obj) : Prop :=
  d ≤ 1 ∧ (l.map (Obj.str · .ri)).Sublist ([some (resourceIdentifier .fcin e.now n).1].take d)

theorem OneFcin.none (e : FcntEnv) (n : Nat) {d : Nat} (hd : d ≤ 1) : OneFcin e n d [] := ⟨hd, List.nil_sublist _⟩

theorem OneFcin.one {e : FcntEnv} {n : Nat} {q : Obj} (hq : q.str .ri = some (resourceIdentifier .fcin e.now n).1) :
    OneFcin e n 1 [q] := by
  refine ⟨le_rfl, ?_⟩
  rw [List.map_cons, hq]
  exact List.Sublist.refl _

theorem edits_applyFcied {e : FcntEnv} (hs : s.Sane) (hn : n ∈ s.tree.nodes) {content needs : Bool} {b b' : Obj}
    (h : s.applyFcied e req n b content = some (.ok (s', o, b', needs))) :
    SameOn stampAttrs n.obj o ∧ SameOn stampAttrs b b' ∧ ∃ d l, Edits stampAttrs s d l s' ∧ OneFcin e s.riCount d l ∧
      (needs = true → d = 0 ∧ l = []) := by
  obtain ⟨ho, hb, -⟩ := applyFcied_some hs.ids h
  refine ⟨.of_touches ho (by decide), .of_touches hb (by decide), ?_⟩
  have hgone : ∀ {s₁ s₂ : Server}, Edits stampAttrs s 0 [] s₁ → s₁.Removes n.id s₂ →
      ∃ d l, Edits stampAttrs s d l s₂ ∧ OneFcin e s.riCount d l ∧ (needs = true → d = 0 ∧ l = []) :=
    fun hfirst hrem => ⟨0, [], hfirst.trans_nil (hrem.edits (hfirst.sane hs)), .none _ _ (Nat.zero_le _), fun _ => ⟨rfl, rfl⟩⟩
  unfold applyFcied at h
  split at h
  · cases h
    exact hgone (.of_edit ((ShowsOn.of_mem hs hn).edit (.of_touches ho (by decide)))) (removes_cleanupFcntInstances _ _ _)
  · split at h
    · split at h
      · simp only [Option.bind_eq_bind] at h
        split at h
        · -- `fcied` goes off, and was never on
          obtain ⟨⟨s₁, b⟩, h₁, h⟩ := Option.bind_eq_some_iff.mp h
          cases h
          rcases edits_addFlexcontainerInstance stamps_stampAttrs h₁ with ⟨-, d, hd, he⟩ | ⟨-, q, hq, he⟩
          · exact ⟨d, [], he.nil_trans ((removes_cleanupFcntInstances _ _ _).edits (he.sane hs)), .none _ _ hd,
              fun hf => absurd hf (by decide)⟩
          · exact ⟨1, [q], he.nil_trans ((removes_cleanupFcntInstances _ _ _).edits (he.sane hs)), .one hq,
              fun hf => absurd hf (by decide)⟩
        · cases h
          exact hgone .refl (removes_cleanupFcntInstances _ _ _)
      · cases h
        exact hgone .refl (.refl _ _)
    · split at h
      · dsimp only at h
        split at h
        · cases h
        · cases h
          exact hgone .refl (removes_evictToLimits hs.ids _ _)
      · cases h
        exact hgone .refl (.refl _ _)

/-- The counters are taken back. -/
theorem edits_rollbackFcnt {i : Nat} {ty : ResourceType} (hshow : s.ShowsOn stampAttrs i ty o) (ri : CStr) :
    Edits stampAttrs s 0 [] (s.rollbackFcnt i ri o) := by
  have hset : ∀ (o : Obj) (k : Attr) (v : Option Int), k ∉ stampAttrs →
      SameOn stampAttrs o ((v.map fun n => o.set k (.int n)).getD o) := by
    intro o k v hk
    cases v with
    | none => exact .refl _ o
    | some n => exact .set o _ hk
  unfold rollbackFcnt
  exact (Edits.of_edit (hshow.edit ((hset o .cni _ (by decide)).trans (hset _ .cbs _ (by decide))))).edit
    (.columns ri (by unfold stampAttrs; simp [Obj.get, Assoc.get]))

theorem edits_writeFcnt {e : FcntEnv} (hs : s.Sane) (hi : n.id < s.nextId) (hty : n.ty ≠ .cin) (hb : Plain b)
    {custom : Obj} {needs : Bool} {p : Obj} (hshow : s.ShowsOn stampAttrs n.id n.ty p) (ho : SameOn stampAttrs p o)
    (hcustom : ∀ x ∈ custom, isStandardFcntAttribute x.1 = false)
    (h : s.writeFcnt e req n o b custom needs = some (s', r)) :
    ∃ d l, Edits stampAttrs s d l s' ∧ OneFcin e s.riCount d l ∧ (needs = false → d = 0 ∧ l = []) := by
  unfold writeFcnt at h
  simp only [Option.bind_eq_bind, Option.bind_eq_some_iff] at h
  obtain ⟨ri, -, h⟩ := h
  have hobj : SameOn stampAttrs p (applyCustom (o.updateResource b) custom) := by
    refine (ho.trans (hb.updateResource o)).trans (.of_touches (touches_applyCustom _ _) fun k hk hin => ?_)
    obtain ⟨x, hx, hxk⟩ := List.mem_map.mp hin
    have hstd : ∀ k ∈ stampAttrs, isStandardFcntAttribute k = true := by decide
    have := hstd k hk
    rw [← hxk, hcustom x hx] at this
    cases this
  have hrows : Plain (inColumns .fcnt b) := hb.congr (sameOn_inColumns stamps_stampAttrs (.inl rfl) b).symm
  have hwritten : Edits stampAttrs s 0 [] { s with db := s.db.dbUpdateResource (inColumns .fcnt b) ri } :=
    .of_edit (.columns ri hrows)
  generalize hmade : (if custom.isEmpty = true then _ else _ : Server) = s₁ at h
  have hs₁ : Edits stampAttrs s 0 [] s₁ ∧ s₁.tree = s.tree := by
    rw [← hmade]
    split
    · exact ⟨hwritten, rfl⟩
    · exact ⟨hwritten.edit (.custom _ _ _), rfl⟩
  obtain ⟨hedits, htree⟩ := hs₁
  have hset := hedits.edit ((hshow.congr htree).edit hobj)
  have hshow' := (hshow.congr htree).setObj (applyCustom (o.updateResource b) custom)
  split at h
  · rename_i hneeds
    obtain ⟨⟨s₂, added⟩, hadd, h⟩ := Option.bind_eq_some_iff.mp h
    dsimp only at h
    have hno : ¬ needs = false := fun hf => by
      rw [hf] at hneeds
      cases hneeds.2
    rcases edits_addFlexcontainerInstance stamps_stampAttrs hadd with ⟨rfl, d, hd, he⟩ | ⟨rfl, q, hq, he⟩
    · -- the counters are taken back
      cases h
      have hback := edits_rollbackFcnt (hshow'.edits he stamps_stampAttrs (hset.sane hs) (hi.trans_le hset.nextId_le) hty) ri
      exact ⟨d, [], hset.trans_nil (he.nil_trans hback), .none _ _ hd, fun hf => absurd hf hno⟩
    · cases h
      refine ⟨1, [q], hset.trans_nil he, ?_, fun hf => absurd hf hno⟩
      rw [← hset.riCount]
      exact .one hq
  · cases h
    exact ⟨0, [], hset, .none _ _ (Nat.zero_le _), fun _ => ⟨rfl, rfl⟩⟩

theorem edits_updateFcnt {e : FcntEnv} {sn : Option CStr} (hs : s.Sane) (hn : n ∈ s.tree.nodes) (hty : n.ty ≠ .cin)
    (h : s.updateFcnt e sn req n = some (s', r)) : ∃ d l, Edits stampAttrs s d l s' ∧ OneFcin e s.riCount d l := by
  have hnone : ∃ d l, Edits stampAttrs s d l s ∧ OneFcin e s.riCount d l := ⟨0, [], .refl, .none _ _ (Nat.zero_le _)⟩
  unfold updateFcnt at h
  split at h
  · cases h
    exact hnone
  · rename_i hdeny
    split at h
    · cases h
      exact hnone
    · dsimp only at h
      split at h
      · cases h
        exact ⟨0, [], edits_looksUp stamps_stampAttrs hs (looksUp_afterChecks _ _), .none _ _ (Nat.zero_le _)⟩
      · obtain ⟨ri, -, h⟩ := Option.bind_eq_some_iff.mp h
        have hbody : Plain (renameOr req.pc) :=
          (plain_of_denied hdeny (by decide)).congr (.of_touches (touches_renameOr _) (by decide))
        have hcustom : ∀ x ∈ customAttributes (renameOr req.pc), isStandardFcntAttribute x.1 = false :=
          fun x hx => (mem_customAttributes.mp hx).2
        have hann := (hbody.aa .fcnt).announced e.kept n.obj
        have hplain := (hann.lt (.str e.now)).congr
          (.of_touches (touches_addFcntState e.print n.obj (customAttributes (renameOr req.pc)) _) (by decide))
        generalize hmade : (if (processAnncAtUpdate e.kept n.obj _).2 = true then _ else s : Server) = s₁ at h
        have hs₁ : Edits stampAttrs s 0 [] s₁ ∧ s₁.tree = s.tree := by
          rw [← hmade]
          split
          · exact ⟨.of_edit (.columns ri (by decide)), rfl⟩
          · exact ⟨.refl, rfl⟩
        obtain ⟨hclear, htree⟩ := hs₁
        have hsane := hclear.sane hs
        have hn₁ : n ∈ s₁.tree.nodes := htree ▸ hn
        have hi := hsane.below n hn₁
        rw [← hclear.riCount]
        split at h
        · obtain ⟨d, l, hl, hone, -⟩ := edits_writeFcnt hsane hi hty hplain (.of_mem hsane hn₁) (.refl _ _) hcustom h
          exact ⟨d, l, hclear.trans_nil hl, hone⟩
        · split at h
          · cases h
            exact ⟨0, [], hclear, .none _ _ (Nat.zero_le _)⟩
          · obtain ⟨applied, happ, h⟩ := Option.bind_eq_some_iff.mp h
            split at h
            · cases h
              exact ⟨0, [], hclear, .none _ _ (Nat.zero_le _)⟩
            · rename_i s₂ obj body needs
              obtain ⟨hobj, hsame, d, l, hl, hone, hneeds⟩ := edits_applyFcied hsane hn₁ happ
              have hshow := (ShowsOn.of_mem hsane hn₁).edits hl stamps_stampAttrs hsane hi hty
              obtain ⟨d', l', hl', hone', hno⟩ := edits_writeFcnt (hl.sane hsane) (hi.trans_le hl.nextId_le) hty
                (hplain.congr hsame) hshow hobj hcustom h
              -- one instance at most: where one is to be added, none was before
              cases hneed : needs with
              | false =>
                obtain ⟨rfl, rfl⟩ := hno hneed
                exact ⟨d, l, hclear.trans_nil (hl.nil_trans hl'), hone⟩
              | true =>
                obtain ⟨rfl, rfl⟩ := hneeds hneed
                exact ⟨d', l', hclear.trans_nil (hl.trans_nil hl'), hl.riCount ▸ hone'⟩

/-! ## Every type -/

theorem answer_some {x : Option Outcome} (h : x.bind Outcome.answer = some (s', r)) : x = some (.reply s' r) := by
  obtain ⟨e, rfl, he⟩ := Option.bind_eq_some_iff.mp h
  cases e with
  | reply s r =>
    cases he
    rfl
  | endless => cases he

/-- An update of any type. -/
theorem edits_updateAny (hs : s.Sane) (hn : n ∈ s.tree.nodes) {ty : ResourceType} (hts : n.ty = .ts → Restates n.obj req.pc)
    (h : s.updateAny w req ty n = some (s', r)) : ∃ d l, Edits stampAttrs s d l s' ∧
      OneFcin w.fcnt s.riCount d l ∧ (ty ≠ .fcnt → d = 0) := by
  have hquiet : Edits stampAttrs s 0 [] s' → ∃ d l, Edits stampAttrs s d l s' ∧ OneFcin w.fcnt s.riCount d l ∧
      (ty ≠ .fcnt → d = 0) := fun he => ⟨0, [], he, .none _ _ (Nat.zero_le _), fun _ => rfl⟩
  have hrefused : ∀ {r₁ : Resp}, some (s, r₁) = some (s', r) → ∃ d l, Edits stampAttrs s d l s' ∧
      OneFcin w.fcnt s.riCount d l ∧ (ty ≠ .fcnt → d = 0) := by
    intro r₁ he
    cases he
    exact hquiet .refl
  unfold updateAny at h
  repeat first
    | split at h
      · exact hrefused h
  rename_i hcin _ hty _ _
  unfold updateHandler at h
  cases ty with
  | ae => exact hquiet (edits_updateAe hs hn h)
  | cnt => exact hquiet (edits_updateCnt hs hn h)
  | sub => exact hquiet (edits_updateSub hs hn hcin h)
  | acp => exact hquiet (edits_updateAcp hs hn h)
  | grp => exact hquiet (edits_updateGrp hs hn hcin h)
  | csr => exact hquiet (edits_updateCsr hs hn h)
  | ts => exact hquiet (edits_updateTs hs hn hcin (hts (not_not.mp hty)) (answer_some h))
  | fcnt =>
    obtain ⟨d, l, he, hone⟩ := edits_updateFcnt hs hn hcin h
    exact ⟨d, l, he, hone, fun hne => absurd rfl hne⟩
  | acpa => exact hquiet (edits_updateAnnc hs hn h)
  | aea => exact hquiet (edits_updateAnnc hs hn h)
  | cba => exact hquiet (edits_updateAnnc hs hn h)
  | cnta => exact hquiet (edits_updateAnnc hs hn h)
  | cina => exact hquiet (edits_updateAnnc hs hn h)
  | grpa => exact hquiet (edits_updateAnnc hs hn h)
  | tsa => exact hquiet (edits_updateAnnc hs hn h)
  | _ => exact hrefused h

end Server

end TinyIoT
