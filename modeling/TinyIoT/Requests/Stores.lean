/-
Create requests as runs of elementary changes: what is refused leaves the server but for the counter of identifiers,
and in a run of an accepted request the new resource is stored, for a flexContainer with its first instance.
-/
import TinyIoT.Requests.Deletes
import TinyIoT.Requests.Creates

namespace TinyIoT

variable {K : List Attr} {env : Env} {req : Req} {s s₁ s' : Server} {parent : RTNode} {r : Resp} {o : Obj}
  {ty : ResourceType}

/-- `create_rtnode` rewrites none of the attributes. -/
theorem Stamps.createRtnode (hK : Stamps K) {id : Nat} {n : RTNode} (h : createRtnode id o ty = some n) :
    SameOn K o n.obj :=
  .createRtnode h fun k hk hout => hK.apart k hk (List.mem_append_left _ (List.mem_append_right _ hout))

namespace Server

/-- The counter of identifiers. -/
theorem edits_drawn {p o₀ : Obj} {n : Nat} (hgen : addGeneralAttribute env o p ty s.riCount = some (o₀, n)) :
    Edits K s 1 [] { s with riCount := n } := by
  rw [addGeneralAttribute_count hgen]
  exact .draw .refl

/-! ## A node and its row -/

/-- The end of a create handler: nothing is stored, or the object with a node that shows it. -/
theorem edits_storeResource (hK : Stamps K) (hs : s.Sane) (hla : o.str .rn = some "la".toList → ty = .cin)
    (h : s.storeResource parent o ty = some (s', r)) :
    (s' = s ∧ r.rsc ≠ .created) ∨
      Edits K s 0 [o] s' ∧ s.nextId < s'.nextId ∧ (ty ≠ .cin → s'.ShowsOn K s.nextId ty o) := by
  unfold storeResource at h
  simp only [Option.bind_eq_bind, Option.bind_eq_some_iff] at h
  obtain ⟨rn, hrn, h⟩ := h
  split at h
  · cases h
    exact .inl ⟨rfl, by decide⟩
  · rename_i db hdb
    simp only [Option.bind_eq_some_iff, Option.pure_def, Option.some.injEq, Prod.mk.injEq] at h
    obtain ⟨n, hn, rfl, -⟩ := h
    obtain ⟨hid, hty, hname, -⟩ := createRtnode_some hn
    have hsame : SameOn K o n.obj := hK.createRtnode hn
    subst hty
    have hlink : Edits K s 0 [o] { s with
        tree := s.tree.graft (RTNode.hasId parent.id) (insertChild { n with uri := parent.uri ++ '/' :: n.rn }),
        db := db, nextId := s.nextId + 1 } :=
      Edits.create (l := []) parent.id .refl hdb hid (fun hl => hla (hname.trans (congrArg some hl))) hsame
    have hshow := ShowsOn.linked hs db parent.id (x := { n with uri := parent.uri ++ '/' :: n.rn }) hid hsame
    have hsane := (hs.linked db parent.id (x := { n with uri := parent.uri ++ '/' :: n.rn }) hid).1
    -- the lists of subscriptions and of CSRs
    have hrest : ∀ s' : Server, Edit K _ s' →
        Edits K s 0 [o] s' ∧ s.nextId < s'.nextId ∧ (n.ty ≠ .cin → s'.ShowsOn K s.nextId n.ty o) :=
      fun s' he => ⟨hlink.edit he, (Nat.lt_succ_self _).trans_le he.nextId_le, fun hc => hshow.edits (.of_edit he) hK hsane (Nat.lt_succ_self _) hc⟩
    refine .inr ?_
    unfold addChildResourceTree
    dsimp only
    split
    · rename_i hsub
      rw [if_neg (by rw [hsub]; decide)]
      exact hrest _ (.links _ fun m => ⟨rfl, rfl, rfl, rfl⟩)
    · split
      · exact hrest _ (.aside rfl rfl le_rfl rfl)
      · exact ⟨hlink, Nat.lt_succ_self _, fun _ => hshow⟩

end Server

/-! ## The identifier of a new resource -/

/-- The identifier after `add_general_attribute`: the one in the body, or a new one. -/
def givenRi (env : Env) (ty : ResourceType) (n : Nat) (body : Obj) : Option CStr :=
  ((body.get .ri).or (some (.str (resourceIdentifier ty env.now n).1))).bind Json.valuestring

/-- The identifier of an AE with this originator. -/
def aeRi (fr : CStr) (given : Option CStr) : Option CStr :=
  match fr with
  | 'C' :: _ :: _ => given.map fun _ => fr
  | 'S' :: _ :: _ => some fr
  | ['S'] => given.map fun ri => 'S' :: ri.tail
  | _ => given

theorem str_isSome_iff {k : Attr} : (o.str k).isSome = (o.get k).any Json.isString := by
  unfold Obj.str
  cases o.get k with
  | none => rfl
  | some v => cases v <;> rfl

theorem assignAeId_some {fr : CStr} {ae : Obj} (h : assignAeId fr ae = some o) :
    (∀ k, k ≠ .ri → o.get k = ae.get k) ∧ (ae.has .ri = true → o.str .ri = aeRi fr (ae.str .ri)) := by
  have hset : ∀ v : CStr, (∀ k, k ≠ .ri → Obj.get (ae.set .ri (.str v)) k = ae.get k) ∧
      (ae.has .ri = true → Obj.str (ae.set .ri (.str v)) .ri = some v) := by
    refine fun v => ⟨fun k hk => Assoc.get_set_ne (Ne.symm hk), fun hh => ?_⟩
    obtain ⟨w, hw⟩ := Assoc.has_iff.mp hh
    exact Obj.str_of_get (Assoc.get_set_self hw)
  unfold assignAeId at h
  unfold aeRi
  split at h
  · cases h
    rename_i c rest
    split
    · rename_i hstr
      refine ⟨(hset _).1, fun hh => ((hset _).2 hh).trans ?_⟩
      rw [← str_isSome_iff] at hstr
      obtain ⟨ri, hri⟩ := Option.isSome_iff_exists.mp hstr
      rw [hri]
      rfl
    · rename_i hstr
      refine ⟨fun _ _ => rfl, fun _ => ?_⟩
      rw [← str_isSome_iff, Option.not_isSome_iff_eq_none] at hstr
      rw [hstr]
      rfl
  · cases h
    exact ⟨fun _ _ => rfl, fun _ => rfl⟩
  · cases h
    exact ⟨(hset _).1, fun hh => (hset _).2 hh⟩
  · obtain ⟨ri, hri, h⟩ := Option.bind_eq_some_iff.mp h
    split at h
    · cases h
    · cases h
      refine ⟨(hset _).1, fun hh => ((hset _).2 hh).trans ?_⟩
      rw [hri]
      rfl
  · rename_i h1 h2 h3 h4
    obtain ⟨ri, hri, rfl⟩ := Option.map_eq_some_iff.mp h
    refine ⟨fun _ _ => rfl, fun _ => ?_⟩
    split
    · exact absurd rfl (h1 _ _)
    · exact absurd rfl (h3 _ _)
    · exact absurd rfl h4
    · rfl

/-! ## Requests -/

/-- A create request as a run: what is stored goes by identifiers of the list, as far as the counter has moved on, and
the resource that is created has the next address and shows `acpi`. -/
def CreatesAs (K : List Attr) (s : Server) (ids : List (Option CStr)) (ty : ResourceType) (acpi : Option Json) (s' : Server)
    (r : Resp) : Prop :=
  ∃ d l, d ≤ ids.length ∧ Edits K s d l s' ∧ (l.map (Obj.str · .ri)).Sublist (ids.take d) ∧ (r.rsc = .created → ty ≠ .cin →
    s.nextId < s'.nextId ∧ ∃ o, o.get .acpi = acpi ∧ s'.ShowsOn K s.nextId ty o)

section

variable {ids : List (Option CStr)} {acpi : Option Json}

/-- Nothing is stored. -/
theorem CreatesAs.of_edits {d : Nat} (hd : d ≤ ids.length) (h : Edits K s d [] s') (hr : r.rsc ≠ .created) :
    CreatesAs K s ids ty acpi s' r :=
  ⟨d, [], hd, h, List.nil_sublist _, fun hc => absurd hc hr⟩

theorem Server.Refused.createsAs {now : CStr} {ri : Option CStr} (h : s.Refused now s' r) (hK : Stamps K) (hs : s.Sane) :
    CreatesAs K s (ri :: ids) ty acpi s' r := by
  obtain ⟨⟨n, rfl | rfl, hlook⟩, hr⟩ := h
  · exact .of_edits (Nat.zero_le _) (edits_looksUp hK hs hlook) hr
  · have hs' : Sane { s with riCount := (s.riCount + 1) % 10000 } := hs.congr rfl le_rfl
    exact .of_edits (Nat.succ_pos _) (.nil_trans (.draw .refl) (edits_looksUp hK hs' hlook)) hr

/-- Something is stored, and the node that shows it is there. -/
theorem CreatesAs.of_shows {d : Nat} {l : List Obj} (hd : d ≤ ids.length) (h : Edits K s d l s')
    (hids : (l.map (Obj.str · .ri)).Sublist (ids.take d)) (hacpi : o.get .acpi = acpi) (hlt : s.nextId < s'.nextId)
    (hshow : ty ≠ .cin → s'.ShowsOn K s.nextId ty o) : CreatesAs K s ids ty acpi s' r :=
  ⟨d, l, hd, h, hids, fun _ hty => ⟨hlt, o, hacpi, hshow hty⟩⟩

/-- More follows. -/
theorem CreatesAs.edits (h : CreatesAs K s ids ty acpi s₁ r) (he : Edits K s₁ 0 [] s') (hK : Stamps K) (hs : s.Sane) :
    CreatesAs K s ids ty acpi s' r := by
  obtain ⟨d, l, hd, hl, hids, hshow⟩ := h
  refine ⟨d, l, hd, hl.nil_trans he, hids, fun hr hty => ?_⟩
  obtain ⟨hlt, o, ho, hso⟩ := hshow hr hty
  exact ⟨hlt.trans_le he.nextId_le, o, ho, hso.edits he hK (hl.sane hs) hlt hty⟩

end

/-- What `add_general_attribute` leaves of the identifier, the name and `acpi`. -/
theorem addGeneralAttribute_given {body p o₀ : Obj} {n n' : Nat} (h : addGeneralAttribute env body p ty n = some (o₀, n')) :
    o₀.str .ri = givenRi env ty n body ∧ o₀.get .acpi = body.get .acpi ∧ o₀.has .ri = true ∧
      (body.str .rn ≠ some "la".toList → o₀.str .rn ≠ some "la".toList) := by
  obtain ⟨pi, -, hget⟩ := addGeneralAttribute_some h
  have hri : o₀.get .ri = (body.get .ri).or (some (.str (resourceIdentifier ty env.now n).1)) := hget .ri
  have hrn : o₀.get .rn = (body.get .rn).or (some (.str (resourceIdentifier ty env.now n).1)) := hget .rn
  refine ⟨by unfold Obj.str givenRi; rw [hri], (hget .acpi).trans (Option.or_none ..), ?_, fun hne hla => ?_⟩
  · unfold Obj.has Assoc.has
    rw [show Assoc.get o₀ .ri = _ from hri]
    cases Obj.get body .ri <;> rfl
  · unfold Obj.str at hne hla
    rw [hrn] at hla
    cases hb : Obj.get body .rn with
    | some v =>
      rw [hb] at hla hne
      exact hne hla
    | none =>
      -- a generated name is longer
      rw [hb] at hla
      have hlen := congrArg List.length (Option.some.inj hla)
      unfold resourceIdentifier pad4 at hlen
      simp only [List.length_append, List.length_map, List.length_cons, List.length_nil] at hlen
      have : "la".toList.length = 2 := rfl
      omega

namespace Server

/-- An identifier is drawn, and then resources are looked up. -/
theorem edits_drawnLooks (hK : Stamps K) (hs : s.Sane) {p o₀ : Obj} {n : Nat}
    (hgen : addGeneralAttribute env o p ty s.riCount = some (o₀, n)) (hlook : LooksUp env.now { s with riCount := n } s₁) :
    Edits K s 1 [] s₁ ∧ s₁.nextId = s.nextId := by
  have hs' : Sane { s with riCount := n } := hs.congr rfl le_rfl
  exact ⟨(edits_drawn hgen).nil_trans (edits_looksUp hK hs' hlook), (hlook.spares hs'.ids).nextId⟩

/-- A handler that ends by storing the object it built. -/
theorem createsAs_storeResource (hK : Stamps K) (hs : s.Sane) {acpi : Option Json} (hn : Edits K s 1 [] s₁ ∧ s₁.nextId = s.nextId)
    (hla : o.str .rn ≠ some "la".toList) (hacpi : o.get .acpi = acpi) (h : s₁.storeResource parent o ty = some (s', r)) :
    CreatesAs K s [o.str .ri] ty acpi s' r := by
  obtain ⟨hn, hnext⟩ := hn
  rcases edits_storeResource hK (hn.sane hs) (fun h => absurd h hla) h with ⟨rfl, hr⟩ | ⟨he, hlt, hshow⟩
  · exact .of_edits le_rfl hn hr
  · rw [hnext] at hlt hshow
    exact .of_shows le_rfl (hn.trans he) (List.Sublist.refl _) hacpi hlt hshow

/-- A handler that builds the object from the one with the general attributes. -/
theorem createsAs_stored (hK : Stamps K) (hs : s.Sane) {body o₀ : Obj} {n : Nat}
    (hgen : addGeneralAttribute env body parent.obj ty s.riCount = some (o₀, n)) (hsame : SameStored o₀ o)
    (hla : body.str .rn ≠ some "la".toList) (hlook : LooksUp env.now { s with riCount := n } s₁)
    (h : s₁.storeResource parent o ty = some (s', r)) :
    CreatesAs K s [givenRi env ty s.riCount body] ty (body.get .acpi) s' r := by
  obtain ⟨hri, hacpi, -, hrn⟩ := addGeneralAttribute_given hgen
  rw [← hri, ← Obj.str_congr (hsame .ri (by decide))]
  refine createsAs_storeResource hK hs (edits_drawnLooks hK hs hgen hlook) ?_ ((hsame .acpi (by decide)).trans hacpi) h
  rw [Obj.str_congr (hsame .rn (by decide))]
  exact hrn hla

/-! ## Types with a plain handler -/

theorem createsAs_createAe (hK : Stamps K) (hs : s.Sane) (hla : req.pc.str .rn ≠ some "la".toList)
    (h : s.createAe env req parent = some (s', r)) :
    CreatesAs K s [aeRi req.fr (givenRi env .ae s.riCount req.pc)] .ae (req.pc.get .acpi) s' r := by
  rcases createAe_cases h with h | ⟨o₀, n, o₁, o, hgen, hid, -, hsame, h⟩
  · exact h.createsAs hK hs
  · obtain ⟨hri, hacpi, hhas, hrn⟩ := addGeneralAttribute_given hgen
    obtain ⟨hother, hid⟩ := assignAeId_some hid
    have haa : ∀ k, k ≠ .aa → (validateAa .create o₀ .ae).get k = o₀.get k := fun k hk => get_validateAa hk
    have hget : ∀ k ∈ [Attr.rn, .acpi], o.get k = o₀.get k := fun k hk =>
      (hsame k (by revert k; decide)).trans ((hother k (by revert k; decide)).trans (haa k (by revert k; decide)))
    have hori : o.str .ri = aeRi req.fr (givenRi env .ae s.riCount req.pc) := by
      rw [Obj.str_congr (hsame .ri (by decide)), hid, Obj.str_congr (haa .ri (by decide)), hri]
      rw [show Obj.has (validateAa .create o₀ .ae) .ri = Obj.has o₀ .ri from congrArg Option.isSome (haa .ri (by decide))]
      exact hhas
    rw [← hori]
    refine createsAs_storeResource hK hs (edits_drawnLooks hK hs hgen .refl) ?_ ((hget .acpi (by decide)).trans hacpi) h
    rw [Obj.str_congr (hget .rn (by decide))]
    exact hrn hla

theorem createsAs_createAcp (hK : Stamps K) (hs : s.Sane) (hla : req.pc.str .rn ≠ some "la".toList)
    (h : s.createAcp env req parent = some (s', r)) :
    CreatesAs K s [givenRi env .acp s.riCount req.pc] .acp (req.pc.get .acpi) s' r := by
  rcases createAcp_cases h with h | ⟨o₀, n, o, hgen, hsame, h⟩
  · exact h.createsAs hK hs
  · exact createsAs_stored hK hs hgen hsame hla .refl h

theorem createsAs_createCnt (hK : Stamps K) (hs : s.Sane) (hla : req.pc.str .rn ≠ some "la".toList)
    (h : s.createCnt env req parent = some (s', r)) :
    CreatesAs K s [givenRi env .cnt s.riCount req.pc] .cnt (req.pc.get .acpi) s' r := by
  rcases createCnt_cases h with h | ⟨o₀, n, o, hgen, -, hsame, h⟩
  · exact h.createsAs hK hs
  · exact createsAs_stored hK hs hgen hsame hla .refl h

theorem createsAs_createTs (hK : Stamps K) (hs : s.Sane) (hla : req.pc.str .rn ≠ some "la".toList)
    (h : s.createTs env req parent = some (s', r)) :
    CreatesAs K s [givenRi env .ts s.riCount req.pc] .ts (req.pc.get .acpi) s' r := by
  rcases createTs_cases h with h | ⟨o₀, n, o, hgen, hsame, h⟩
  · exact h.createsAs hK hs
  · exact createsAs_stored hK hs hgen hsame hla .refl h

theorem createsAs_createAnnc (hK : Stamps K) (hs : s.Sane) (hla : req.pc.str .rn ≠ some "la".toList)
    (h : s.createAnnc env req ty parent = some (s', r)) :
    CreatesAs K s [givenRi env ty s.riCount req.pc] ty (req.pc.get .acpi) s' r := by
  obtain ⟨o₀, n, hgen, h⟩ := createAnnc_cases h
  have hbody : ∀ k, k ≠ .et → Obj.get (if ty = .cba then req.pc.del .et else req.pc) k = req.pc.get k := by
    intro k hk
    split
    · exact Assoc.get_del_ne (Ne.symm hk)
    · rfl
  have := createsAs_stored hK hs hgen (.refl _ o₀) (by rwa [Obj.str_congr (hbody .rn (by decide))]) .refl h
  unfold givenRi at this ⊢
  rwa [hbody .ri (by decide), hbody .acpi (by decide)] at this

theorem createsAs_createSub (hK : Stamps K) (hs : s.Sane) {verify : CStr → Int} (hla : req.pc.str .rn ≠ some "la".toList)
    (h : s.createSub env verify req parent = some (s', r)) :
    CreatesAs K s [givenRi env .sub s.riCount req.pc] .sub (req.pc.get .acpi) s' r := by
  rcases createSub_cases h with h | ⟨o₀, n, o, s₁, hgen, -, hsame, hlook, ⟨-, hr, uri, db, hdb, rfl⟩ | ⟨-, h⟩⟩
  · exact h.createsAs hK hs
  · refine ⟨1, [o], le_rfl, ?_, ?_, fun hc => absurd hc hr⟩
    · exact (edits_drawnLooks hK hs hgen hlook).1.store hdb
    · rw [← (addGeneralAttribute_given hgen).1, ← Obj.str_congr (hsame .ri (by decide))]
      exact List.Sublist.refl _
  · exact createsAs_stored hK hs hgen hsame hla hlook h

/-! ## Groups and CSRs -/

theorem edits_joinGroup (hK : Stamps K) (hs : s.Sane) {now grpUri : CStr} (mid : Json) :
    Edits K s 0 [] (joinGroup now grpUri s mid) := by
  unfold joinGroup
  split
  · exact .refl
  · rename_i addr _
    have hfind : Edits K s 0 [] (s.findRtnode now addr).1 := edits_findRtnode hK hs addr
    refine hfind.trans_nil ?_
    dsimp only
    split
    · exact .refl
    · split
      · exact .refl
      · split
        · exact edits_setMemberOf _ _
        · exact (edits_setMemberOf _ _).trans_nil (edits_memberRow hK _ _)

theorem edits_setGrpMember (hK : Stamps K) (hs : s.Sane) {now : CStr} {grp : RTNode} (h : s.setGrpMember now grp = some s') :
    Edits K s 0 [] s' := by
  unfold setGrpMember at h
  obtain ⟨_, -, rfl⟩ := Option.map_eq_some_iff.mp h
  exact .foldl (fun _ mid hs => edits_joinGroup hK hs mid) _ hs

theorem createsAs_createGrp (hK : Stamps K) (hs : s.Sane) {g : GrpEnv} (hla : req.pc.str .rn ≠ some "la".toList)
    (h : s.createGrp g req parent = some (s', r)) :
    CreatesAs K s [givenRi g.toEnv .grp s.riCount req.pc] .grp (req.pc.get .acpi) s' r := by
  rcases createGrp_cases h with h | ⟨o₀, n, o₁, o, s₁, s₂, hgen, hv, hsame, -, hst, hend⟩
  · exact h.createsAs hK hs
  · have hmade := createsAs_stored hK hs hgen hsame hla (looksUp_validateGrp hv) hst
    rcases hend with rfl | ⟨grp, -, hjoin⟩
    · exact hmade
    · obtain ⟨_, _, -, hedits, -⟩ := id hmade
      exact hmade.edits (edits_setGrpMember hK (hedits.sane hs) hjoin) hK hs

/-- The end of `create_csr` is that of the other handlers, with an entry of the list of descendant CSEs. -/
theorem storeCsr_some (h : s.storeCsr parent o = some (s', r)) : ∃ s₁ r₁, s.storeResource parent o .csr = some (s₁, r₁) ∧
    r₁.rsc = r.rsc ∧ (s' = s₁ ∨ ∃ csi, s' = s₁.addDcse csi) := by
  unfold storeCsr at h
  unfold storeResource
  simp only [Option.bind_eq_bind, Option.bind_eq_some_iff] at h ⊢
  obtain ⟨rn, hrn, h⟩ := h
  split at h
  · rename_i hdb
    cases h
    exact ⟨s, handleError .internalServerError "DB store fail", ⟨rn, hrn, by rw [hdb]; rfl⟩, rfl, .inl rfl⟩
  · rename_i db hdb
    obtain ⟨n, hn, h⟩ := Option.bind_eq_some_iff.mp h
    cases h
    refine ⟨_, _, ⟨rn, hrn, ?_⟩, rfl, .inr ⟨_, rfl⟩⟩
    rw [hdb]
    dsimp only
    rw [hn]
    rfl

theorem edits_addDcse (hK : Stamps K) (hs : s.Sane) (csi : Option CStr) : Edits K s 0 [] (s.addDcse csi) := by
  unfold addDcse
  split
  · exact .refl
  · rename_i cb c sib ht
    have hcb : cb ∈ s.tree.nodes := by rw [ht]; simp [Forest.nodes]
    have hobj : ∀ {o : Obj}, SparedObj cb.obj o → Edits K s 0 [] (s.setObj cb.id o) := fun ho =>
      .of_edit (.obj _ fun n hn hi => hs.ids.eq hn hcb hi ▸ hK.spared ho)
    split
    · exact hobj (.add _ _ (by decide))
    · exact hobj (.set _ _ (by decide))
    · exact .refl

theorem createsAs_createCsr (hK : Stamps K) (hs : s.Sane) (hla : req.pc.str .rn ≠ some "la".toList)
    (h : s.createCsr env req parent = some (s', r)) :
    CreatesAs K s [givenRi env .csr s.riCount req.pc] .csr (req.pc.get .acpi) s' r := by
  rcases createCsr_cases h with h | ⟨o₀, n, o, hgen, hsame, -, -, h⟩
  · exact h.createsAs hK hs
  · obtain ⟨s₁, r₁, hst, hr, hcase⟩ := storeCsr_some h
    obtain ⟨d, l, hd, hl, hids, hshow⟩ := createsAs_stored hK hs hgen hsame hla .refl hst
    have hmade : CreatesAs K s [givenRi env .csr s.riCount req.pc] .csr (req.pc.get .acpi) s₁ r :=
      ⟨d, l, hd, hl, hids, fun hc => hshow (hr.trans hc)⟩
    rcases hcase with rfl | ⟨csi, rfl⟩
    · exact hmade
    · exact hmade.edits (edits_addDcse hK (hl.sane hs) csi) hK hs

end Server

end TinyIoT
