/-
The create requests of instances and of flexContainers as runs of elementary changes: a content instance with the
accounting of its container and the cached latest one, an instance of a time series with the evictions, a
flexContainer with its instances.
-/
import TinyIoT.Requests.Stores
import TinyIoT.FlexContainer.Handlers

namespace TinyIoT

variable {K : List Attr} {env : Env} {req : Req} {s s₁ s' : Server} {parent : RTNode} {r : Resp} {o : Obj}
  {ty : ResourceType}

/-! ## The accounting of a container -/

namespace Server

theorem edits_evictLoop {mni mbs cni cbs : Int} {l : List RTNode} {db : Db} {x : Db × Int × Int}
    (h : evictLoop mni mbs l db cni cbs = some x) : Edits K { s with db := db } 0 [] { s with db := x.1 } := by
  induction l generalizing db cni cbs with
  | nil =>
    cases h
    exact .refl
  | cons head l ih =>
    unfold evictLoop at h
    split at h
    · obtain ⟨cs, -, h⟩ := Option.bind_eq_some_iff.mp h
      exact (edits_rows (s := { s with db := db }) head).trans_nil (ih h)
    · cases h
      exact .refl

theorem edits_evictRows {ri : CStr} {mni mbs cni cbs : Int} {x : Db × Int × Int}
    (h : evictRows ri mni mbs s.db cni cbs = some x) : Edits K s 0 [] { s with db := x.1 } := by
  have hone : Edits K s 0 [] { s with db := (evictOne ri mni s.db cni cbs).1 } := by
    unfold evictOne Db.dbDeleteOneCinMni
    split
    · dsimp only
      split
      · exact .refl
      · exact .of_edit (.cut _)
    · exact .refl
  unfold evictRows at h
  dsimp only at h
  split at h
  · exact hone.trans_nil (edits_evictLoop h)
  · cases h
    exact hone

/-- The evictions from the database, and the row of the container. -/
theorem edits_deleteCinUnder (hK : Stamps K) {n : RTNode} {o' : Obj} {db : Db} (hn : n ∈ s.tree.nodes) (ho : SameOn K n.obj o)
    (h : deleteCinUnderCntMniMbs o s.db = some (o', db)) : SameOn K n.obj o' ∧ Edits K s 0 [] { s with db := db } := by
  unfold deleteCinUnderCntMniMbs at h
  simp only [Option.bind_eq_bind, Option.bind_eq_some_iff] at h
  obtain ⟨cni, -, cbs, -, h⟩ := h
  split at h
  · cases h
    exact ⟨ho, .refl⟩
  · simp only [Option.bind_eq_some_iff, Option.pure_def, Option.some.injEq, Prod.mk.injEq] at h
    obtain ⟨ri, hri, x, hx, st, -, rfl, rfl⟩ := h
    have hcounts : SparedObj o ((((o.set .cni (cni.assignInt x.2.1)).set .cbs (cbs.assignInt x.2.2)).set .st
        (st.setIntValue (cInt (st.valueint + 1))))) :=
      ((SparedObj.set _ _ (by decide)).trans (.set _ _ (by decide))).trans (.set _ _ (by decide))
    have hsame := ho.trans (hK.spared hcounts)
    refine ⟨hsame, (edits_evictRows hx).edit ?_⟩
    exact .write (n := n) hn ((Obj.str_congr (ho .ri hK.ri)).symm.trans hri) fun k hk => .inr (hsame k hk)

theorem edits_dropExpired (hK : Stamps K) {i : Nat} {l : List RTNode} (hs : s.Sane)
    (h : dropExpired (.inTree i) l s = some s') : Edits K s 0 [] s' := by
  induction l generalizing s with
  | nil =>
    cases h
    exact .refl
  | cons n l ih =>
    simp only [dropExpired, Option.bind_eq_bind] at h
    obtain ⟨s₁, h₁, h⟩ := Option.bind_eq_some_iff.mp h
    have hdrop : Edits K s 0 [] ({ s₁ with db := s₁.db.dbDeleteOnem2mResource n }.freeRtnode n.id) :=
      ((edits_dropCnt hK hs (by exact trivial) h₁).trans_nil (edits_rows n)).edit (.prune (spares_freeRtnode _ _) rfl rfl)
    exact hdrop.trans_nil (ih (hdrop.sane hs) h)

theorem edits_expireByMia (hK : Stamps K) {i : Nat} {n : RTNode} (hs : s.Sane)
    (h : s.expireByMia env (.inTree i) n = some s') : Edits K s 0 [] s' := by
  unfold expireByMia at h
  split at h
  · cases h
    exact .refl
  · split at h
    · obtain ⟨l, -, h⟩ := Option.bind_eq_some_iff.mp h
      exact edits_dropExpired hK hs h
    · cases h
      exact .refl

/-- An instance is counted. -/
theorem edits_addCnt (hK : Stamps K) {i : Nat} {cin : Obj} (hs : s.Sane) (h : s.addCnt env (.inTree i) cin = some s') :
    Edits K s 0 [] s' := by
  unfold addCnt at h
  simp only [Option.bind_eq_bind, Option.bind_eq_some_iff, Option.pure_def, Option.some.injEq] at h
  obtain ⟨c, -, s₁, h₁, n, hn, o, ho, ⟨o', db⟩, hdel, rfl⟩ := h
  obtain ⟨hmem, hid⟩ := node?_mem hn
  have hmia : Edits K s 0 [] s₁ := edits_expireByMia hK hs h₁
  have hbump : SparedObj n.obj o := by
    unfold bumpCnt at ho
    simp only [Option.bind_eq_bind, Option.bind_eq_some_iff, Option.pure_def, Option.some.injEq] at ho
    obtain ⟨cni, -, cbs, -, st, -, cs, -, rfl⟩ := ho
    exact ((SparedObj.set _ _ (by decide)).trans (.set _ _ (by decide))).trans (.set _ _ (by decide))
  obtain ⟨hsame, hrows⟩ := edits_deleteCinUnder (s := s₁) hK hmem (hK.spared hbump) hdel
  have hs₁ := hmia.sane hs
  exact (hmia.trans_nil hrows).trans_nil
    (edits_persist (s := { s₁ with db := db }) hK (hs₁.congr rfl le_rfl) hn trivial hsame)

/-! ## Content instances -/

theorem createsAs_createCin (hK : Stamps K) (hs : s.Sane) (hl : s.LatestAreCins)
    (h : s.createCin env req parent = some (s', r)) :
    CreatesAs K s [givenRi env .cin s.riCount req.pc] .cin (req.pc.get .acpi) s' r := by
  rcases createCin_cases h with h | ⟨o₀, n, st, o, node, s₁, hgen, -, ho, hnode, hadd, db, hdb, rfl⟩
  · exact h.createsAs hK hs
  · have hadded := edits_addCnt (s := { s with riCount := n }) hK (hs.congr rfl le_rfl) hadd
    refine ⟨1, [node.obj], le_rfl, ?_, ?_, fun _ hc => absurd rfl hc⟩
    · have hall : Edits K s 1 [] s₁ := (edits_drawn hgen).nil_trans hadded
      have hs₁ := hall.sane hs
      have hnext : s₁.nextId = s.nextId := by
        have := addCnt_place (s := { s with riCount := n }) (hs.congr rfl le_rfl) hl hadd
        exact this.2.2.1
      obtain ⟨hid, hty, -⟩ := createRtnode_some hnode
      rcases cacheLatest_cases (s := { s₁ with db := db, nextId := s₁.nextId + 1 }) parent hty
        (fun a ha => by have := hs₁.below a ha; omega) with ⟨la, hla, hrn, hcache⟩ | ⟨-, hcache⟩
      · -- the child `la` takes over the row that was stored
        rw [hcache]
        have hcin : la.ty = .cin := hall.latestAreCins hK hs hl la hla hrn
        obtain ⟨t, tbl, -, -, hrow⟩ := Db.dbStoreResource_some hdb
        have hnext : Edit K { s₁ with db := db } { s₁ with db := db, nextId := s₁.nextId + 1 } :=
          .aside rfl rfl (Nat.le_succ _) rfl
        refine ((Edits.store (l := []) hall hdb).edit hnext).edit (.cache hla hcin (r := ⟨_, tbl, _⟩) (hrow ▸ List.mem_append_right _ List.mem_cons_self)
          (.inr fun k hk v hv => ?_))
        have hu : k ≠ .uri := by
          rintro rfl
          exact hK.apart _ hk (by decide)
        rw [Db.get_stored _ hu, hv]
        rfl
      · rw [hcache]
        exact Edits.create (l := []) parent.id hall hdb (hid.trans hnext.symm) (fun _ => hty) (.refl K _)
    · have hri : node.obj.str .ri = givenRi env .cin s.riCount req.pc := by
        rw [← (addGeneralAttribute_given hgen).1, Obj.str_congr ((createRtnode_some hnode).2.2.2.2.2.2.2.1 .ri (by decide)),
          Obj.str_congr ((buildCin_ok ho).1 .ri (by decide))]
      exact hri ▸ List.Sublist.refl _

/-! ## Instances of a time series -/

theorem spared_countDown (ts : Obj) (cs : Int) : SparedObj ts (countDown ts cs) := by
  unfold countDown
  dsimp only
  cases ts.get .cni with
  | none =>
    dsimp only
    split
    · exact .refl ts
    · exact .set _ _ (by decide)
  | some j =>
    dsimp only
    split
    · exact .set _ _ (by decide)
    · exact (SparedObj.set _ _ (by decide)).trans (.set _ _ (by decide))

theorem edits_deleteOldestTsi (hK : Stamps K) (hs : s.Sane) {i : Nat} (h : s.deleteOldestTsi i = some s') :
    Edits K s 0 [] s' := by
  unfold deleteOldestTsi at h
  split at h
  · cases h
    exact .refl
  · rename_i oldest _
    split at h
    · cases h
    · simp only [Option.bind_eq_bind, Option.bind_eq_some_iff, Option.pure_def, Option.some.injEq] at h
      obtain ⟨p, hp, cs, -, rfl⟩ := h
      obtain ⟨hpm, hpi⟩ := node?_mem hp
      have hobj : Edit K s (s.setObj i (countDown p.obj cs.valueint)) := .obj i fun m hm hmi =>
        hs.ids.eq hm hpm (hmi.trans hpi.symm) ▸ hK.spared (spared_countDown _ _)
      exact ((Edits.of_edit hobj).trans_nil (edits_rows oldest)).edit (.prune (spares_freeRtnode _ _) rfl rfl)

theorem edits_evictTsi (hK : Stamps K) {exceeds : Int → Int → Bool} {i fuel : Nat} {cni cbs : Int} (hs : s.Sane)
    (h : evictTsi exceeds i fuel s cni cbs = some (.within s')) : Edits K s 0 [] s' := by
  induction fuel generalizing s cni cbs with
  | zero =>
    unfold evictTsi at h
    split at h
    · cases h
    · cases h
      exact .refl
  | succ fuel ih =>
    unfold evictTsi at h
    split at h
    · simp only [Option.bind_eq_bind, Option.bind_eq_some_iff] at h
      obtain ⟨s₁, h₁, c, -, h⟩ := h
      have hone : Edits K s 0 [] s₁ := edits_deleteOldestTsi hK hs h₁
      exact hone.trans_nil (ih (hone.sane hs) h)
    · cases h
      exact .refl

/-- The end of the evictions: the row of the time series is written. -/
theorem edits_writeTs (hK : Stamps K) {i : Nat} {n : RTNode} {tsRi : CStr} (hshow : s.ShowsOn K i .ts o)
    (hri : o.str .ri = some tsRi) (hn : s.node? i = some n) : Edit K s { s with db := s.db.dbUpdateResource n.obj tsRi } := by
  obtain ⟨hmem, hid⟩ := node?_mem hn
  exact .write hmem ((Obj.str_congr ((hshow n hmem hid).2 .ri hK.ri)).trans hri) fun _ _ => .inr rfl

theorem edits_settleTsi (hK : Stamps K) (hs : s.Sane) {i new : Nat} {tsRi : CStr} {mbs : Int} (hi : i < s.nextId)
    (hshow : s.ShowsOn K i .ts o) (hri : o.str .ri = some tsRi) (h : s.settleTsi i tsRi mbs new = some (.reply s' r)) :
    Edits K s 0 [] s' := by
  unfold settleTsi at h
  simp only [Option.bind_eq_bind, Option.bind_eq_some_iff] at h
  obtain ⟨p, -, mni, -, c, -, e, he, h⟩ := h
  cases e with
  | endless => cases h
  | within s₁ =>
    simp only [Option.bind_eq_some_iff, Option.pure_def, Option.some.injEq, Outcome.reply.injEq] at h
    obtain ⟨n, hn, m, -, rfl, -⟩ := h
    have hevict : Edits K s 0 [] s₁ := edits_evictTsi hK hs he
    exact hevict.edit (edits_writeTs hK (hshow.edits hevict hK hs hi (by decide)) hri hn)

theorem createsAs_createTsi (hK : Stamps K) (hs : s.Sane) {env : TsEnv} (hp : parent ∈ s.tree.nodes)
    (hla : req.pc.str .rn ≠ some "la".toList) (h : s.createTsi env req parent = some (.reply s' r)) :
    CreatesAs K s [givenRi env.toEnv .tsi s.riCount req.pc] .tsi (req.pc.get .acpi) s' r := by
  rcases createTsi_cases h with ⟨rfl, hr⟩ | ⟨obj, n, hobj, hcase⟩
  · exact .of_edits (Nat.zero_le _) .refl hr
  · have hshow : ShowsOn K { s.setObj parent.id obj with riCount := n } parent.id parent.ty obj :=
      (ShowsOn.of_mem hs hp).setObj obj
    have hnormal : Edits K s 0 [] (s.setObj parent.id obj) :=
      .of_edit ((ShowsOn.of_mem hs hp).edit (hobj.mono hK.sub))
    rcases hcase with ⟨rfl | rfl, rfl, hr⟩ | ⟨body, o₀, uri, db, node, ts, tsRi, mbs, hts, hri, hbody, hrn, hgen, hdb, hnode, hsame, h⟩
    · exact .of_edits (Nat.zero_le _) hnormal hr
    · exact .of_edits le_rfl hnormal.draw hr
    · obtain ⟨hori, hacpi, -, hname⟩ := addGeneralAttribute_given hgen
      obtain ⟨hid, hty, hnrn, -⟩ := createRtnode_some hnode
      have hbla : body.str .rn ≠ some "la".toList := by
        intro hb
        rcases hrn _ hb with hb | ⟨rest, hb⟩
        · exact hla hb
        · cases hb
      have hnobj : SameOn K o₀ node.obj := hK.createRtnode hnode
      rw [addChildResourceTree_plain (by rw [hty]; decide) (by rw [hty]; decide)] at h
      -- the time series is counted up, the instance linked, and the row gets its `lt`
      have hdrawn : Edits K s 1 [] { s.setObj parent.id obj with riCount := n } := by
        rw [addGeneralAttribute_count hgen]
        exact hnormal.draw
      have hcount := hdrawn.edit (hshow.edit (hsame.mono hK.sub))
      have hnone : Edits K ({ s.setObj parent.id obj with riCount := n }.setObj parent.id ts) 0 []
          ({ s.setObj parent.id obj with riCount := n }.setObj parent.id ts) := .refl
      have hlink : Edits K ({ s.setObj parent.id obj with riCount := n }.setObj parent.id ts) 0 [o₀] _ :=
        (hnone.create parent.id hdb (x := { node with uri := parent.uri ++ '/' :: node.rn }) hid
          (fun hn => absurd (hnrn.trans (congrArg some hn)) (hname hbla)) hnobj).edit
          (hK.columns (l := [(.lt, .str env.now)]) tsRi (by simp [deletionAttrs]))
      have hs₁ := hcount.sane hs
      have hold : parent.id < s.nextId := hs.below parent hp
      have hts₁ := ((hshow.setObj ts).edits hlink hK hs₁ hold (hts ▸ by decide))
      have hnew := ShowsOn.linked hs₁ (db.dbUpdateResource [(.lt, .str env.now)] tsRi) parent.id
        (x := { node with uri := parent.uri ++ '/' :: node.rn }) hid hnobj
      have hsettle := edits_settleTsi hK (hlink.sane hs₁) (Nat.lt_succ_of_lt hold) (hts ▸ hts₁)
        ((Obj.str_congr ((hobj.trans hsame) .ri (by decide))).trans hri) h
      refine .of_shows (o := o₀) le_rfl (hcount.trans (hlink.nil_trans hsettle)) ?_ ?_
        ((Nat.lt_succ_self _).trans_le hsettle.nextId_le) fun _ =>
        hty ▸ hnew.edits hsettle hK (hlink.sane hs₁) (Nat.lt_succ_self _) (hty ▸ by decide)
      · have hgiven : givenRi env.toEnv .tsi s.riCount body = givenRi env.toEnv .tsi s.riCount req.pc := by
          unfold givenRi
          rw [hbody .ri (by decide)]
        rw [← hgiven, ← hori]
        exact List.Sublist.refl _
      · exact hacpi.trans (hbody .acpi (by decide))

end Server

/-! ## FlexContainers -/

theorem get_inColumns {k : Attr} (hk : k ∈ columns ty) (o : Obj) : Obj.get (inColumns ty o) k = o.get k := by
  unfold inColumns
  rw [Obj.get, Assoc.get_filterKeys, if_pos (List.any_eq_true.mpr ⟨k, hk, decide_eq_true rfl⟩)]

/-- The attributes have a column. -/
theorem sameOn_inColumns (hK : Stamps K) (hty : ty = .fcnt ∨ ty = .fcin) (o : Obj) : SameOn K (inColumns ty o) o := by
  have hcol : ∀ k ∈ .acpi :: stampAttrs, k ∈ columns ty := by
    rcases hty with rfl | rfl <;> decide
  exact fun k hk => (get_inColumns (hcol k (hK.sub hk)) o).symm

namespace Server

/-- An instance of a flexContainer is stored, by an identifier of its own. -/
theorem edits_addFlexcontainerInstance (hK : Stamps K) {e : FcntEnv} {fcnt : RTNode} {isCreate b : Bool}
    (h : s.addFlexcontainerInstance e req fcnt isCreate = some (s', b)) :
    (b = false ∧ ∃ d ≤ 1, Edits K s d [] s') ∨
      (b = true ∧ ∃ o, o.str .ri = some (resourceIdentifier .fcin e.now s.riCount).1 ∧ Edits K s 1 [o] s') := by
  unfold addFlexcontainerInstance at h
  split at h
  · cases h
    exact .inl ⟨rfl, 0, Nat.zero_le _, .refl⟩
  · split at h
    · cases h
      exact .inl ⟨rfl, 0, Nat.zero_le _, .refl⟩
    · rename_i st _
      obtain ⟨⟨o, n⟩, hgen, h⟩ := Option.bind_eq_some_iff.mp h
      obtain ⟨pi, -, hget⟩ := addGeneralAttribute_some hgen
      dsimp only at h
      have hgot : ∀ k, k ≠ .et → k ≠ .lt → Obj.get (fcinExpiry e.later fcnt.obj (o.del .lt)) k = o.get k :=
        fun k h1 h2 => (get_fcinExpiry h1).trans (Assoc.get_del_ne (Ne.symm h2))
      generalize fcinExpiry e.later fcnt.obj (o.del .lt) = o₁ at h hgot
      obtain ⟨rn, hrn, h⟩ := Option.bind_eq_some_iff.mp h
      split at h
      · cases h
        exact .inl ⟨rfl, 1, le_rfl, edits_drawn hgen⟩
      · rename_i db hdb
        obtain ⟨x, hx, h⟩ := Option.bind_eq_some_iff.mp h
        obtain ⟨ri, -, h⟩ := Option.bind_eq_some_iff.mp h
        obtain ⟨hid, hxty, hxrn, -⟩ := createRtnode_some hx
        rw [addChildResourceTree_plain (by rw [hxty]; decide) (by rw [hxty]; decide)] at h
        cases h
        -- the name has an underscore after that of the flexContainer
        have hname : x.rn = fcnt.rn ++ '_' :: Decimal.ofInt st.valueint := by
          have hbuilt : o₁.get .rn = some (.str (fcnt.rn ++ '_' :: Decimal.ofInt st.valueint)) := by
            rw [hgot .rn (by decide) (by decide), hget, get_rn_buildFcin]
            rfl
          exact Option.some.inj (hxrn.symm.trans (Obj.str_of_get hbuilt))
        have hla : x.rn ≠ "la".toList := by
          intro hl
          have hmem : '_' ∈ "la".toList := by
            rw [← hl, hname]
            simp
          revert hmem
          decide
        refine .inr ⟨rfl, inColumns .fcin o₁, ?_, ?_⟩
        · refine Obj.str_of_get ?_
          rw [get_inColumns (by decide), hgot .ri (by decide) (by decide), hget, get_buildFcin rfl (by decide)]
          rfl
        · have hsame : SameOn K (inColumns .fcin o₁) x.obj := (sameOn_inColumns hK (.inr rfl) o₁).trans (hK.createRtnode hx)
          have hlink := (edits_drawn (K := K) hgen).create fcnt.id hdb (x := { x with uri := fcnt.uri ++ '/' :: x.rn }) hid
            (fun hl => absurd hl hla) hsame
          split
          · exact hlink
          · exact hlink.edit (.custom _ _ _)

theorem Removes.edits {i : Nat} (h : s.Removes i s') (hs : s.Sane) : Edits K s 0 [] s' := by
  obtain ⟨l, -, rfl⟩ := h
  exact .foldl (fun s c _ => (edits_rows c).edit (.prune (spares_freeRtnode _ _) rfl rfl)) l hs

/-- The end of `create_fcnt`, with an identifier drawn: nothing is stored, or the flexContainer, perhaps with its first
instance. -/
theorem createsAs_storeFcnt (hK : Stamps K) (hs : s.Sane) (hdrawn : Edits K s 1 [] s₁) (hn : s₁.nextId = s.nextId)
    (hp : parent ∈ s₁.tree.nodes) {e : FcntEnv} {custom : Obj} {size : Int} {acpi : Option Json}
    (hla : o.str .rn ≠ some "la".toList) (hacpi : o.get .acpi = acpi)
    (h : s₁.storeFcnt e req parent custom size o = some (s', r)) :
    CreatesAs K s [o.str .ri, some (resourceIdentifier .fcin e.now s₁.riCount).1] .fcnt acpi s' r := by
  have hs₁ := hdrawn.sane hs
  unfold storeFcnt at h
  simp only [Option.bind_eq_bind, Option.bind_eq_some_iff] at h
  obtain ⟨rn, hrn, h⟩ := h
  split at h
  · cases h
    exact .of_edits (Nat.le_succ _) hdrawn (by decide)
  · rename_i db hdb
    simp only [Option.bind_eq_some_iff] at h
    obtain ⟨ri, hri, node, hnode, h⟩ := h
    obtain ⟨hid, hty, hname, -⟩ := createRtnode_some hnode
    rw [addChildResourceTree_plain (by rw [hty]; decide) (by rw [hty]; decide)] at h
    have hsame : SameOn K o node.obj := hK.createRtnode hnode
    have hcols : SameOn K (inColumns .fcnt o) o := sameOn_inColumns hK (.inl rfl) o
    have hids : Obj.str (inColumns .fcnt o) .ri = o.str .ri := Obj.str_congr (hcols .ri hK.ri).symm
    have hlink := hdrawn.create parent.id hdb (x := { node with uri := parent.uri ++ '/' :: node.rn }) hid
      (fun hl => absurd (hname.trans (congrArg some hl)) hla) (hcols.trans hsame)
    have hdb' : ∀ db' : Db, ShowsOn K { s₁ with
        tree := s₁.tree.graft (RTNode.hasId parent.id) (insertChild { node with uri := parent.uri ++ '/' :: node.rn }),
        db := db', nextId := s₁.nextId + 1 } s₁.nextId .fcnt o := fun db' => hty ▸ ShowsOn.linked hs₁ db' parent.id hid hsame
    have hmem := (nodes_graft (x := { node with uri := parent.uri ++ '/' :: node.rn }) hs₁.ids hp rfl).symm.subset
      List.mem_cons_self
    generalize hmade : Server.mk _ _ _ _ _ = s₂ at h
    have hstored : Edits K s 1 [inColumns .fcnt o] s₂ := by
      rw [← hmade]
      split
      · exact hlink
      · exact hlink.edit (.custom _ _ _)
    have hshow : s₂.ShowsOn K s.nextId .fcnt o := hn ▸ hmade ▸ hdb' _
    have hcount : s₂.riCount = s₁.riCount := hmade ▸ rfl
    have hin : { node with uri := parent.uri ++ '/' :: node.rn } ∈ s₂.tree.nodes := hmade ▸ hmem
    have hs₂ := hstored.sane hs
    have hnext : s.nextId < s₂.nextId := by
      rw [← hn, ← hmade]
      exact Nat.lt_succ_self _
    -- without an instance
    have hplain : Edits K s 1 [inColumns .fcnt o] s₂ ∧
        ([inColumns .fcnt o].map (Obj.str · .ri)).Sublist
          ([o.str .ri, some (resourceIdentifier .fcin e.now s₁.riCount).1].take 1) := by
      refine ⟨hstored, ?_⟩
      rw [List.map_cons, hids]
      exact List.Sublist.refl _
    split at h
    · obtain ⟨⟨s₃, added⟩, hadd, h⟩ := Option.bind_eq_some_iff.mp h
      dsimp only at h
      rcases edits_addFlexcontainerInstance hK hadd with ⟨rfl, d, hd, he⟩ | ⟨rfl, q, hq, he⟩
      · cases h
        refine .of_shows (d := 1 + d) (by simp; omega) (hstored.trans he) ?_ hacpi (hnext.trans_le he.nextId_le) fun _ =>
          hshow.edits he hK hs₂ hnext (by decide)
        rw [List.append_nil]
        exact hplain.2.trans (List.take_sublist_take_left (by omega))
      · rcases addFlexcontainerInstance_some hadd with ⟨hf, -⟩ | ⟨-, -, x, -, -, -, -, -, -, -, -, -, ht, -⟩
        · cases hf
        · rw [if_pos rfl] at h
          cases h
          have hobj : SameOn K node.obj ((node.obj.add .cni (.int 1)).add .cbs (.int size)) :=
            (SameOn.add _ _ fun hk => hK.apart _ hk (by decide)).trans (.add _ _ fun hk => hK.apart _ hk (by decide))
          have hs₃ := he.sane hs₂
          have hshow₃ := hshow.edits he hK hs₂ hnext (by decide)
          have hset := hid ▸ hn ▸ hshow₃.edit (hsame.trans hobj)
          -- the node is still there, and its row is written from it
          have hin₃ : { node with uri := parent.uri ++ '/' :: node.rn } ∈ s₃.tree.nodes := by
            rw [ht]
            exact (Forest.nodes_graft_perm (nodes_insertChild x) _).symm.subset (List.mem_append_right _ hin)
          have hset₃ : { node with
              uri := parent.uri ++ '/' :: node.rn, obj := (node.obj.add .cni (.int 1)).add .cbs (.int size) } ∈
              (s₃.setObj node.id ((node.obj.add .cni (.int 1)).add .cbs (.int size))).tree.nodes := by
            rw [setObj, nodes_modifyNode]
            exact List.mem_map.mpr ⟨_, hin₃, if_pos rfl⟩
          have hwrite : Edit K _ _ := .write hset₃ ((Obj.str_congr ((hsame.trans hobj) .ri hK.ri)).trans hri)
            fun k hk => .inr (sameOn_inColumns hK (.inl rfl) _ k hk).symm
          have hend := (Edits.of_edit hset).edit hwrite
          have hnext₃ := hnext.trans_le he.nextId_le
          refine .of_shows le_rfl ((hstored.trans he).nil_trans hend) ?_ hacpi (hnext₃.trans_le hend.nextId_le) fun _ =>
            hshow₃.edits hend hK hs₃ hnext₃ (by decide)
          · rw [List.singleton_append, List.map_cons, List.map_cons, List.map_nil, hids, hq, hcount]
            exact List.Sublist.refl _
    · cases h
      exact .of_shows (Nat.le_succ 1) hplain.1 hplain.2 hacpi hnext fun _ => hshow

theorem createsAs_createFcnt (hK : Stamps K) (hs : s.Sane) (hp : parent ∈ s.tree.nodes) {e : FcntEnv} {sn : Option CStr}
    (hla : req.pc.str .rn ≠ some "la".toList) (h : s.createFcnt e sn req parent = some (s', r)) :
    CreatesAs K s [givenRi e.toEnv .fcnt s.riCount req.pc,
      some (resourceIdentifier .fcin e.now ((s.riCount + 1) % 10000)).1] .fcnt (req.pc.get .acpi) s' r := by
  rcases createFcnt_cases h with h | ⟨o₀, n, o, -, hgen, -, hsame, h⟩
  · exact h.createsAs hK hs
  · have hbody : ∀ k ∈ .acpi :: stampAttrs, Obj.get (fcntBody sn req.pc) k = req.pc.get k := fun k hk =>
      (touches_fcntBody sn req.pc).get (by revert k; decide)
    obtain ⟨hri, hacpi, -, hrn⟩ := addGeneralAttribute_given hgen
    rw [Obj.str_congr (hbody .rn (by decide))] at hrn
    have hmade := createsAs_storeFcnt hK hs (edits_drawn hgen) rfl hp (by
      rw [Obj.str_congr (hsame .rn (by decide))]
      exact hrn hla) ((hsame .acpi (by decide)).trans (hacpi.trans (hbody .acpi (by decide)))) h
    rw [Obj.str_congr (hsame .ri (by decide)), hri, addGeneralAttribute_count hgen] at hmade
    unfold givenRi at hmade ⊢
    rwa [hbody .ri (by decide)] at hmade

end Server

end TinyIoT
