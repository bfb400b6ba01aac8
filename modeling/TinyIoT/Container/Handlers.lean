/-
The handlers keep the books: one lemma for each of `create_cnt`, `create_cin`, `update_cnt` and the
deletion of a content instance.
-/
import TinyIoT.Container.Counting
import TinyIoT.Resource.Built

namespace TinyIoT

/-- No `mni` among the members is negative. -/
def MniNonneg (o : Obj) : Prop := ∀ e ∈ o, e.1 = .mni → 0 ≤ e.2.valueint

theorem MniNonneg.limit {o : Obj} (h : MniNonneg o) : 0 ≤ limit o .mni defaultMaxNrInstances := by
  unfold TinyIoT.limit
  split
  · decide
  · rename_i j hj
    exact h _ (Assoc.mem_of_get hj) rfl

theorem MniNonneg.updateResource {o body : Obj} (h : MniNonneg o) (hb : MniNonneg body) :
    MniNonneg (o.updateResource body) :=
  fun e he hk => (Obj.mem_updateResource he).elim (fun he => h e he hk) fun he => hb e he hk

namespace CntInv

variable {s s' : Server} {env : Env} {req : Req} {parent : RTNode}

/-- A stored row, whatever the object. -/
theorem plain_stored (uri : CStr) {t : ResourceType} (o : Obj) (h1 : t ≠ .fcin) (h2 : t ≠ .tsi) :
    PlainRow ⟨uri, t, Assoc.drop (Assoc.overlay column o []) .uri⟩ :=
  ⟨h1, h2, by show Assoc.get _ _ = _; simp⟩

/-- A row of a resource that is no instance. -/
theorem snoc_other (h : CntInv .none s) {r : Row} (hty : r.ty ≠ .cin) (hp : PlainRow r) :
    CntInv .none { s with db := s.db ++ [r] } := by
  refine h.setDb (Db.keys_snoc_ne hty) ?_
  intro q hq
  rcases List.mem_append.mp hq with hq | hq
  · exact h.rows q hq
  · rw [List.mem_singleton.mp hq]
    exact hp

/-- A new container takes its place in the tree. -/
theorem graftCnt (h : CntInv .none s) (hp : parent ∈ s.tree.nodes) (hcin : parent.ty ≠ .cin) {x : RTNode} {ri : CStr}
    (hid : x.id = s.nextId) (hty : x.ty = .cnt) (hsubs : x.subs = []) (hrn : x.rn ≠ "la".toList)
    (hri : x.obj.get .ri = some (.str ri)) (hri0 : ri ≠ []) (hcni : x.obj.get .cni = some (.int 0))
    (hcbs : x.obj.get .cbs = some (.int 0)) (hkeys : ∀ k ∈ s.db.keys .cin, k.ri ≠ some ri ∧ k.pi ≠ some ri)
    (hfresh : ∀ n ∈ s.tree.nodes, n.ri ≠ some ri)
    (ht : s'.tree = s.tree.graft (RTNode.hasId parent.id) (insertChild x)) (hn : s'.nextId = s.nextId + 1)
    (hdb : s'.db = s.db) : CntInv .none s' := by
  obtain ⟨c, hc⟩ := Forest.mem_nodes_iff.mp hp
  refine ⟨?_, ?_, by rw [hdb]; exact h.rows⟩
  · exact h.shape.insert hc hcin hid hsubs (by rw [hty]; decide) ⟨fun hx => absurd (hty.symm.trans hx) (by decide), fun hx => absurd hx hrn⟩
      (fun hx => absurd (hty.symm.trans hx) (by decide)) ht hn
  · rw [hdb]
    refine h.books.newCnt hri hri0 hcni hcbs rfl hkeys hfresh hty ?_
    intro m hm
    rw [ht] at hm
    exact List.mem_cons.mp ((Server.nodes_graft h.shape.ids hp rfl).subset hm)

theorem reserved_la : isReservedName "la".toList = true := by decide

/-- `create_cnt`. -/
theorem createCnt (h : CntInv .none s) (hp : parent ∈ s.tree.nodes) (hcin : parent.ty ≠ .cin)
    (hplace : ∀ k ∈ placing, req.pc.get k = none) (hcni : req.pc.get .cni = none) (hcbs : req.pc.get .cbs = none)
    (hnew : Unused s (resourceIdentifier .cnt env.now s.riCount).1) (hacpi : s.AcpiSettled env.now (req.pc.get .acpi))
    {resp : Resp} (he : s.createCnt env req parent = some (s', resp)) : CntInv .none s' := by
  unfold Server.createCnt at he
  simp only [Option.bind_eq_bind] at he
  obtain ⟨⟨cnt, n⟩, hgen, he⟩ := Option.bind_eq_some_iff.mp he
  obtain ⟨pi, -, hget⟩ := addGeneralAttribute_some hgen
  have h₁ : CntInv .none { s with riCount := n } := h.congr rfl rfl rfl
  dsimp only at he
  split at he
  · cases he
    rw [Server.afterChecks_settled]
    · exact h₁
    · rw [show cnt.get .acpi = req.pc.get .acpi by rw [hget]; exact Option.or_none]
      exact hacpi
  · rename_i o ho
    obtain ⟨hattr, hoc, hob, hrn⟩ := buildCnt_ok ho
    have hri : o.get .ri = some (.str (resourceIdentifier .cnt env.now s.riCount).1) := by
      rw [hattr .ri (by decide), hget, hplace .ri (by decide)]
      rfl
    have hty : o.get .ty = some (.int ResourceType.cnt.code) := by
      rw [hattr .ty (by decide), hget, hplace .ty (by decide)]
      rfl
    have hni : o.get .cni = some (.int 0) := hoc (by rw [hget, hcni]; rfl)
    have hbi : o.get .cbs = some (.int 0) := hob (by rw [hget, hcbs]; rfl)
    obtain ⟨x, rn, hrn', hid, hxty, hxrn, -, hsubs, hxattr, -, rfl⟩ :=
      storeResource_some (by decide) (by decide) (by decide) hty he
    have h₂ := h₁.snoc_other (r := ⟨parent.uri ++ '/' :: rn, .cnt, Assoc.drop (Assoc.overlay column o []) .uri⟩)
      nofun (plain_stored _ _ nofun nofun)
    have hla : x.rn ≠ "la".toList := by
      intro hla
      rw [← Obj.str_congr (hattr .rn (by decide)), hrn', ← hxrn, hla] at hrn
      cases hrn.symm.trans reserved_la
    refine graftCnt (x := x) (s := { s with riCount := n, db := s.db ++ [_] }) h₂ hp hcin hid hxty hsubs hla
      ((hxattr .ri (by decide)).trans hri) (resourceIdentifier_ne_nil _ _ _) ((hxattr .cni (by decide)).trans hni)
      ((hxattr .cbs (by decide)).trans hbi) ?_ hnew.1 rfl rfl rfl
    intro k hk
    dsimp only at hk
    rw [Db.keys_snoc_ne (by nofun)] at hk
    obtain ⟨r, hr, -, rfl⟩ := Db.mem_keys.mp hk
    exact hnew.2 r hr

/-- The next address may move on. -/
theorem newId (h : CntInv .none s) : CntInv .none { s with nextId := s.nextId + 1 } :=
  ⟨h.shape.congr rfl (Nat.le_succ _), h.books, h.rows⟩

/-- The node of a cached instance takes a stored one over. -/
theorem setObj_cached (h : CntInv .none s) {i : Nat} {o : Obj} (hty : ∀ m ∈ s.tree.nodes, m.id = i → m.ty = .cin)
    (hcache : ∀ k ∈ s.db.keys .cin, k.ri = o.str .ri → Caches o k) : CntInv .none (s.setObj i o) := by
  refine ⟨h.shape.modify rfl (fun m _ _ => ⟨rfl, rfl, rfl, rfl⟩) rfl, ?_, h.rows⟩
  refine h.books.cache fun m hm => ?_
  rw [Server.setObj, Server.nodes_modifyNode] at hm
  obtain ⟨m₀, hm₀, rfl⟩ := List.mem_map.mp hm
  by_cases hid : m₀.id = i
  · rw [if_pos hid]
    exact .inr ⟨hty m₀ hm₀ hid, hcache⟩
  · rw [if_neg hid]
    exact .inl hm₀

/-- A new node under the name `la` caches a stored instance. -/
theorem graftCin (h : CntInv .none s) {p x : RTNode} (hp : p ∈ s.tree.nodes) (hcin : p.ty ≠ .cin)
    (hid : x.id = s.nextId) (hty : x.ty = .cin) (hsubs : x.subs = []) (hrn : x.rn = "la".toList)
    (hnone : ∀ m ∈ (s.children p.id).roots, m.rn ≠ "la".toList)
    (hcache : ∀ k ∈ s.db.keys .cin, k.ri = x.ri → Caches x.obj k)
    (ht : s'.tree = s.tree.graft (RTNode.hasId p.id) (insertChild x)) (hn : s'.nextId = s.nextId + 1)
    (hdb : s'.db = s.db) : CntInv .none s' := by
  obtain ⟨c, hc⟩ := Forest.mem_nodes_iff.mp hp
  rw [Server.children_eq h.shape.ids hc] at hnone
  refine ⟨?_, ?_, by rw [hdb]; exact h.rows⟩
  · refine h.shape.insert hc hcin hid hsubs (by rw [hty]; decide) (by simp [hty, hrn]) (fun _ => ?_) ht hn
    rw [List.countP_eq_zero]
    intro m hm hmty
    have hm' := Forest.roots_of_cell hc hm
    exact hnone m hm ((h.shape.named m hm').mp (by simpa using hmty))
  · rw [hdb]
    refine h.books.cache fun m hm => ?_
    rw [ht] at hm
    rcases List.mem_cons.mp ((Server.nodes_graft h.shape.ids hp rfl).subset hm) with rfl | hm
    · exact .inr ⟨hty, hcache⟩
    · exact .inl hm

/-- The end of `create_cin`. -/
theorem cacheLatest (h : CntInv .none s) {p x : RTNode} (hp : p ∈ s.tree.nodes) (hpid : p.id = parent.id)
    (hcin : p.ty ≠ .cin) (hid : x.id = s.nextId) (hty : x.ty = .cin) (hsubs : x.subs = [])
    (hcache : ∀ k ∈ s.db.keys .cin, k.ri = x.ri → Caches x.obj k) :
    CntInv .none ({ s with nextId := s.nextId + 1 }.cacheLatest parent x) := by
  rcases cacheLatest_cases (s := { s with nextId := s.nextId + 1 }) parent hty (fun a ha he => by
      have := h.shape.below a ha
      omega) with ⟨la, hmem, hrn, he⟩ | ⟨hnone, he⟩
  · rw [he]
    refine h.newId.setObj_cached (fun m hm hid => ?_) hcache
    rw [h.shape.ids.eq hm hmem hid]
    exact (h.shape.named la hmem).mpr hrn
  · rw [he, ← hpid]
    refine graftCin (p := p) (x := { x with uri := parent.uri ++ '/' :: x.rn, rn := "la".toList }) h hp hcin hid hty
      hsubs rfl ?_ hcache rfl rfl rfl
    rw [hpid]
    exact hnone

theorem addCnt_cs {p : Ptr} {cin : Obj} (he : s.addCnt env p cin = some s') : ∃ j, cin.get .cs = some j := by
  unfold Server.addCnt at he
  simp only [Option.bind_eq_bind, Option.bind_eq_some_iff] at he
  obtain ⟨-, -, -, -, c, -, o, ho, -⟩ := he
  unfold bumpCnt at ho
  simp only [Option.bind_eq_bind, Option.bind_eq_some_iff] at ho
  obtain ⟨-, -, -, -, -, -, j, hj, -⟩ := ho
  exact ⟨j, hj⟩

/-- The row of an instance that has been counted in. -/
theorem snoc_cin {pi ri : CStr} {cs : Int} {o : Obj} (h : CntInv (Pending.none.bump pi 1 cs) s) (uri : CStr)
    (hri : o.get .ri = some (.str ri)) (hri0 : ri ≠ []) (hpi : o.get .pi = some (.str pi)) (hpi0 : pi ≠ [])
    (hcs : o.get .cs = some (.int cs)) (h0 : 0 ≤ cs) (hkeys : ∀ k ∈ s.db.keys .cin, k.ri ≠ some ri)
    (hnodes : ∀ n ∈ s.tree.nodes, n.ri ≠ some ri) (hcount : s.db.count .cin pi + 1 ≤ intMax)
    (htotal : s.db.total .cin pi + cs ≤ intMax) (huri : o.get .uri = none) :
    CntInv .none { s with db := s.db ++ [⟨uri, .cin, Assoc.drop (Assoc.overlay column o []) .uri⟩] } ∧
      ∀ k ∈ Db.keys (s.db ++ [⟨uri, .cin, Assoc.drop (Assoc.overlay column o []) .uri⟩]) .cin,
        k.ri = o.str .ri → Caches o k := by
  have ht0 : 0 ≤ s.db.total .cin pi := h.books.total_nonneg pi
  have h1 : cs ≤ intMax := by omega
  set r : Row := ⟨uri, .cin, Assoc.drop (Assoc.overlay column o []) .uri⟩ with hr
  have hrri : r.ri = some ri := Obj.str_of_get (by rw [hr, Db.get_stored o (by decide), hri]; exact column_str hri0)
  have hrpi : r.pi = some pi := Obj.str_of_get (by rw [hr, Db.get_stored o (by decide), hpi]; exact column_str hpi0)
  have hrcs : r.obj.get .cs = some (.int cs) := by
    rw [hr, Db.get_stored o (by decide), hcs]
    exact column_int (by unfold intMin; omega) h1
  have hk : Db.keys (s.db ++ [r]) .cin = s.db.keys .cin ++ [r.key] := Db.keys_snoc rfl
  have hb := h.books.addKey (k := r.key) hrri hri0 hrpi hpi0 hrcs h0 h1 hkeys hnodes hcount htotal
  rw [Pending.bump_bump, show (1 : Int) + -1 = 0 by rfl, Int.add_right_neg, Pending.bump_zero] at hb
  have hinv : CntInv .none { s with db := s.db ++ [r] } := by
    refine ⟨h.shape.congr rfl le_rfl, by rw [hk]; exact hb, ?_⟩
    intro q hq
    rcases List.mem_append.mp hq with hq | hq
    · exact h.rows q hq
    · rw [List.mem_singleton.mp hq]
      exact plain_stored _ _ nofun nofun
  refine ⟨hinv, fun k hkm hkri => ?_⟩
  have hmem : r.key ∈ Db.keys (s.db ++ [r]) .cin := by rw [hk]; simp
  obtain rfl := hinv.keys_eq_of_ri hkm hmem (hkri.trans ((Obj.str_of_get hri).trans hrri.symm))
  refine ⟨hrpi.trans (Obj.str_of_get hpi).symm, hrcs.trans hcs.symm, ?_⟩
  unfold Obj.str
  rw [huri]
  rfl

/-- `create_cin`. -/
theorem createCin (h : CntInv .none s) {pi : CStr} (hp : parent ∈ s.tree.nodes) (hty : parent.ty = .cnt)
    (hpri : parent.ri = some pi) (hplace : ∀ k ∈ placing, req.pc.get k = none) (hcs : req.pc.get .cs = none)
    (hnew : Unused s (resourceIdentifier .cin env.now s.riCount).1)
    (hfresh : FreshCache env s parent) (hclean : CleanRows s.db pi)
    (hmni : limit parent.obj .mni defaultMaxNrInstances ≠ 0) (hcount : s.db.count .cin pi + 1 ≤ intMax)
    (htotal : ∀ con, req.pc.str .con = some con → s.db.total .cin pi + con.length ≤ intMax) {resp : Resp}
    (he : s.createCin env req parent = some (s', resp)) : CntInv .none s' := by
  unfold Server.createCin at he
  simp only [Option.bind_eq_bind] at he
  obtain ⟨⟨cin, n⟩, hgen, he⟩ := Option.bind_eq_some_iff.mp he
  obtain ⟨pi', hpi', hget⟩ := addGeneralAttribute_some hgen
  obtain rfl : pi' = pi := Option.some.inj (hpi'.symm.trans hpri)
  have h₁ : CntInv .none { s with riCount := n } := h.congr rfl rfl rfl
  obtain ⟨st, -, he⟩ := Option.bind_eq_some_iff.mp he
  split at he
  · cases he; exact h₁
  · rename_i o ho
    obtain ⟨hattr, hocs, -⟩ := buildCin_ok ho
    obtain ⟨node, hnode, he⟩ := Option.bind_eq_some_iff.mp he
    obtain ⟨s₁, hadd, he⟩ := Option.bind_eq_some_iff.mp he
    obtain ⟨hid, hnty, -, -, -, hsubs, -, hnattr, hnuri⟩ := createRtnode_some hnode
    have hgiven : ∀ k ∈ placing, k ≠ .uri → node.obj.get k =
        generalAttr env .cin (resourceIdentifier .cin env.now s.riCount).1 pi' k := by
      intro k hk hku
      have h1 : k ∉ rewritten := by
        simp only [placing, List.mem_cons, List.not_mem_nil, or_false] at hk
        rcases hk with rfl | rfl | rfl | rfl <;> first | decide | exact absurd rfl hku
      have h2 : k ∉ [Attr.aa, .cr, .st, .cs, .at] := by
        simp only [placing, List.mem_cons, List.not_mem_nil, or_false] at hk
        rcases hk with rfl | rfl | rfl | rfl <;> decide
      rw [hnattr k h1, hattr k h2, hget, hplace k hk, Option.none_or]
    have huri : node.obj.get .uri = none := by
      rw [hnuri]
      apply Assoc.get_del_none
      exact (hattr .uri (by decide)).trans (by rw [hget, hplace .uri (by decide)]; rfl)
    -- the size is there: counting in reads it
    obtain ⟨j, hj⟩ := addCnt_cs hadd
    have hcon : cin.str .con = req.pc.str .con := Obj.str_congr (by rw [hget]; exact Option.or_none)
    rw [hnattr .cs (by decide), hocs (by rw [hget, hcs]; rfl), hcon] at hj
    obtain ⟨con, hcon', rfl⟩ := Option.map_eq_some_iff.mp hj
    have hncs : node.obj.get .cs = some (.int con.length) := by
      rw [hnattr .cs (by decide), hocs (by rw [hget, hcs]; rfl), hcon, hcon']
      rfl
    have hlen : (0 : Int) ≤ con.length := Int.natCast_nonneg _
    obtain ⟨h₂, hsh, c', hc', hcid, hcty⟩ := h₁.addCnt hp hty hpri hncs hlen hfresh hclean hmni hcount
      (htotal con hcon') hadd
    obtain ⟨hcle, htle⟩ := h₁.count_le h₂.books hsh.keys pi'
    obtain ⟨q, -, hq, hpi0, -⟩ := h₁.counters_of hp hty
    obtain rfl := Option.some.inj (hq.symm.trans hpri)
    have htn := htotal con hcon'
    have hkeys : ∀ k ∈ s₁.db.keys .cin, k.ri ≠ some (resourceIdentifier .cin env.now s.riCount).1 := by
      intro k hk
      obtain ⟨r, hr, -, rfl⟩ := Db.mem_keys.mp (hsh.keys k hk)
      exact (hnew.2 r hr).1
    have hnodes : ∀ m ∈ s₁.tree.nodes, m.ri ≠ some (resourceIdentifier .cin env.now s.riCount).1 := by
      intro m hm
      obtain ⟨m₀, hm₀, -, -, hri, -⟩ := hsh.nodes m hm
      rw [hri]
      exact hnew.1 m₀ hm₀
    dsimp only at hcle htle
    obtain ⟨h₃, hcache⟩ := h₂.snoc_cin (parent.uri ++ '/' :: node.rn) (hgiven .ri (by decide) (by decide))
      (resourceIdentifier_ne_nil _ _ _) (hgiven .pi (by decide) (by decide)) hpi0 hncs hlen hkeys hnodes
      (by omega) (by omega) huri
    rw [(Db.dbStoreResource_code (t := .cin) (by decide) (hgiven .ty (by decide) (by decide))).mpr rfl] at he
    cases he
    exact h₃.cacheLatest hc' hcid (by rw [hcty]; decide) (hid.trans hsh.nextId.symm) hnty hsubs hcache

/-- The body `update_cnt` applies, for the attributes it does not treat itself. -/
theorem updateCnt_body (kept : Json → List Json) (target body : Obj) (st lt : Json) :
    (∀ k ∉ [Attr.aa, .st, .at, .lt], ((processAnncAtUpdate kept target
        ((validateAa .update body .cnt).add .st st)).1.add .lt lt).get k = body.get k) ∧
      (MniNonneg body → MniNonneg ((processAnncAtUpdate kept target
        ((validateAa .update body .cnt).add .st st)).1.add .lt lt)) := by
  constructor
  · intro k hk
    simp only [List.mem_cons, List.not_mem_nil, or_false, not_or] at hk
    refine (Assoc.get_add_ne (Ne.symm hk.2.2.2)).trans ((get_processAnncAtUpdate hk.2.2.1).trans ?_)
    exact (Assoc.get_add_ne (Ne.symm hk.2.1)).trans (get_validateAa hk.1)
  · intro hb e he hek
    rcases Assoc.mem_add he with he | rfl
    · rcases mem_processAnncAtUpdate he with he | he
      · rcases Assoc.mem_add he with he | rfl
        · rcases mem_validateAa he with he | he
          · exact hb e he hek
          · rw [hek] at he; cases he
        · cases hek
      · rw [hek] at he; cases he
    · cases hek

/-- The second half of `update_cnt`: the body is merged, the container cut down to its limits and both
are written. -/
theorem applyBody (h : CntInv .none s) {c : RTNode} {ri ri' : CStr} {body obj : Obj} {db : Db}
    (hc : c ∈ s.tree.nodes) (hty : c.ty = .cnt) (hcri : c.ri = some ri)
    (hbody : ∀ k ∈ [Attr.ri, .pi, .cs, .cni, .cbs], body.get k = none) (hclean : CleanRows s.db ri)
    (hmni : MniNonneg (c.obj.updateResource body))
    (hev : deleteCinUnderCntMniMbs (c.obj.updateResource body) s.db = some (obj, db)) (hri' : obj.str .ri = some ri') :
    CntInv .none { { s with db := db }.setObj c.id obj with db := db.dbUpdateResource body ri' } := by
  obtain ⟨q, hget, hq, hri0, hcni, hcbs, -, hc1, -, ht1⟩ := h.counters_of hc hty
  obtain rfl := Option.some.inj (hq.symm.trans hcri)
  have hsame : ∀ k ∈ [Attr.ri, .pi, .cs, .cni, .cbs], (c.obj.updateResource body).get k = c.obj.get k :=
    fun k hk => Obj.get_updateResource_of_not_has (hbody k hk)
  have hspec : EvictedTo .none s.tree.nodes s.db q 0 0 (s.db.count .cin q + 0) (s.db.total .cin q + 0)
      (c.obj.updateResource body) obj db := by
    refine deleteCinUnderCntMniMbs_spec h.books ?_ ((hsame .ri (by decide)).trans hget) ?_ ?_
      ⟨rfl, rfl, by omega, by omega⟩ (by decide) (by decide) hclean ?_ hev
    · intro k hk
      rw [← hq]
      exact h.books.apart k hk c hc (by rw [hty]; decide)
    · rw [hsame .cni (by decide), hcni, Int.add_zero]
    · rw [hsame .cbs (by decide), hcbs, Int.add_zero]
    · intro hm
      have := hmni.limit
      omega
  have hset := h.setObj_evicted hc hty hget hri0 ?_ hspec
  · rw [Pending.bump_zero] at hset
    exact (hset.updateRow (n := { c with obj := obj }) (Server.mem_setObj (s := { s with db := db }) hc obj)
      (by rw [hty]; decide) hri' body).inv
  · intro k hk
    apply hsame
    simp only [List.mem_cons, List.not_mem_nil, or_false] at hk
    rcases hk with rfl | rfl | rfl <;> decide

/-- `update_cnt`. -/
theorem updateCnt (h : CntInv .none s) {c : RTNode} {ri : CStr} {kept : Json → List Json} (hc : c ∈ s.tree.nodes)
    (hty : c.ty = .cnt) (hcri : c.ri = some ri) (hbody : ∀ k ∈ [Attr.cni, .cbs, .cs], req.pc.get k = none)
    (hclean : CleanRows s.db ri) (hmni : MniNonneg c.obj) (hmni' : MniNonneg req.pc)
    (hacpi : s.AcpiSettled env.now (req.pc.get .acpi)) {resp : Resp} (he : s.updateCnt env kept req c = some (s', resp)) : CntInv .none s' := by
  unfold Server.updateCnt at he
  split at he
  · cases he; exact h
  · rename_i hkeys
    split at he
    · cases he
      rw [Server.afterChecks_settled hacpi]
      exact h
    · simp only [Option.bind_eq_bind, Option.bind_eq_some_iff, Option.pure_def, Option.some.injEq] at he
      obtain ⟨st, -, ri₁, hri₁, ⟨obj, db⟩, hev, ri₂, hri₂, he⟩ := he
      obtain rfl := Option.some.inj (hri₁.symm.trans hcri)
      cases he
      obtain ⟨hattr, hnn⟩ := updateCnt_body kept c.obj req.pc (.int (cInt (st.valueint + 1))) (.str env.now)
      -- the row loses its `at` first, when nothing is announced any more
      have hdb : ∀ b : Bool, KeepsBooks .none s
          { s with db := if b = true then s.db.dbUpdateResource [(.at, .null)] ri₁ else s.db } := by
        intro b
        split
        · exact h.updateRow hc (by rw [hty]; decide) hcri _
        · exact ⟨h, rfl⟩
      refine applyBody (hdb _).inv hc hty hcri ?_ (hclean.mono fun k hk => (hdb _).keys ▸ hk)
        (hmni.updateResource (hnn hmni')) hev hri₂
      intro k hk
      simp only [cntInvalidKeys, List.any_cons, Bool.or_eq_true, not_or, Assoc.has] at hkeys
      simp only [List.mem_cons, List.not_mem_nil, or_false] at hk
      rcases hk with rfl | rfl | rfl | rfl | rfl
      · exact (hattr .ri (by decide)).trans (by simpa using hkeys.2.2.1)
      · exact (hattr .pi (by decide)).trans (by simpa using hkeys.2.1)
      · exact (hattr .cs (by decide)).trans (hbody .cs (by decide))
      · exact (hattr .cni (by decide)).trans (hbody .cni (by decide))
      · exact (hattr .cbs (by decide)).trans (hbody .cbs (by decide))

end CntInv

/-- `increment_parent_statetag`. -/
theorem CntInv.incrementParentStatetag {d : Pending} {s : Server} (h : CntInv d s) (now : CStr) (i : Nat) :
    CntInv d (s.incrementParentStatetag now (.inTree i)) := by
  unfold Server.incrementParentStatetag
  split
  · exact h
  · rename_i n hn
    obtain ⟨hmem, rfl⟩ := Server.node?_mem hn
    split
    · exact h
    · rename_i hty
      rw [not_not] at hty
      split
      · rename_i st _
        split
        · dsimp only
          have hne : ∀ k, k ∈ counted → Attr.st ≠ k := by
            rintro k hk rfl
            revert hk
            decide
          have hset : CntInv d (s.setObj n.id (n.obj.set .st (.int (cInt (st.valueint + 1))))) :=
            h.setObj_same hmem fun k hk => Assoc.get_set_ne (hne k hk)
          split
          · exact hset
          · rename_i ri hri
            refine (hset.updateRow (n := { n with obj := n.obj.set .st (.int (cInt (st.valueint + 1))) })
              (Server.mem_setObj hmem _) (by rw [hty]; decide) ?_ _).inv
            exact (Obj.str_congr (Assoc.get_set_ne (by decide))).trans hri
        · exact h
      · exact h

/-! ## Deletion of an instance -/

namespace Shape

variable {s : Server} {p : Ptr} {n : RTNode}

/-- Without subscriptions a deletion notifies nobody. -/
theorem notifyDelete (h : Shape s) (now : CStr) (req : Req) {db : Db} (hok : (p.parent s).Ok db) :
    s.notifyDelete now req p n = s := by
  unfold Server.notifyDelete
  split
  · rfl
  · split
    · rfl
    · rename_i parent hp
      have hsubs : parent.subs = [] := by
        cases hq : p.parent s with
        | null => rw [hq] at hp; cases hp
        | inTree i =>
          rw [hq] at hp
          exact h.quiet parent (Server.node?_mem hp).1
        | loose m q =>
          rw [hq] at hp hok
          cases hp
          obtain ⟨⟨r, -, -, -, hs, -⟩, -⟩ := hok
          exact hs
      rw [hsubs]
      split <;> rfl

/-- An instance is visited alone. -/
theorem deleteOrder_cin (h : Shape s) (hp : p.deref s = some n) (hn : n.ty = .cin) : s.deleteOrder p = [p] := by
  cases p with
  | null => rfl
  | loose m q => rfl
  | inTree i =>
    obtain ⟨hmem, rfl⟩ := Server.node?_mem hp
    obtain ⟨c, hc⟩ := Forest.mem_nodes_iff.mp hmem
    have := h.leaf n c hc hn
    subst this
    unfold Server.deleteOrder
    dsimp only
    rw [Server.children_eq h.ids hc]
    rfl

end Shape

namespace CntInv

variable {s s' : Server} {now : CStr} {req : Req} {d : Pending} {p : Ptr} {n c : RTNode}

/-- What a node says about the size of the instance it stands for. -/
theorem size_of_ptr (h : CntInv d s) (hp : p.deref s = some n) (hok : p.Ok s.db) (hn : n.ty = .cin) {r : Row}
    (hr : r ∈ s.db) (ht : r.ty = .cin) (hri : r.ri = n.ri) : n.obj.get .cs = r.obj.get .cs := by
  cases p with
  | null => cases hp
  | inTree i =>
    obtain ⟨hmem, -⟩ := Server.node?_mem hp
    exact (h.books.cached n hmem hn _ (Db.key_mem hr ht) hri).2.1.symm
  | loose m q =>
    cases hp
    obtain ⟨⟨r₀, hr₀, ht₀, -, -, hattr, -⟩, -⟩ := hok
    have hri₀ : r₀.ri = n.ri := Obj.str_congr (hattr .ri (by decide)).symm
    have hkey := h.keys_eq_of_ri (Db.key_mem hr ht) (Db.key_mem hr₀ (ht₀.trans hn)) (hri.trans hri₀.symm)
    have hcs : r.obj.get .cs = r₀.obj.get .cs := congrArg Key.cs hkey
    rw [hcs]
    exact hattr .cs (by decide)

/-- The end of `delete_onem2m_resource` for an instance. -/
theorem freeCin (h : CntInv .none s) (hcin : ∀ i, p = .inTree i → ∀ m ∈ s.tree.nodes, m.id = i → m.ty = .cin) :
    CntInv .none (s.freeCin p n) := by
  unfold Server.freeCin
  split
  · split
    · rename_i i cnt _
      split
      · exact h.freeRtnode i
      · rename_i o ho
        refine h.setObj_cached (hcin i rfl) ?_
        -- the latest instance left is one of the rows
        obtain ⟨r, hr, ht, rfl⟩ := Server.laol_row ho
        intro k hk hri
        have hri' : k.ri = r.key.ri := hri.trans (Obj.str_congr (get_load (by decide)))
        obtain rfl := h.keys_eq_of_ri hk (Db.key_mem hr ht) hri'
        exact ⟨Obj.str_congr (get_load (by decide)).symm, (get_load (by decide)).symm, rfl⟩
    · exact h.freePtr _
  · exact h.freePtr _

/-- The deletion of a content instance that is stored under its container. -/
theorem deleteCin (h : CntInv .none s) (hp : p.deref s = some n) (hok : p.Ok s.db) (hn : n.ty = .cin)
    (hpar : p.parent s = .inTree c.id) (hc : c ∈ s.tree.nodes) (hty : c.ty = .cnt) (hst : StoredIn s.db n c.ri)
    (hmember : n.memberOf = []) {resp : Resp} (he : s.deleteOnem2mResource now req p = some (s', resp)) : CntInv .none s' := by
  obtain ⟨⟨r, hr, ht, hri, hpi⟩, hhits⟩ := hst
  obtain ⟨-, -, cs, -, -, -, -, hcs, h0, h1⟩ := h.books.proper _ (Db.key_mem hr ht)
  have hncs : n.obj.get .cs = some (.int cs) := (h.size_of_ptr hp hok hn hr ht hri).trans hcs
  unfold Server.deleteOnem2mResource Server.deleteProcess at he
  rw [hp, h.shape.deleteOrder_cin hp hn] at he
  dsimp only at he
  rw [if_neg (by rw [hn]; decide)] at he
  simp only [List.foldlM_cons, List.foldlM_nil, Option.bind_eq_bind, Option.bind_eq_some_iff, Option.pure_def,
    Option.some.injEq] at he
  obtain ⟨s₃, ⟨_, hone, rfl⟩, he⟩ := he
  -- counting out; no groups, no subscriptions
  unfold Server.deleteOne Server.deleteSwitch at hone
  simp only [hp, hn, hpar, Option.bind_eq_bind, Option.bind_eq_some_iff] at hone
  obtain ⟨s₁, hdrop, hone⟩ := hone
  obtain ⟨ri, hcri, hk, hsh⟩ := h.dropCnt hc hty hncs h0 h1 hdrop
  rw [Server.leaveGroups_nil s₁ hmember] at hone
  have hok' : (p.parent s₁).Ok s.db := by
    refine Ptr.parent_ok ?_
    rintro m q rfl
    have hq : q = .inTree c.id := hpar
    rw [hq]
    trivial
  rw [hk.inv.shape.notifyDelete now req hok'] at hone
  cases hone
  cases he
  -- the row goes, and then the node
  have hkeys := hk.keys
  obtain ⟨r', hr', ht', hkey⟩ := Db.mem_keys.mp (hkeys.symm ▸ Db.key_mem hr ht)
  obtain ⟨h₃, hsh₃⟩ := hk.inv.removeRow hr' ht' ((congrArg Key.ri hkey).trans hri)
    ((congrArg Key.pi hkey).trans (hpi.trans hcri)) ((congrArg Key.cs hkey).trans hcs) h0 h1
    (hitsOnly_congr hhits hkeys)
  simp only [hn]
  refine h₃.freeCin ?_
  rintro i rfl m hm hid
  obtain ⟨m₀, hm₀, hid₀, hty₀, -⟩ := (hsh.trans hsh₃).nodes m hm
  obtain ⟨hnm, hni⟩ := Server.node?_mem hp
  rw [hty₀, h.shape.ids.eq hm₀ hnm (hid₀.symm.trans (hid.trans hni.symm)), hn]

end CntInv

end TinyIoT
