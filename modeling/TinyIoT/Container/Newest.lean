/-
Runs of requests on containers and their instances: the child `la` of a container against the newest stored instance,
in every state such a run reaches.
-/
import TinyIoT.Container.Cached

namespace TinyIoT

/-! ## The handlers -/

section

variable {s s' : Server} {env : Env} {req : Req} {resp : Resp} {c n : RTNode} {cin : Obj}

/-- `update_cnt_cin` with sign 1. -/
theorem Works.addCnt (h : Recent (some c.id) s) (hc : c ∈ s.tree.nodes) (hty : c.ty = .cnt)
    (hkids : ∀ n ∈ (s.children c.id).roots, n.ty = .cin → ∀ r, s.Head (some c.id) r → n.hits r = false)
    (hrows : ∀ x ∈ s.storedCins c, ∀ r, s.Head (some c.id) r → x.hits r = false)
    (he : s.addCnt env (.inTree c.id) cin = some s') :
    Works (some c.id) s s' ∧ ∃ c' ∈ s'.tree.nodes, c'.id = c.id ∧ c'.ty = .cnt ∧ c'.ri = c.ri := by
  unfold Server.addCnt at he
  simp only [Option.bind_eq_bind, Option.bind_eq_some_iff, Option.pure_def, Option.some.injEq] at he
  obtain ⟨c₀, hd, s₁, h₁, c₁, hd₁, o, ho, ⟨o', db⟩, hev, rfl⟩ := he
  have hnode : (Ptr.inTree c.id).deref s = some c := Server.node?_eq h.shape.ids hc
  obtain rfl : c₀ = c := Option.some.inj (hd.symm.trans hnode)
  have hw₁ := Works.expireByMia h hc hty hkids h₁
  obtain ⟨hc₁, hid₁⟩ := Server.node?_mem hd₁
  obtain ⟨m, hm, hidm, htym, hrim⟩ := hw₁.nodes c₁ hc₁
  obtain rfl := h.shape.ids.eq hm hc (hidm.trans hid₁)
  have hty₁ : c₁.ty = .cnt := htym.symm.trans hty
  obtain ⟨ri, hget, -⟩ := hw₁.recent.keyed c₁ hc₁ hty₁
  -- the instances that are left were there before
  have hhits : ∀ x ∈ (s₁.db.instances .cin ri).take (s₁.db.instances .cin ri).length, ∀ r,
      s₁.Head (some m.id) r → x.hits r = false := by
    intro x hx r hr
    obtain ⟨hx, hxty, hxpi⟩ := Db.mem_instances.mp (List.mem_of_mem_take hx)
    refine hrows x ?_ r (hw₁.heads r hr)
    rw [storedCins_eq, List.mem_filter, decide_eq_true_eq, hrim]
    exact ⟨hw₁.rows.subset (mem_cins.mpr ⟨hx, hxty⟩), hxpi.trans (Obj.str_of_get hget).symm⟩
  obtain ⟨hri', hw₂⟩ := Works.evict hw₁.recent hc₁ hty₁ hget (get_ri_bumpCnt ho) rfl (.inl le_rfl) hhits hev
  have hc₂ : c₁ ∈ Forest.nodes (Server.tree { s₁ with db := db }) := hc₁
  have hw₃ := Works.persist hw₂.recent hc₂ (by rw [hty₁]; decide) hri'
  rw [hid₁] at hw₃
  refine ⟨hw₁.trans (hw₂.trans hw₃), { c₁ with obj := o' }, ?_, hid₁, hty₁, ?_⟩
  · rw [Server.persist_tree, ← hid₁]
    exact Server.mem_setObj (s := { s₁ with db := db }) hc₁ o'
  · have hstr : o'.str .ri = c₁.obj.str .ri := Obj.str_congr hri'
    exact hstr.trans hrim.symm

/-- The container at work has its instance again. -/
theorem Recent.settle (h : Recent (some c.id) s) (hc : c ∈ s.tree.nodes)
    (hrel : Option.Rel Shows (s.latestChild c) (s.newest c)) : Recent none s := by
  refine h.all fun d hd _ hid => ?_
  rw [h.shape.ids.eq hd hc hid]
  exact hrel

theorem column_column (j : Json) : (column j).bind column = column j := by
  cases j with
  | null => rfl
  | bool b => cases b <;> rfl
  | num v => exact column_int (Json.valueint_ge _) (Json.valueint_le _)
  | str x => cases x <;> rfl
  | arr l => rfl
  | obj o => rfl

/-- The text of `lt` in the row of the instance a body describes. -/
def newLt (env : Env) (pc : Obj) : Option CStr :=
  (((pc.get .lt).or (some (.str env.now))).bind column).bind Json.valuestring

/-- A stored instance is earlier than the instance a body describes. -/
def Earlier (env : Env) (pc : Obj) (q : Row) : Prop := ∃ a ∈ newLt env pc, ∃ b ∈ q.obj.str .lt, strLt b a = true

instance (env : Env) (pc : Obj) (q : Row) : Decidable (Earlier env pc q) :=
  inferInstanceAs (Decidable (∃ a ∈ newLt env pc, ∃ b ∈ q.obj.str .lt, _))

theorem Earlier.row {q r : Row} (h : Earlier env req.pc q) (hr : r.obj.str .lt = newLt env req.pc) :
    rowLt .lt r q = false := by
  obtain ⟨a, ha, b, hb, hlt⟩ := h
  unfold rowLt
  rw [hr, Option.mem_def.mp ha, Option.mem_def.mp hb]
  exact strLt_asymm hlt

/-- The row of an instance stands behind the node that is made for it. -/
theorem shows_row {uri : CStr} {m : RTNode} {o : Obj} {ri : CStr} (ho : m.obj = o) (hri : o.get .ri = some (.str ri)) (hne : ri ≠ []) :
    Shows m ⟨uri, .cin, Assoc.drop (Assoc.overlay column o []) .uri⟩ := by
  have hrow : Obj.get (Assoc.drop (Assoc.overlay column o []) .uri) .ri = some (.str ri) := by
    rw [Db.get_stored o (by decide), hri]
    exact column_str hne
  refine ⟨?_, fun k hk => ?_⟩
  · have h1 : m.ri = some ri := Obj.str_of_get (ho ▸ hri)
    exact h1.trans (Obj.str_of_get hrow).symm
  · rw [ho]
    refine Db.get_stored o ?_
    rintro rfl
    exact hk (by decide)

/-- `create_cin`. -/
theorem Recent.createCin (h : Recent none s) (hc : c ∈ s.tree.nodes) (hty : c.ty = .cnt) (hplace : Placed env s req .cin)
    (hcni : req.pc.get .cni = none) (hrn : req.pc.str .rn ≠ some []) (hlater : ∀ q ∈ s.storedCins c, Earlier env req.pc q)
    (hkids : ∀ n ∈ (s.children c.id).roots, n.ty = .cin → ∀ r, s.Head (some c.id) r → n.hits r = false)
    (hrows : ∀ x ∈ s.storedCins c, ∀ r, s.Head (some c.id) r → x.hits r = false)
    (he : s.createCin env req c = some (s', resp)) : Recent none s' := by
  unfold Server.createCin at he
  simp only [Option.bind_eq_bind] at he
  obtain ⟨⟨cin, k⟩, hgen, he⟩ := Option.bind_eq_some_iff.mp he
  obtain ⟨pi, hpi, hget⟩ := addGeneralAttribute_some hgen
  have hcount : Works none s { s with riCount := k } := Works.stay h rfl rfl rfl
  obtain ⟨st, -, he⟩ := Option.bind_eq_some_iff.mp he
  split at he
  · cases he
    exact hcount.recent
  · rename_i o ho
    obtain ⟨hattr, -⟩ := buildCin_ok ho
    obtain ⟨node, hnode, he⟩ := Option.bind_eq_some_iff.mp he
    obtain ⟨s₁, hadd, he⟩ := Option.bind_eq_some_iff.mp he
    obtain ⟨hid, hnty, hnrn, -, -, hsubs, -, hnattr, -⟩ := createRtnode_some hnode
    have hgiven : ∀ k ∉ [Attr.aa, .cr, .st, .cs, .at], k ∉ rewritten → node.obj.get k =
        (req.pc.get k).or (generalAttr env .cin (resourceIdentifier .cin env.now s.riCount).1 pi k) :=
      fun k h1 h2 => (hnattr k h2).trans ((hattr k h1).trans (hget k))
    have hri : node.obj.get .ri = some (.str (resourceIdentifier .cin env.now s.riCount).1) := by
      rw [hgiven .ri (by decide) (by decide), hplace.get (by decide)]
      rfl
    have htyp : node.obj.get .ty = some (.int ResourceType.cin.code) := by
      rw [hgiven .ty (by decide) (by decide), hplace.get (by decide)]
      rfl
    have hnpi : node.obj.get .pi = some (.str pi) := by
      rw [hgiven .pi (by decide) (by decide), hplace.get (by decide)]
      rfl
    have hnone : node.obj.get .cni = none := by
      rw [hgiven .cni (by decide) (by decide), hcni]
      rfl
    have hnamed : node.obj.get .rn = (req.pc.get .rn).or (some (.str (resourceIdentifier .cin env.now s.riCount).1)) :=
      hgiven .rn (by decide) (by decide)
    have hstr : node.obj.str .rn = some node.rn := (Obj.str_congr (hnattr .rn (by decide))).trans hnrn
    have hne := resourceIdentifier_ne_nil .cin env.now s.riCount
    obtain ⟨hfresh, hunused⟩ := hplace.2
    generalize (resourceIdentifier .cin env.now s.riCount).1 = ri at hgiven hri hnamed hne hfresh hunused
    obtain ⟨hw, c', hc', hcid, hcty, hcri⟩ := Works.addCnt (hcount.recent.but (some c.id)) hc hty hkids hrows hadd
    rw [(Db.dbStoreResource_code (t := .cin) (by decide) htyp).mpr rfl] at he
    cases he
    rw [← hcid] at hw
    generalize hr : (⟨c.uri ++ '/' :: node.rn, .cin, Assoc.drop (Assoc.overlay column node.obj []) .uri⟩ : Row) = r
    have hrow : ∀ k, k ≠ .uri → r.obj.get k = (node.obj.get k).bind column := fun k hk => by
      rw [← hr]
      exact Db.get_stored node.obj hk
    have hrri : r.ri = some ri := Obj.str_of_get (by rw [hrow .ri (by decide), hri]; exact column_str hne)
    have hrpi : r.pi = c'.ri := by
      obtain ⟨q, hq, hq0⟩ := h.keyed c hc hty
      obtain rfl : q = pi := Option.some.inj ((Obj.str_of_get hq).symm.trans hpi)
      rw [hcri]
      exact Eq.trans (Obj.str_of_get (by rw [hrow .pi (by decide), hnpi]; exact column_str hq0)) hpi.symm
    have hrty : r.ty = .cin := by rw [← hr]
    have hinst : r.Instance := by
      refine ⟨by rw [hrri]; nofun, ?_, ?_, fun k => ?_⟩
      · -- the name is the given one, or the identifier
        have hrn0 : node.rn ≠ [] := by
          intro hnil
          rw [hnil] at hstr
          have hg := Obj.get_of_str hstr
          rw [hnamed] at hg
          cases hp : req.pc.get .rn with
          | none =>
            rw [hp, Option.none_or] at hg
            cases hg
            exact hne rfl
          | some j =>
            rw [hp, Option.some_or] at hg
            exact hrn (Obj.str_of_get (hp.trans hg))
        have hrrn : r.obj.get .rn = some (.str node.rn) := by
          rw [hrow .rn (by decide), Obj.get_of_str hstr]
          exact column_str hrn0
        rw [Obj.str_of_get hrrn]
        nofun
      · rw [hrow .cni (by decide), hnone]
        rfl
      · by_cases hk : k = .uri
        · have : r.obj.get k = none := by
            rw [← hr, hk]
            show Assoc.get (Assoc.drop _ _) _ = none
            rw [Assoc.get_drop, if_pos rfl]
          rw [this]
          rfl
        · rw [hrow k hk]
          cases node.obj.get k with
          | none => rfl
          | some j => exact column_column j
    have hlast : ∀ q ∈ s₁.storedCins c', q.Before r := by
      intro q hq
      have hqs : q ∈ s.storedCins c := by
        rw [storedCins_eq, List.mem_filter, hcri] at hq
        rw [storedCins_eq, List.mem_filter]
        exact ⟨hw.rows.subset hq.1, hq.2⟩
      refine ⟨(hlater q hqs).row ?_, ?_⟩
      · unfold Obj.str newLt
        rw [hrow .lt (by decide), hgiven .lt (by decide) (by decide)]
        rfl
      · rw [hrri]
        have hqdb : q ∈ s.db := List.mem_of_mem_filter hqs
        exact (hunused q hqdb).1.symm
    have hsnoc : ∀ m, s₁.nextId ≤ m → Recent (some c'.id) { s₁ with db := s₁.db ++ [r], nextId := m } := fun m hm =>
      hw.recent.snoc hc' hcty hrty hrpi hinst (fun n hn => by
        obtain ⟨n₀, hn₀, -, -, hnri⟩ := hw.nodes n hn
        rw [hrri, ← hnri]
        exact hfresh n₀ hn₀) hlast rfl rfl hm
    have hnewest : ∀ s₂ : Server, s₂.db = s₁.db ++ [r] → s₂.newest c' = some r := by
      intro s₂ hdb
      have hcins : s₂.cins = s₁.cins ++ [r] := by
        unfold Server.cins
        rw [hdb, List.filter_append, List.filter_cons_of_pos (by simpa using hrty)]
        rfl
      unfold Server.newest
      rw [storedCins_eq, hcins, List.filter_append, List.filter_cons_of_pos (by simpa using hrpi), List.filter_nil,
        List.getLast?_concat]
    have hshow : ∀ m : RTNode, m.obj = node.obj → Shows m r := fun m hm => hr ▸ shows_row hm hri hne
    have hidle : node.id = s₁.nextId := hid.trans hw.nextId.symm
    cases hla : (s₁.children c.id).roots.find? (fun m => m.rn = "la".toList) with
    | some la =>
      have hs' : Server.cacheLatest { s₁ with db := s₁.db ++ [r], nextId := s₁.nextId + 1 } c node =
          Server.setObj { s₁ with db := s₁.db ++ [r], nextId := s₁.nextId + 1 } la.id node.obj := by
        unfold Server.cacheLatest
        rw [show Server.children { s₁ with db := s₁.db ++ [r], nextId := s₁.nextId + 1 } c.id = s₁.children c.id by rfl, hla]
      rw [hs']
      have h₂ := hsnoc (s₁.nextId + 1) (Nat.le_succ _)
      have hl : Server.latestChild { s₁ with db := s₁.db ++ [r], nextId := s₁.nextId + 1 } c' = some la := by
        unfold Server.latestChild
        rw [hcid]
        exact hla
      obtain ⟨hmem, hlaty, hroot⟩ := latestChild_mem h₂.shape hl
      refine (h₂.recache hc' hroot hlaty hnone).settle ?_ ?_
      · rw [Server.setObj, Server.nodes_modifyNode]
        refine List.mem_map.mpr ⟨c', hc', if_neg fun hid => ?_⟩
        rw [h₂.shape.ids.eq hc' hmem hid, hlaty] at hcty
        cases hcty
      · rw [latestChild_setObj, hl, hnewest _ rfl, Option.map_some, if_pos rfl]
        exact .some (hshow _ rfl)
    | none =>
      have h₂ := hsnoc s₁.nextId le_rfl
      have hbelow : ∀ a ∈ s₁.tree.nodes, a.id ≠ node.id := fun a ha => by
        rw [hidle]
        exact Nat.ne_of_lt (h₂.shape.below a ha)
      have hnola : ∀ m ∈ (s₁.children c'.id).roots, m.rn ≠ "la".toList := fun m hm hrn => by
        rw [hcid] at hm
        exact List.find?_eq_none.mp hla m hm (decide_eq_true hrn)
      have hgraft : ∀ (x : RTNode) (s₂ : Server), x.id = s₁.nextId → x.ty = .cin → x.subs = [] → x.rn = "la".toList →
          x.obj = node.obj → s₂.tree = s₁.tree.graft (RTNode.hasId c.id) (insertChild x) → s₂.db = s₁.db ++ [r] →
          s₂.nextId = s₁.nextId + 1 → Recent none s₂ := by
        intro x s₂ hxid hxty hxsubs hxrn hxobj ht hdb hnext
        rw [← hcid] at ht
        obtain ⟨h₃, hc₃, hl⟩ := h₂.graftLa hc' hcty hxid hxty hxsubs hxrn (hxobj ▸ hnone) hnola ht hdb hnext
        refine h₃.settle hc₃ ?_
        rw [hl, hnewest s₂ hdb]
        exact .some (hshow x hxobj)
      rw [cacheLatest_new (s := { s₁ with db := s₁.db ++ [r], nextId := s₁.nextId + 1 }) hnty hbelow hla]
      exact hgraft { node with uri := c.uri ++ '/' :: node.rn, rn := "la".toList } _ hidle hnty hsubs rfl rfl rfl rfl rfl

/-- `create_cnt`. -/
theorem Recent.createCnt (h : Recent none s) (hp : c ∈ s.tree.nodes) (hcin : c.ty ≠ .cin) (hplace : Placed env s req .cnt)
    (hacpi : s.AcpiSettled env.now (req.pc.get .acpi)) (he : s.createCnt env req c = some (s', resp)) : Recent none s' := by
  unfold Server.createCnt at he
  simp only [Option.bind_eq_bind] at he
  obtain ⟨⟨cnt, k⟩, hgen, he⟩ := Option.bind_eq_some_iff.mp he
  obtain ⟨pi, -, hget⟩ := addGeneralAttribute_some hgen
  have hcount : Works none s { s with riCount := k } := Works.stay h rfl rfl rfl
  dsimp only at he
  split at he
  · cases he
    rw [Server.afterChecks_settled]
    · exact hcount.recent
    · rw [show cnt.get .acpi = req.pc.get .acpi by rw [hget]; exact Option.or_none]
      exact hacpi
  · rename_i o ho
    obtain ⟨hattr, -, -, hrn⟩ := buildCnt_ok ho
    have hri : o.get .ri = some (.str (resourceIdentifier .cnt env.now s.riCount).1) := by
      rw [hattr .ri (by decide), hget, hplace.get (by decide)]
      rfl
    have hty : o.get .ty = some (.int ResourceType.cnt.code) := by
      rw [hattr .ty (by decide), hget, hplace.get (by decide)]
      rfl
    obtain ⟨x, hx, rfl⟩ := storeResource_node (by decide) (by decide) (by decide) hty he
    obtain ⟨hid, hxty, hxrn, -, -, hsubs, -, hxattr, -⟩ := createRtnode_some hx
    have hla : x.rn ≠ "la".toList := by
      intro hla
      rw [← Obj.str_congr (hattr .rn (by decide)), hxrn, hla] at hrn
      cases hrn.symm.trans CntInv.reserved_la
    refine hcount.recent.graftCnt (x := { x with uri := c.uri ++ '/' :: x.rn }) hp hcin hid hxty hsubs hla
      ((hxattr .ri (by decide)).trans hri) (resourceIdentifier_ne_nil _ _ _) hplace.2 rfl ?_ rfl
    unfold Server.cins
    rw [List.filter_append, List.filter_cons_of_neg (by simp), List.filter_nil, List.append_nil]

/-- `increment_parent_statetag` writes to no instance. -/
theorem Recent.incrementParentStatetag (h : Recent none s) (now : CStr) (i : Nat) :
    Recent none (s.incrementParentStatetag now (.inTree i)) := by
  unfold Server.incrementParentStatetag
  cases hd : (Ptr.inTree i).deref s with
  | none => exact h
  | some c =>
    obtain ⟨hp, rfl⟩ := Server.node?_mem hd
    dsimp only
    split
    · exact h
    · rename_i hty
      rw [not_not] at hty
      have hcin : c.ty ≠ .cin := by rw [hty]; decide
      have hw : ∀ (v : Json) (s₁ : Server), s₁.tree = (s.setObj c.id (c.obj.set .st v)).tree → s₁.cins = s.cins →
          s₁.nextId = s.nextId → Recent none s₁ := fun v s₁ ht hcins hid =>
        (Works.write (o := c.obj.set .st v) h hp hcin (Assoc.get_set_ne (by decide)) ht hcins hid).recent
      split
      · split
        · split
          · exact hw _ _ rfl rfl rfl
          · rename_i ri hri
            exact hw _ _ rfl (cins_dbUpdate (h.foreign hp hcin hri)) rfl
        · exact h
      · exact h

/-! ## Update -/

/-- The update leaves every container its newest instance: the limits are met once the oldest instances are gone, up to
some number, and none of their DELETE statements meets a newest one. -/
def SparesNewest (s : Server) (c : RTNode) (body : Obj) : Prop :=
  ∃ j ∈ List.range ((s.storedCins c).length + 1), ((s.storedCins c).length ≤ j ∨
    ∀ cni ∈ (c.obj.updateResource body).get .cni, ∀ cbs ∈ (c.obj.updateResource body).get .cbs,
      Relieved (newLimit c.obj body .mni defaultMaxNrInstances) (newLimit c.obj body .mbs defaultMaxByteSize) cni.valueint
        cbs.valueint j (s.storedCins c)) ∧
    ∀ x ∈ (s.storedCins c).take j, ∀ d ∈ s.tree.nodes, d.ty = .cnt → ∀ r ∈ s.newest d, x.hits r = false

instance (s : Server) (c : RTNode) (body : Obj) : Decidable (SparesNewest s c body) :=
  inferInstanceAs (Decidable (∃ j ∈ List.range _, (_ ∨ ∀ cni ∈ Obj.get _ _, ∀ cbs ∈ Obj.get _ _, _) ∧
    ∀ x ∈ (s.storedCins c).take j, ∀ d ∈ s.tree.nodes, _ → ∀ r ∈ s.newest d, _))

/-- `update_cnt`. -/
theorem Recent.updateCnt {kept : Json → List Json} (h : Recent none s) (hc : c ∈ s.tree.nodes) (hty : c.ty = .cnt)
    (hnew : SparesNewest s c req.pc) (hacpi : s.AcpiSettled env.now (req.pc.get .acpi))
    (he : s.updateCnt env kept req c = some (s', resp)) : Recent none s' := by
  obtain ⟨ri, hget, hri0⟩ := h.keyed c hc hty
  have hcin : c.ty ≠ .cin := by rw [hty]; decide
  have hforeign := h.foreign hc hcin (Obj.str_of_get hget)
  rcases updateCnt_steps hget he with ⟨-, -, hsame⟩ | ⟨body, db₀, obj, db, hent, hkey, hclear, hev, ri₁, hri₁, rfl⟩
  · rw [hsame hacpi]
    exact h
  have hout : ∀ k ∈ [Attr.ri, .cni, .cbs, .mni, .mbs], k ∉ [Attr.aa, .st, .at, .lt] := by decide
  have hsame : ∀ k ∈ [Attr.ri, .cni, .cbs, .mni, .mbs],
      (c.obj.updateResource body).get k = (c.obj.updateResource req.pc).get k := fun k hk =>
    Obj.get_updateResource_congr (hent k (hout k hk))
  have hori : (c.obj.updateResource body).get .ri = c.obj.get .ri :=
    (hsame .ri (by decide)).trans (Obj.get_updateResource_of_not_has hkey)
  -- clearing `at` writes to the row of the container
  have hw₀ : Works none s { s with db := db₀ } := by
    rcases hclear with rfl | rfl
    · exact Works.refl h
    · exact Works.stay h rfl (cins_dbUpdate hforeign) rfl
  obtain ⟨j, -, hstop, hhits⟩ := hnew
  have hl : db₀.instances .cin ri = s.storedCins c := by
    have hcins : Server.cins { s with db := db₀ } = s.cins := by
      rcases hclear with rfl | rfl
      · rfl
      · exact cins_dbUpdate hforeign
    have hstored : Server.storedCins { s with db := db₀ } c = s.storedCins c := by
      rw [storedCins_eq, storedCins_eq, hcins]
    have hcri : c.ri = some ri := Obj.str_of_get hget
    rw [← hstored]
    unfold Server.storedCins
    rw [hcri]
    rfl
  have hc₀ : c ∈ Forest.nodes (Server.tree { s with db := db₀ }) := hc
  obtain ⟨hri', hw₁⟩ := Works.evict (o := c.obj.updateResource body) hw₀.recent hc₀ hty hget hori hl (hstop.imp id fun hmet => by
      rw [hsame .cni (by decide), hsame .cbs (by decide), limit_congr (hsame .mni (by decide)), limit_congr (hsame .mbs (by decide))]
      exact hmet)
    (fun x hx r hr => by
      obtain ⟨d, hd, hdty, -, hrd⟩ := hw₀.heads r hr
      exact hhits x hx d hd hdty r hrd) hev
  have hc₁ : c ∈ Forest.nodes (Server.tree { s with db := db }) := hc
  have hw₂ : Works none { s with db := db } (Server.setObj { s with db := db } c.id obj) :=
    Works.write hw₁.recent hc₁ hcin hri' rfl rfl rfl
  obtain rfl : ri₁ = ri := Option.some.inj (hri₁.symm.trans (Obj.str_of_get (hri'.trans hget)))
  have hcins := cins_dbUpdate (o := body) (hw₁.recent.foreign hc₁ hcin (Obj.str_of_get hget))
  have hw₃ : Works none _ { Server.setObj { s with db := db } c.id obj with db := db.dbUpdateResource body ri₁ } :=
    Works.stay hw₂.recent rfl hcins rfl
  exact hw₃.recent

/-! ## Deletion -/

/-- The end of `delete_onem2m_resource` for a cached instance: its node takes the newest instance left, or goes. -/
theorem Recent.freeCached (h : Recent (some c.id) s) (hc : c ∈ s.tree.nodes) (hty : c.ty = .cnt)
    (hn : n ∈ (s.children c.id).roots) (hnty : n.ty = .cin) : Recent none (s.freeCin (.inTree n.id) n) := by
  obtain ⟨k, hk⟩ := Forest.mem_nodes_iff.mp hc
  have hkids := Server.children_eq h.shape.ids hk
  have hmem := Server.mem_of_mem_children hn
  have hla : n.rn = "la".toList := (h.shape.named n hmem).mp hnty
  -- the only child named `la`
  have honly : ∀ m ∈ (s.children c.id).roots, m.rn = "la".toList → m = n := by
    intro m hm hmrn
    rcases CntInv.countP_le_one (countP_la h.shape hc) with hf | ⟨a, -, -, hf⟩
    · have : n ∈ (s.children c.id).roots.filter fun m => m.rn = "la".toList := List.mem_filter.mpr ⟨hn, decide_eq_true hla⟩
      rw [hf] at this
      cases this
    · have hin : ∀ x ∈ (s.children c.id).roots, x.rn = "la".toList → x = a := by
        intro x hx hxrn
        have : x ∈ (s.children c.id).roots.filter fun m => m.rn = "la".toList := List.mem_filter.mpr ⟨hx, decide_eq_true hxrn⟩
        rw [hf] at this
        exact List.mem_singleton.mp this
      rw [hin m hm hmrn, hin n hn hla]
  have hparent : (Ptr.inTree n.id).parent s = .inTree c.id := by
    have hid : s.parentId n.id = some c.id := Server.parentId_of_child h.shape.ids hk (hkids ▸ hn)
    unfold Ptr.parent
    dsimp only
    rw [hid]
  have hnode : (Ptr.inTree c.id).deref s = some c := Server.node?_eq h.shape.ids hc
  have hlaol : (c.ri.bind fun ri => s.db.dbGetLaol .cin ri true) = (s.newest c).map Row.load := by
    obtain ⟨ri, hget, -⟩ := h.keyed c hc hty
    have hcri : c.ri = some ri := Obj.str_of_get hget
    have hord := h.ordered c hc hty
    unfold Server.newest
    rw [hcri, Option.bind_some]
    unfold Server.storedCins at hord ⊢
    rw [hcri] at hord ⊢
    exact congrArg (Option.map Row.load) (lastMax_of_ordered (hord.imp fun hb => hb.1))
  unfold Server.freeCin
  rw [if_pos hla, hparent, hnode]
  dsimp only
  rw [hlaol]
  cases hnew : s.newest c with
  | none =>
    have hfree := h.free n.id fun d hd hdty hne m hm _ hid =>
      hne (congrArg (fun x : RTNode => some x.id) (eq_of_shared_child h.shape.ids hc hd hn hm hid.symm))
    refine hfree.all fun d hd _ hid => ?_
    have hd' : d ∈ s.tree.nodes := (Forest.nodes_remove_sublist _ _).subset hd
    obtain rfl := h.shape.ids.eq hd' hc hid
    have hgone : (s.freeRtnode n.id).latestChild d = none := by
      unfold Server.latestChild
      rw [Server.children_freeRtnode h.shape.ids hd, List.find?_eq_none]
      intro m hm hmrn
      obtain ⟨hm, hne⟩ := List.mem_filter.mp hm
      rw [honly m hm (of_decide_eq_true hmrn)] at hne
      simp at hne
    rw [hgone, show (s.freeRtnode n.id).newest d = s.newest d from newest_eq rfl rfl, hnew]
    exact .none
  | some r =>
    have hrow : r ∈ s.db ∧ r.ty = .cin := by
      have := List.mem_of_getLast? hnew
      rw [storedCins_eq] at this
      exact mem_cins.mp (List.mem_of_mem_filter this)
    have hinst := h.rows r hrow.1 hrow.2
    dsimp only [Option.map_some]
    have hlatest : s.latestChild c = some n := by
      unfold Server.latestChild
      cases hf : (s.children c.id).roots.find? fun m => m.rn = "la".toList with
      | none => exact absurd (decide_eq_true hla) (List.find?_eq_none.mp hf n hn)
      | some m =>
        have hmrn := List.find?_some hf
        rw [honly m (List.mem_of_find?_eq_some hf) (of_decide_eq_true hmrn)]
    refine (h.recache hc hn hnty ((get_load (by decide)).trans hinst.bare)).settle ?_ ?_
    · rw [Server.setObj, Server.nodes_modifyNode]
      refine List.mem_map.mpr ⟨c, hc, if_neg fun hid => ?_⟩
      rw [h.shape.ids.eq hc hmem hid, hnty] at hty
      cases hty
    · rw [latestChild_setObj, hlatest, Option.map_some, if_pos rfl,
        show (s.setObj n.id r.load).newest c = s.newest c from newest_eq rfl rfl, hnew]
      refine .some ⟨Obj.str_congr (get_load (by decide)), fun k hk => ?_⟩
      have hku : k ≠ .uri := by
        rintro rfl
        exact hk (by decide)
      show r.obj.get k = (r.load.get k).bind column
      rw [get_load hku, hinst.column]

/-- The deletion of a content instance of a container in the tree. -/
theorem Recent.deleteCin {now : CStr} {p : Ptr} {j : Nat} (h : Recent none s) (hp : p.deref s = some n) (hn : n.ty = .cin)
    (hmember : n.memberOf = []) (hpar : p.parent s = .inTree j)
    (hhits : ∀ d ∈ s.tree.nodes, d.ty = .cnt → (p.treeId.isSome = true → d.id ≠ j) → ∀ r ∈ s.newest d, n.hits r = false)
    (he : s.deleteOnem2mResource now req p = some (s', resp)) : Recent none s' := by
  unfold Server.deleteOnem2mResource Server.deleteProcess at he
  rw [hp, h.shape.deleteOrder_cin hp hn] at he
  dsimp only at he
  rw [if_neg (by rw [hn]; decide)] at he
  simp only [List.foldlM_cons, List.foldlM_nil, Option.bind_eq_bind, Option.bind_eq_some_iff, Option.pure_def,
    Option.some.injEq] at he
  obtain ⟨s₃, ⟨s₂, hone, rfl⟩, he⟩ := he
  unfold Server.deleteOne Server.deleteSwitch at hone
  simp only [hp, hn, hpar, Option.bind_eq_bind, Option.bind_eq_some_iff] at hone
  obtain ⟨s₁, hdrop, hone⟩ := hone
  rw [Server.leaveGroups_nil s₁ hmember] at hone
  -- what is exempt: the container of a cached instance
  have hdropped : ∀ e, Recent e s → Works e s s₁ ∧ (∀ c ∈ s.tree.nodes, c.id = j → ∃ o, s₁.tree = (s.setObj c.id o).tree) := by
    intro e h
    have hdrop' := hdrop
    unfold Server.dropCnt at hdrop'
    split at hdrop'
    · rename_i hnone
      cases hdrop'
      refine ⟨Works.refl h, fun c hc hid => ?_⟩
      have hsome : (Ptr.inTree j).deref s = some c := hid ▸ Server.node?_eq h.shape.ids hc
      rw [hsome] at hnone
      cases hnone
    · rename_i c hsome
      obtain ⟨hc, rfl⟩ := Server.node?_mem hsome
      have hcin : c.ty ≠ .cin := by
        intro hcin
        obtain ⟨o, ho, -⟩ := Option.map_eq_some_iff.mp hdrop'
        unfold bumpCnt at ho
        simp only [h.bare c hc hcin, Option.bind_eq_bind, Option.bind_none] at ho
        cases ho
      obtain ⟨hw, o, ht⟩ := Works.dropCnt h hc hcin hdrop
      refine ⟨hw, fun d hd hid => ?_⟩
      rw [h.shape.ids.eq hd hc hid]
      exact ⟨o, ht⟩
  have hquiet : ∀ e, Recent e s → Works e s s₁ → s₁.notifyDelete now req p n = s₁ := by
    intro e _ hw
    have hok : (p.parent s₁).Ok s₁.db := by
      refine Ptr.parent_ok ?_
      rintro m q rfl
      have hq : q = .inTree j := hpar
      rw [hq]
      trivial
    exact hw.recent.shape.notifyDelete now req hok
  rw [hquiet none h (hdropped none h).1] at hone
  obtain rfl : s₂ = s₁ := by
    cases hone
    rfl
  cases he
  simp only [hn]
  cases p with
  | null => cases hp
  | loose m q =>
    cases hp
    have hw := (hdropped none h).1
    have hw₂ := Works.dbDelete (n := n) hw.recent fun r hr => by
      obtain ⟨d, hd, hdty, -, hrd⟩ := hw.heads r hr
      exact hhits d hd hdty nofun r hrd
    -- a node outside the tree is freed, and that is all
    have hfree : ∀ s : Server, s.freeCin (.loose n q) n = s := by
      intro s
      unfold Server.freeCin Server.freePtr
      split <;> rfl
    rw [hfree]
    exact hw₂.recent
  | inTree i =>
    obtain ⟨hnmem, rfl⟩ := Server.node?_mem hp
    have hparent : s.parentId n.id = some j := by
      unfold Ptr.parent at hpar
      dsimp only at hpar
      split at hpar
      · cases hpar
      · rename_i x hx
        cases hpar
        exact hx
    obtain ⟨c, k, m, hk, rfl, hm, hmid⟩ := Server.parentId_mem hparent
    obtain rfl := h.shape.ids.eq (Forest.roots_of_cell hk hm) hnmem hmid
    have hc := Forest.mem_nodes_of_cell hk
    have hcty : c.ty = .cnt := h.home c k hk m hm hn
    obtain ⟨hw, htree⟩ := hdropped (some c.id) (h.but (some c.id))
    obtain ⟨o, ht⟩ := htree c hc rfl
    have hw₂ := Works.dbDelete (n := m) hw.recent fun r hr => by
      obtain ⟨d, hd, hdty, hne, hrd⟩ := hw.heads r hr
      exact hhits d hd hdty (fun _ hid => hne (congrArg some hid.symm)) r hrd
    have hc₂ : { c with obj := o } ∈ s₂.tree.nodes := by
      rw [ht]
      exact Server.mem_setObj hc o
    have hm₂ : m ∈ (s₂.children c.id).roots := by
      unfold Server.children
      rw [ht]
      show m ∈ ((s.setObj c.id o).children c.id).roots
      unfold Server.setObj
      rw [Server.children_modifyNode (by intro n; rfl), Forest.roots_modify, Server.children_eq h.shape.ids hk]
      refine List.mem_map.mpr ⟨m, hm, if_neg fun hid => ?_⟩
      rw [h.shape.ids.eq hnmem hc (hasId_iff.mp hid), hcty] at hn
      cases hn
    exact hw₂.recent.freeCached (c := { c with obj := o }) hc₂ hcty hm₂ hn

end

/-! ## Runs -/

namespace CntRequest

/-- The requests that keep the caches, by the state they meet. They look up nothing expired. A new instance has a name and
no counter, and every instance of its container is earlier. An update leaves every container its newest instance. A deletion names an instance below its
container that is in no group, and takes the newest instance of no container but through the node that caches it. No
other DELETE statement meets a newest instance. -/
def Serving (env : Env) (s : Server) : CntRequest → Prop
  | createCnt req => s.Settled env.now req.target ∧ s.AcpiSettled env.now (req.pc.get .acpi) ∧ Placed env s req .cnt
  | createCin req => s.Settled env.now req.target ∧ Placed env s req .cin ∧ req.pc.has .cni = false ∧
      req.pc.str .rn ≠ some [] ∧ ∀ c ∈ s.named req.target, c.ty = .cnt → (∀ q ∈ s.storedCins c, Earlier env req.pc q) ∧
        ∀ d ∈ s.tree.nodes, d.ty = .cnt → d.id ≠ c.id → ∀ r ∈ s.newest d,
          (∀ n ∈ (s.children c.id).roots, n.ty = .cin → n.hits r = false) ∧ ∀ x ∈ s.storedCins c, x.hits r = false
  | updateCnt _ req => s.Settled env.now req.target ∧ s.AcpiSettled env.now (req.pc.get .acpi) ∧
      ∀ c ∈ s.named req.target, c.ty = .cnt → SparesNewest s c req.pc
  | deleteCin req => s.Settled env.now req.target ∧ ∀ n ∈ s.named req.target, n.memberOf = [] ∧
      ((s.resolve req.target).parent s).treeId.isSome = true ∧ ∀ d ∈ s.tree.nodes, d.ty = .cnt →
        ((s.resolve req.target).treeId.isSome = true → ((s.resolve req.target).parent s).treeId ≠ some d.id) →
          ∀ r ∈ s.newest d, n.hits r = false

instance (env : Env) (s : Server) : (r : CntRequest) → Decidable (r.Serving env s)
  | createCnt req => inferInstanceAs (Decidable (s.Settled env.now req.target ∧ s.AcpiSettled env.now _ ∧ _))
  | createCin req => inferInstanceAs (Decidable (s.Settled env.now req.target ∧ _ ∧ _ ∧ _ ∧ ∀ c ∈ s.named req.target, _ →
      (∀ q ∈ s.storedCins c, _) ∧ ∀ d ∈ s.tree.nodes, _ → _ → ∀ r ∈ s.newest d,
        (∀ n ∈ (s.children c.id).roots, _ → _) ∧ ∀ x ∈ s.storedCins c, _))
  | updateCnt _ req => inferInstanceAs (Decidable (s.Settled env.now req.target ∧ s.AcpiSettled env.now _ ∧
      ∀ c ∈ s.named req.target, _ → _))
  | deleteCin req => inferInstanceAs (Decidable (s.Settled env.now req.target ∧ ∀ n ∈ s.named req.target, _ ∧ _ ∧
      ∀ d ∈ s.tree.nodes, _ → _ → ∀ r ∈ s.newest d, _))

end CntRequest

/-- One request of a run that meets the condition. -/
def LatestStep (s s' : Server) : Prop :=
  ∃ env r resp, CntRequest.deletesCin s r = true ∧ r.Serving env s ∧ s.serve env r = some (s', resp)

section Step

variable {s s' : Server} {env : Env} {req : Req} {resp : Resp}

theorem recent_boot (h : Booted s) : Recent none s := by
  have hshape := (cntInv_boot h).shape
  obtain ⟨env, h⟩ := h
  obtain ⟨cb, acp, r, q, ht, -, hdb, -, -, hc, -, -, -, -, -, -, -, ha, -, -, -, -, hr, -, hq, -⟩ := boot_some h
  have hty : ∀ n ∈ s.tree.nodes, n.ty ≠ .cin ∧ n.ty ≠ .cnt := by
    rw [ht]
    intro n hn
    have : n = cb ∨ n = acp := by simpa [Forest.nodes] using hn
    rcases this with rfl | rfl
    · rw [hc]; decide
    · rw [ha]; decide
  have hrow : ∀ x ∈ s.db, x.ty ≠ .cin := by
    rw [hdb]
    intro x hx
    simp only [List.mem_cons, List.not_mem_nil, or_false] at hx
    rcases hx with rfl | rfl
    · rw [hr]; decide
    · rw [hq]; decide
  exact ⟨hshape, fun c k hk m hm hm' => absurd hm' (hty m (Forest.roots_of_cell hk hm)).1,
    fun c hc hc' => absurd hc' (hty c hc).2, fun c hc _ _ hc' => absurd hc' (hty c hc).2,
    fun x hx hx' => absurd hx' (hrow x hx), fun n hn hn' => absurd hn' (hty n hn).1,
    fun x hx hx' => absurd hx' (hrow x hx), fun c hc hc' => absurd hc' (hty c hc).2,
    fun c hc hc' => absurd hc' (hty c hc).2⟩

theorem recent_createCnt (h : Recent none s) (hr : CntRequest.Serving env s (.createCnt req))
    (he : s.serve env (.createCnt req) = some (s', resp)) : Recent none s' := by
  obtain ⟨hset, hacpi, hplace⟩ := hr
  rcases Server.onTarget_some hset he with rfl | ⟨p, hp, -, he⟩
  · exact h
  · rcases Server.createOnem2mResource_some he with rfl | ⟨-, hchild, -, s₁, hc, hs'⟩
    · exact h
    · have hcin : p.ty ≠ .cin := by
        intro hcin
        rw [hcin] at hchild
        cases hchild
      have h₁ := h.createCnt hp hcin hplace hacpi hc
      rcases hs' with rfl | rfl
      · exact h₁
      · exact h₁.incrementParentStatetag _ _

theorem recent_createCin (h : Recent none s) (hr : CntRequest.Serving env s (.createCin req))
    (he : s.serve env (.createCin req) = some (s', resp)) : Recent none s' := by
  obtain ⟨hset, hplace, hcni, hrn, hcond⟩ := hr
  rcases Server.onTarget_some hset he with rfl | ⟨p, hp, hpn, he⟩
  · exact h
  · rcases Server.createOnem2mResource_some he with rfl | ⟨-, hchild, -, s₁, hc, hs'⟩
    · exact h
    · have hty : p.ty = .cnt := by
        have hann := h.shape.original p hp
        revert hchild hann
        cases p.ty <;> decide
      obtain ⟨hlater, hspare⟩ := hcond p hpn hty
      have hhead : ∀ r, s.Head (some p.id) r → (∀ n ∈ (s.children p.id).roots, n.ty = .cin → n.hits r = false) ∧
          ∀ x ∈ s.storedCins p, x.hits r = false := by
        rintro r ⟨d, hd, hdty, hne, hrd⟩
        exact hspare d hd hdty (fun hid => hne (congrArg some hid.symm)) r hrd
      have h₁ := h.createCin hp hty hplace (Assoc.has_eq_false.mp hcni) hrn hlater
        (fun n hn hnty r hr => (hhead r hr).1 n hn hnty) (fun x hx r hr => (hhead r hr).2 x hx) hc
      rcases hs' with rfl | rfl
      · exact h₁
      · exact h₁.incrementParentStatetag _ _

theorem recent_updateCnt {kept : Json → List Json} (h : Recent none s) (hr : CntRequest.Serving env s (.updateCnt kept req))
    (he : s.serve env (.updateCnt kept req) = some (s', resp)) : Recent none s' := by
  obtain ⟨hset, hacpi, hcond⟩ := hr
  unfold Server.serve Server.requestUpdateCnt at he
  rcases Server.onTarget_some hset he with rfl | ⟨c, hc, hcn, he⟩
  · exact h
  · split at he
    · cases he; exact h
    · rename_i hty
      rw [not_not] at hty
      split at he
      · cases he; exact h
      · split at he
        · cases he; exact h
        · exact h.updateCnt hc hty (hcond c hcn hty) hacpi he

theorem recent_deleteCin (h : Recent none s) (hd : CntRequest.deletesCin s (.deleteCin req) = true)
    (hr : CntRequest.Serving env s (.deleteCin req)) (he : s.serve env (.deleteCin req) = some (s', resp)) : Recent none s' := by
  obtain ⟨hset, hcond⟩ := hr
  unfold Server.serve Server.requestDelete at he
  rcases Server.findRtnode_settled hset with hf | ⟨n, hn, hf⟩
  · simp only [hf] at he
    cases he
    exact h
  · simp only [hf] at he
    have hp : (s.resolve req.target).deref s = some n := hn
    rw [hp] at he
    have hcin : n.ty = .cin := by
      unfold CntRequest.deletesCin at hd
      simpa [hn] using hd
    obtain ⟨hmember, hparent, hhits⟩ := hcond n hn
    obtain ⟨j, hj⟩ := Option.isSome_iff_exists.mp hparent
    refine h.deleteCin hp hcin hmember (Ptr.eq_inTree hj) (fun d hd hdty hne => hhits d hd hdty fun htree hid => ?_) he
    rw [hj] at hid
    exact hne htree (Option.some.inj hid).symm

/-- One step keeps the caches. -/
theorem recent_step (h : Recent none s) (hs : LatestStep s s') : Recent none s' := by
  obtain ⟨env, r, resp, hd, hr, he⟩ := hs
  cases r with
  | createCnt req => exact recent_createCnt h hr he
  | createCin req => exact recent_createCin h hr he
  | updateCnt kept req => exact recent_updateCnt h hr he
  | deleteCin req => exact recent_deleteCin h hd hr he

end Step

/-- In every run whose requests meet the condition, every container serves its newest stored instance as its child `la`
in every state reached. -/
theorem latestServed_of_serving_run {s : Server} (h : Reach Booted LatestStep s) : s.LatestServed :=
  (h.inv (I := Recent none) (fun _ => recent_boot) fun _ _ => recent_step).latestServed

/-! ## Two runs -/

/-- The first days of the year. -/
def onDay (d : Char) : Env := { firstDay with now := "2024010".toList ++ d :: "T000000".toList }

/-- Four instances of four days, of which an update of the limit takes the oldest; the oldest left and the latest are
deleted. -/
def servedContainer : List (Env × CntRequest) :=
  oneInstance.map (onDay '1', ·) ++ [(onDay '2', .createCin (adminReq .create "TinyIoT/c" .cin [(.con, .str "de".toList)])),
    (onDay '3', .createCin (adminReq .create "TinyIoT/c" .cin [(.con, .str "f".toList)])),
    (onDay '4', .createCin (adminReq .create "TinyIoT/c" .cin [(.con, .str "g".toList)])),
    (onDay '5', .updateCnt (fun _ => []) (adminReq .update "TinyIoT/c" .cnt [(.mni, .int 3)])),
    (onDay '6', .deleteCin (adminReq .delete "TinyIoT/c/ol" .cin [])),
    (onDay '7', .deleteCin (adminReq .delete "TinyIoT/c/la" .cin []))]

theorem latestServed_of_serving_run_two : ∃ s, Reach Booted LatestStep s ∧
    s.db.count .cin "3-20240101T0000000001".toList = 1 ∧ s.LatestServed := by
  have hrun : ((boot firstDay).bind (servedContainer.foldlM fun s r =>
      if CntRequest.deletesCin s r.2 = true ∧ r.2.Serving r.1 s then (s.serve r.1 r.2).map (·.1) else none)).any
      (fun s => decide (s.db.count .cin "3-20240101T0000000001".toList = 1)) = true := by decide +kernel
  obtain ⟨s, hs, hc⟩ := (Option.any_eq_true _ _).mp hrun
  obtain ⟨s₀, hb, hs⟩ := Option.bind_eq_some_iff.mp hs
  have hr : Reach Booted LatestStep s := by
    refine Reach.of_foldlM ?_ servedContainer (.start ⟨firstDay, hb⟩) hs
    intro s r s' hs'
    split at hs'
    · rename_i hok
      obtain ⟨⟨s₁, resp⟩, he, rfl⟩ := Option.map_eq_some_iff.mp hs'
      exact ⟨r.1, r.2, resp, hok.1, hok.2, he⟩
    · cases hs'
  exact ⟨s, hr, of_decide_eq_true hc, latestServed_of_serving_run hr⟩

/-- The only instance is deleted as the oldest one. -/
def staleChild : List CntRequest := oneInstance ++ [.deleteCin (adminReq .delete "TinyIoT/c/ol" .cin [])]

/-- The child `la` stays, and no instance is stored. -/
theorem not_latestServed_stale_child : ¬ ∀ s, Reach Booted CntStep s → s.LatestServed := by
  intro h
  have hrun : ((boot firstDay).bind (staleChild.foldlM fun s r =>
      if CntRequest.admissible s r = true then (s.serve firstDay r).map (·.1) else none)).any
      (fun s => s.tree.nodes.any fun c => c.ty = .cnt && (s.latestChild c).isSome && (s.storedCins c).isEmpty) = true := by
    decide +kernel
  obtain ⟨s, hs, hc⟩ := (Option.any_eq_true _ _).mp hrun
  obtain ⟨s₀, hb, hs⟩ := Option.bind_eq_some_iff.mp hs
  have hr : Reach Booted CntStep s := by
    refine Reach.of_foldlM ?_ staleChild (.start ⟨firstDay, hb⟩) hs
    intro s r s' hs'
    split at hs'
    · rename_i hok
      obtain ⟨⟨s₁, resp⟩, he, rfl⟩ := Option.map_eq_some_iff.mp hs'
      exact ⟨firstDay, r, resp, hok, he⟩
    · cases hs'
  obtain ⟨c, hcmem, hcc⟩ := List.any_eq_true.mp hc
  simp only [Bool.and_eq_true, decide_eq_true_eq, List.isEmpty_iff] at hcc
  exact ((h s hr c hcmem hcc.1.1).1.mp hcc.1.2) hcc.2

end TinyIoT
