/-
Runs of requests on containers and their instances: the row of a container against its object, in every
state such a run reaches.
-/
import TinyIoT.Container.Stored
import TinyIoT.Container.Run

namespace TinyIoT

/-! ## The handlers -/

namespace Mirror

variable {s s' : Server} {env : Env} {now : CStr} {req : Req} {p : Ptr} {n c parent : RTNode} {resp : Resp}

/-- `update_cnt_cin` with sign 1. -/
theorem addCnt (h : Mirror s) {cin : Obj} (hc : c ∈ s.tree.nodes) (hty : c.ty = .cnt)
    (hkids : ∀ n ∈ (s.children c.id).roots, n.ty = .cin → Spares s n.uri n.ri)
    (hrows : ∀ ri, c.ri = some ri → ∀ r ∈ s.db.instances .cin ri, Spares s r.uri r.ri)
    (he : s.addCnt env (.inTree c.id) cin = some s') :
    Kept s s' ∧ ∃ c' ∈ s'.tree.nodes, c'.id = c.id ∧ c'.ty = .cnt := by
  unfold Server.addCnt at he
  simp only [Option.bind_eq_bind, Option.bind_eq_some_iff, Option.pure_def, Option.some.injEq] at he
  obtain ⟨c₀, -, s₁, h₁, c₁, hd₁, o, ho, ⟨o', db⟩, hev, rfl⟩ := he
  obtain ⟨hk₁, hcin⟩ := h.expireByMia hc hty hkids h₁
  obtain ⟨hc₁, hid₁⟩ := Server.node?_mem hd₁
  obtain ⟨m, hm, hidm, htym, hrim⟩ := hk₁.steady.nodes c₁ hc₁
  obtain rfl := h.shape.ids.eq hm hc (hidm.symm.trans hid₁)
  have hty₁ : c₁.ty = .cnt := htym.trans hty
  obtain ⟨ri, hri, hget, -, -⟩ := hk₁.mirror.ri_of hc₁ hty₁
  have hf := follows_bumpCnt (hk₁.mirror.held c₁ hc₁ hty₁).1 ho
  -- the instances that are left were there before
  have hspare : ∀ r ∈ s₁.db.instances .cin ri, Avoids s₁.ofContainer s₁.db r.uri r.ri := by
    intro r hr
    obtain ⟨hr, ht, hpi⟩ := Db.mem_instances.mp hr
    exact hk₁.steady.spares (hrows ri (hrim.symm.trans hri) r (Db.mem_instances.mpr ⟨hcin r hr ht, ht, hpi⟩))
  obtain ⟨hf', db₁, hl, hdb⟩ := deleteCinUnder_spec hf (hf.ri.trans hget) hspare hev
  have hk₂ := hk₁.mirror.dropRows hl
  have hstr : o'.str .ri = some ri := (Obj.str_congr hf'.ri).trans hri
  have hk₃ : Kept { s₁ with db := db₁ } ({ s₁ with db := db }.persist (.inTree m.id) o') := by
    have hpt : ({ s₁ with db := db }.persist (.inTree m.id) o') =
        { s₁.setObj m.id o' with db := db.dbUpdateResource o' ri } := by
      unfold Server.persist Server.assign
      rw [hstr]
      rfl
    rw [hpt, ← hid₁]
    refine hk₂.mirror.rewrite hc₁ hget hty₁ hf' rfl rfl ?_
    rcases hdb with rfl | rfl
    · exact .inl rfl
    · exact .inr rfl
  refine ⟨hk₁.trans (hk₂.trans hk₃), { c₁ with obj := o' }, ?_, hid₁, hty₁⟩
  rw [Server.persist_tree, ← hid₁]
  exact Server.mem_setObj (s := { s₁ with db := db }) hc₁ o'


/-- An instance takes its place in the rows. -/
theorem storeCin (h : Mirror s) {r : Row} {ri : CStr} (hri : r.ri = some ri) (hnew : ∀ c ∈ s.tree.nodes, c.ri ≠ some ri) :
    Mirror { s with db := s.db ++ [r] } := by
  refine h.frame (h.shape.congr rfl le_rfl) (fun _ hn => .inl hn) fun c hc _ q hq => ?_
  rw [List.mem_append, List.mem_singleton]
  refine or_iff_left fun he => hnew c hc ?_
  rw [← hq, he, hri]

/-- The end of `create_cin`. -/
theorem cacheLatest (h : Mirror s) {x : RTNode} (hp : c ∈ s.tree.nodes) (hpid : c.id = parent.id) (hcin : c.ty ≠ .cin)
    (hid : x.id = s.nextId) (hty : x.ty = .cin) (hsubs : x.subs = [])
    (hnew : ∀ d ∈ s.tree.nodes, d.ty = .cnt → x.ri ≠ d.ri) :
    Mirror ({ s with nextId := s.nextId + 1 }.cacheLatest parent x) := by
  have h₁ : Mirror { s with nextId := s.nextId + 1 } := h.congr rfl rfl (Nat.le_succ _)
  rcases cacheLatest_cases (s := { s with nextId := s.nextId + 1 }) parent hty (fun a ha he => by
      have := h.shape.below a ha
      omega) with ⟨la, hmem, hrn, he⟩ | ⟨hnone, he⟩
  · rw [he]
    refine h₁.setObj_other (fun m hm hid => ?_) hnew
    rw [h.shape.ids.eq hm hmem hid, (h.shape.named la hmem).mpr hrn]
    decide
  · rw [he]
    obtain ⟨k, hk⟩ := Forest.mem_nodes_iff.mp hp
    have hkids : (s.children parent.id).roots = k.roots := by rw [← hpid, Server.children_eq h.shape.ids hk]
    refine h.frame ?_ (fun m hm => ?_) fun _ _ _ _ _ => Iff.rfl
    · refine h.shape.insert (x := { x with uri := parent.uri ++ '/' :: x.rn, rn := "la".toList }) hk hcin hid hsubs
        (by rw [hty]; decide) (by simp [hty]) (fun _ => ?_) (by rw [hpid]) rfl
      rw [List.countP_eq_zero]
      intro m hm hmty
      have hm' : m ∈ (s.children parent.id).roots := hkids ▸ hm
      exact hnone m hm' ((h.shape.named m (Forest.roots_of_cell hk hm)).mp (by simpa using hmty))
    · rcases List.mem_cons.mp ((Server.nodes_graft h.shape.ids hp hpid).subset hm) with rfl | hm
      · exact .inr ⟨by rw [hty]; decide, hnew⟩
      · exact .inl hm

/-- `create_cin`. -/
theorem createCin (h : Mirror s) (hp : parent ∈ s.tree.nodes) (hty : parent.ty = .cnt) (hplace : Placed env s req .cin)
    (hkids : ∀ n ∈ (s.children parent.id).roots, n.ty = .cin → Spares s n.uri n.ri)
    (hrows : ∀ ri, parent.ri = some ri → ∀ r ∈ s.db.instances .cin ri, Spares s r.uri r.ri)
    (he : s.createCin env req parent = some (s', resp)) : Mirror s' := by
  unfold Server.createCin at he
  simp only [Option.bind_eq_bind] at he
  obtain ⟨⟨cin, n⟩, hgen, he⟩ := Option.bind_eq_some_iff.mp he
  obtain ⟨pi, -, hget⟩ := addGeneralAttribute_some hgen
  have h₁ : Mirror { s with riCount := n } := h.congr rfl rfl le_rfl
  obtain ⟨st, -, he⟩ := Option.bind_eq_some_iff.mp he
  split at he
  · cases he; exact h₁
  · rename_i o ho
    obtain ⟨hattr, -⟩ := buildCin_ok ho
    obtain ⟨node, hnode, he⟩ := Option.bind_eq_some_iff.mp he
    obtain ⟨s₁, hadd, he⟩ := Option.bind_eq_some_iff.mp he
    obtain ⟨hid, hnty, -, -, -, hsubs, -, hnattr, -⟩ := createRtnode_some hnode
    have hri : node.obj.get .ri = some (.str (resourceIdentifier .cin env.now s.riCount).1) := by
      rw [hnattr .ri (by decide), hattr .ri (by decide), hget, hplace.get (by decide)]
      rfl
    have htyp : node.obj.get .ty = some (.int ResourceType.cin.code) := by
      rw [hnattr .ty (by decide), hattr .ty (by decide), hget, hplace.get (by decide)]
      rfl
    obtain ⟨hk, c', hc', hcid, hcty⟩ := h₁.addCnt hp hty hkids hrows hadd
    have hnew : ∀ c ∈ s₁.tree.nodes, c.ri ≠ some (resourceIdentifier .cin env.now s.riCount).1 := by
      intro c hc
      obtain ⟨d, hd, -, -, hri⟩ := hk.steady.nodes c hc
      rw [hri]
      exact hplace.2.1 d hd
    rw [(Db.dbStoreResource_code (t := .cin) (by decide) htyp).mpr rfl] at he
    cases he
    have hrow := Obj.str_of_get ((Db.get_stored node.obj (k := .ri) (by decide)).trans (by
      rw [hri]; exact column_str (resourceIdentifier_ne_nil .cin env.now s.riCount)))
    have h₂ := hk.mirror.storeCin (r := ⟨parent.uri ++ '/' :: node.rn, .cin, _⟩) hrow hnew
    refine h₂.cacheLatest hc' hcid (by rw [hcty]; decide) (hid.trans hk.steady.nextId.symm) hnty hsubs fun d hd _ he => ?_
    exact hnew d hd (he.symm.trans (Obj.str_of_get hri))

/-- A new container takes its place in the tree and in the rows. -/
theorem graftCnt (h : Mirror s) (hp : parent ∈ s.tree.nodes) (hcin : parent.ty ≠ .cin) {x : RTNode} {ri : CStr} {r : Row}
    (hid : x.id = s.nextId) (hty : x.ty = .cnt) (hsubs : x.subs = []) (hrn : x.rn ≠ "la".toList) (hm : Measured x.obj)
    (hri : x.obj.get .ri = some (.str ri)) (hne : ri ≠ []) (hrri : r.ri = some ri) (hrty : r.ty = .cnt)
    (hcopy : Copies r x.obj) (hnew : Unused s ri)
    (ht : s'.tree = s.tree.graft (RTNode.hasId parent.id) (insertChild x)) (hdb : s'.db = s.db ++ [r])
    (hn : s'.nextId = s.nextId + 1) : Mirror s' := by
  obtain ⟨k, hk⟩ := Forest.mem_nodes_iff.mp hp
  have hxri : x.ri = some ri := Obj.str_of_get hri
  have hnodes : ∀ n ∈ s'.tree.nodes, n = x ∨ n ∈ s.tree.nodes := by
    intro n hn
    rw [ht] at hn
    exact List.mem_cons.mp ((Server.nodes_graft h.shape.ids hp rfl).subset hn)
  refine ⟨h.shape.insert hk hcin hid hsubs (by rw [hty]; decide)
    ⟨fun hx => absurd (hty.symm.trans hx) (by decide), fun hx => absurd hx hrn⟩
    (fun hx => absurd (hty.symm.trans hx) (by decide)) ht hn, ?_, ?_⟩
  · intro c hc hcty n hn he
    rcases hnodes c hc with rfl | hc
    · rcases hnodes n hn with rfl | hn
      · rfl
      · exact absurd (he.trans hxri) (hnew.1 n hn)
    · rcases hnodes n hn with rfl | hn
      · exact absurd (he.symm.trans hxri) (hnew.1 c hc)
      · exact h.alone c hc hcty n hn he
  · intro c hc hcty
    rcases hnodes c hc with rfl | hc
    · refine ⟨hm, ri, hri, hne, ⟨r, by rw [hdb]; simp, hrri⟩, fun q hq hqri => ?_⟩
      rw [hdb] at hq
      rcases List.mem_append.mp hq with hq | hq
      · exact absurd hqri (hnew.2 q hq).1
      · rw [List.mem_singleton.mp hq]
        exact ⟨hrty, hcopy⟩
    · obtain ⟨hcm, q, hq, hqne, hh⟩ := h.held c hc hcty
      refine ⟨hcm, q, hq, hqne, hh.congr fun y hy => ?_⟩
      rw [hdb, List.mem_append, List.mem_singleton]
      refine or_iff_left fun he => hnew.1 c hc ?_
      rw [show c.ri = some q from Obj.str_of_get hq, ← hy, he, hrri]

end Mirror

/-- A body that creates a container: every measure in it is a count, a limit there once at most. -/
def Describes (pc : Obj) : Prop :=
  (∀ k ∈ measures, ∀ v ∈ pc.get k, v.isCount = true) ∧ ∀ k ∈ limits, (Assoc.entries pc k).length ≤ 1

instance (pc : Obj) : Decidable (Describes pc) := inferInstanceAs (Decidable ((∀ k ∈ measures, _) ∧ ∀ k ∈ limits, _))

theorem mem_measures_of_limits {k : Attr} (h : k ∈ limits) : k ∈ measures := by
  simp only [limits, List.mem_cons, List.not_mem_nil, or_false] at h
  rcases h with rfl | rfl | rfl <;> decide

namespace Describes

variable {o o' : Obj}

theorem congr (h : Describes o) (he : ∀ k ∈ measures, Assoc.entries o' k = Assoc.entries o k) : Describes o' := by
  refine ⟨fun k hk v hv => h.1 k hk v ((Assoc.get_congr (he k hk)).symm.trans hv), fun k hk => ?_⟩
  rw [he k (mem_measures_of_limits hk)]
  exact h.2 k hk

/-- A count is appended, under a limit only where there is none. -/
theorem add (h : Describes o) {k : Attr} {v : Json} (hv : v.isCount = true) (hl : k ∈ limits → o.get k = none) :
    Describes (o.add k v) := by
  constructor
  · intro k' hk' w hw
    have hget : Obj.get (o.add k v) k' = (o.get k').or (if k = k' then some v else none) := Assoc.get_add _ _ _ _
    rcases ho : Obj.get o k' with _ | u
    · rw [Option.mem_def, hget, ho, Option.none_or] at hw
      split at hw
      · cases hw
        exact hv
      · cases hw
    · rw [Option.mem_def, hget, ho] at hw
      cases hw
      exact h.1 k' hk' w ho
  · intro k' hk'
    show (Assoc.entries (Assoc.add o k v) k').length ≤ 1
    by_cases hkk : k = k'
    · subst hkk
      rw [Assoc.entries_add_self, Assoc.entries_eq_nil (hl hk')]
      exact le_rfl
    · rw [Assoc.entries_add_ne hkk]
      exact h.2 k' hk'

theorem measured (h : Describes o) (hu : o.get .uri = none) : Measured o := ⟨fun k hk v hv => h.1 k hk v hv, h.2, hu⟩

end Describes

/-- What `create_cnt` stores is measured. -/
theorem measured_buildCnt {env : Env} {req : Req} {s : Server} {cnt o : Obj} (h : buildCnt env req s cnt = .ok o)
    (hd : Describes cnt) (hu : cnt.get .uri = none) : Measured o := by
  have hout : ∀ k ∈ measures, k ≠ .aa ∧ k ≠ .cr ∧ k ≠ .at := by decide
  refine Describes.measured ?_ (((buildCnt_ok h).1 .uri (by decide)).trans hu)
  unfold buildCnt at h
  obtain ⟨⟨⟩, -, h⟩ := bind_ok h
  obtain ⟨o₁, hcr, h⟩ := bind_ok h
  cases h
  have h₁ : Describes o₁ := hd.congr fun k hk =>
    (entries_assignCreator hcr (hout k hk).2.1).trans (entries_validateAa (hout k hk).1)
  have hcounters : Attr.st ∉ limits ∧ Attr.cni ∉ limits ∧ Attr.cbs ∉ limits := by decide
  have h₂ := ((h₁.add (k := .st) (v := .int 0) rfl fun hk => absurd hk hcounters.1).add (k := .cni) (v := .int 0) rfl
    fun hk => absurd hk hcounters.2.1).add (k := .cbs) (v := .int 0) rfl fun hk => absurd hk hcounters.2.2
  have h₃ : Describes (announceAt env _) := h₂.congr fun k hk => entries_announceAt (hout k hk).2.2
  split
  · exact h₃
  · rename_i hh
    exact h₃.add rfl fun _ => Assoc.has_eq_false.mp (Bool.eq_false_iff.mpr hh)

namespace Mirror

variable {s s' : Server} {env : Env} {now : CStr} {req : Req} {p : Ptr} {n c parent : RTNode} {resp : Resp}

/-- `create_cnt`. -/
theorem createCnt (h : Mirror s) (hp : parent ∈ s.tree.nodes) (hcin : parent.ty ≠ .cin) (hplace : Placed env s req .cnt)
    (hd : Describes req.pc) (hacpi : s.AcpiSettled env.now (req.pc.get .acpi))
    (he : s.createCnt env req parent = some (s', resp)) : Mirror s' := by
  unfold Server.createCnt at he
  simp only [Option.bind_eq_bind] at he
  obtain ⟨⟨cnt, n⟩, hgen, he⟩ := Option.bind_eq_some_iff.mp he
  obtain ⟨pi, -, hget⟩ := addGeneralAttribute_some hgen
  have h₁ : Mirror { s with riCount := n } := h.congr rfl rfl le_rfl
  dsimp only at he
  split at he
  · cases he
    rw [Server.afterChecks_settled]
    · exact h₁
    · rw [show cnt.get .acpi = req.pc.get .acpi by rw [hget]; exact Option.or_none]
      exact hacpi
  · rename_i o ho
    obtain ⟨hattr, -, -, hrn⟩ := buildCnt_ok ho
    have hgeneral : ∀ k ∈ measures, k ∉ [Attr.ty, .ct, .ri, .rn, .lt, .pi, .et] := by decide
    have hdesc : Describes cnt := hd.congr fun k hk => entries_addGeneralAttribute (hgeneral k hk) hgen
    have hm := measured_buildCnt ho hdesc (by rw [hget, hplace.get (by decide)]; rfl)
    have hri : o.get .ri = some (.str (resourceIdentifier .cnt env.now s.riCount).1) := by
      rw [hattr .ri (by decide), hget, hplace.get (by decide)]
      rfl
    have hty : o.get .ty = some (.int ResourceType.cnt.code) := by
      rw [hattr .ty (by decide), hget, hplace.get (by decide)]
      rfl
    obtain ⟨x, hx, rfl⟩ := storeResource_node (by decide) (by decide) (by decide) hty he
    obtain ⟨hid, hxty, hxrn, -, -, hsubs, -, hxattr, hxuri⟩ := createRtnode_some hx
    have hla : x.rn ≠ "la".toList := by
      intro hla
      rw [← Obj.str_congr (hattr .rn (by decide)), hxrn, hla] at hrn
      cases hrn.symm.trans CntInv.reserved_la
    have hkept : ∀ k ∈ measures, k ∉ rewritten := by decide
    have hxm : Measured x.obj := by
      refine Describes.measured (Describes.congr ⟨hm.count, hm.once⟩ fun k hk => entries_createRtnode hx (hkept k hk)) ?_
      rw [hxuri]
      exact Assoc.get_del_none hm.unplaced
    refine h₁.graftCnt (x := { x with uri := parent.uri ++ '/' :: x.rn }) hp hcin hid hxty hsubs hla hxm
      ((hxattr .ri (by decide)).trans hri) (resourceIdentifier_ne_nil _ _ _) ?_ rfl ?_ hplace.2 rfl rfl rfl
    · refine Obj.str_of_get ((Db.get_stored o (k := .ri) (by decide)).trans ?_)
      rw [hri]
      exact column_str (resourceIdentifier_ne_nil .cnt env.now s.riCount)
    · intro k hk
      show Obj.get (Assoc.drop (Assoc.overlay column o []) .uri) k = (x.obj.get k).bind column
      rw [Db.get_stored o (measure_ne_uri hk), hxattr k (hkept k hk)]

/-- `increment_parent_statetag` writes to a flexContainer. -/
theorem incrementParentStatetag (h : Mirror s) (now : CStr) (hok : p.Ok s.db) : Mirror (s.incrementParentStatetag now p) := by
  unfold Server.incrementParentStatetag
  split
  · exact h
  · rename_i n hn
    split
    · exact h
    · rename_i hty
      rw [not_not] at hty
      split
      · rename_i st _
        split
        · dsimp only
          have hcnt : n.ty ≠ .cnt := by rw [hty]; decide
          have hapart := h.apart_deref hn hok hcnt
          have hstr : ∀ v, (n.obj.set .st v).str .ri = n.ri := fun v => Obj.str_congr (Assoc.get_set_ne (by decide))
          have hset : Mirror (s.assign p (n.obj.set .st (.int (cInt (st.valueint + 1))))) ∧ ∀ c ∈
              (s.assign p (n.obj.set .st (.int (cInt (st.valueint + 1))))).tree.nodes, c.ty = .cnt → n.ri ≠ c.ri := by
            cases p with
            | null => cases hn
            | loose m q => exact ⟨h, hapart⟩
            | inTree i =>
              obtain ⟨hm, rfl⟩ := Server.node?_mem hn
              refine ⟨h.setObj_other (fun m hm' hid => ?_) fun c hc hcty => hstr _ ▸ hapart c hc hcty, fun c hc hcty => ?_⟩
              · rw [h.shape.ids.eq hm' hm hid]
                exact hcnt
              · rcases Server.mem_nodes_setObj h.shape.ids hm hc with rfl | ⟨hc, -⟩
                · exact absurd hcty hcnt
                · exact hapart c hc hcty
          split
          · exact hset.1
          · rename_i ri hri
            exact hset.1.updateRow_other (.inl rfl) fun c hc hcty he => hset.2 c hc hcty (hri.trans he.symm)
        · exact h
      · exact h

end Mirror

/-! ## Update -/

/-- A body that updates a container: it names no counter and no `uri`, and a limit at most once, with a count
or with null. -/
def Changes (pc : Obj) : Prop :=
  (∀ k ∈ [Attr.st, .cni, .cbs, .uri], pc.has k = false) ∧
    ∀ k ∈ limits, (Assoc.entries pc k).length ≤ 1 ∧ ∀ v ∈ pc.get k, v.isCount = true ∨ v.isNull = true

instance (pc : Obj) : Decidable (Changes pc) :=
  inferInstanceAs (Decidable ((∀ k ∈ [Attr.st, .cni, .cbs, .uri], _) ∧ ∀ k ∈ limits, _ ∧ ∀ v ∈ pc.get k, _))

/-- A limit of a container once a body is applied to it. -/
def limitAfter (cnt body : Obj) (k : Attr) (default : Int) : Int :=
  match body.get k with
  | none => limit cnt k default
  | some j => if j.isNull then default else j.valueint

/-- The counters of a container are within the limits a body leaves. -/
def FitsAfter (cnt body : Obj) : Prop :=
  (∀ j ∈ cnt.get .cni, j.valueint ≤ limitAfter cnt body .mni defaultMaxNrInstances) ∧
    ∀ j ∈ cnt.get .cbs, j.valueint ≤ limitAfter cnt body .mbs defaultMaxByteSize

instance (cnt body : Obj) : Decidable (FitsAfter cnt body) :=
  inferInstanceAs (Decidable ((∀ j ∈ cnt.get .cni, _) ∧ ∀ j ∈ cnt.get .cbs, _))

/-- The body that `update_cnt` applies: the state tag is a new one, the limits are those of the request. -/
theorem Changes.applied {pc : Obj} (h : Changes pc) (kept : Json → List Json) (target : Obj) {st : Int} (lt : CStr)
    (hst0 : intMin ≤ st) (hst1 : st ≤ intMax) :
    Measurable ((processAnncAtUpdate kept target ((validateAa .update pc .cnt).add .st (.int st))).1.add .lt (.str lt)) ∧
      ∀ k ∈ [Attr.cni, .cbs, .mni, .mbs, .mia], ((processAnncAtUpdate kept target
        ((validateAa .update pc .cnt).add .st (.int st))).1.add .lt (.str lt)).get k = pc.get k := by
  have hent : ∀ k, k ∉ [Attr.aa, .st, .at, .lt] → Assoc.entries ((processAnncAtUpdate kept target
      ((validateAa .update pc .cnt).add .st (.int st))).1.add .lt (.str lt)) k = Assoc.entries pc k := by
    intro k hk
    simp only [List.mem_cons, List.not_mem_nil, or_false, not_or] at hk
    rw [show Assoc.entries (Obj.add _ .lt (.str lt)) k = _ from Assoc.entries_add_ne (Ne.symm hk.2.2.2),
      entries_processAnncAtUpdate hk.2.2.1, Assoc.entries_add_ne (Ne.symm hk.2.1), entries_validateAa hk.1]
  have hst : Assoc.entries ((processAnncAtUpdate kept target
      ((validateAa .update pc .cnt).add .st (.int st))).1.add .lt (.str lt)) .st = [(.st, .int st)] := by
    rw [show Assoc.entries (Obj.add _ .lt (.str lt)) .st = _ from Assoc.entries_add_ne (by decide),
      entries_processAnncAtUpdate (by decide), Assoc.entries_add_self, entries_validateAa (by decide),
      Assoc.entries_eq_nil (Assoc.has_eq_false.mp (h.1 .st (by decide)))]
    rfl
  have hnone : ∀ k ∈ [Attr.cni, .cbs, .uri], Assoc.entries pc k = [] := by
    intro k hk
    refine Assoc.entries_eq_nil (Assoc.has_eq_false.mp (h.1 k ?_))
    simp only [List.mem_cons, List.not_mem_nil, or_false] at hk
    rcases hk with rfl | rfl | rfl <;> decide
  have hc : ∀ k ∈ [Attr.cni, .cbs, .uri], k ∉ [Attr.aa, .st, .at, .lt] := by decide
  have hl : ∀ k ∈ limits, k ∉ [Attr.aa, .st, .at, .lt] := by decide
  have hsplit : ∀ k ∈ measures, k = .st ∨ k ∈ [Attr.cni, .cbs, .uri] ∨ k ∈ limits := by decide
  refine ⟨⟨fun k hk => ?_, fun k hk v hv => ?_, ?_⟩, fun k hk => Assoc.get_congr (hent k ?_)⟩
  · rcases hsplit k hk with rfl | hk | hk
    · rw [hst]
      exact le_rfl
    · rw [hent k (hc k hk), hnone k hk]
      exact Nat.zero_le _
    · rw [hent k (hl k hk)]
      exact (h.2 k hk).1
  · rcases hsplit k hk with rfl | hk | hk
    · rw [show Obj.get _ Attr.st = some (.int st) by rw [Obj.get, Assoc.get_eq_head, hst]; rfl] at hv
      cases hv
      exact .inl (isCount_int hst0 hst1)
    · rw [Obj.get, Assoc.get_eq_head, hent k (hc k hk), hnone k hk] at hv
      cases hv
    · rw [Obj.get, Assoc.get_congr (hent k (hl k hk))] at hv
      exact ((h.2 k hk).2 v hv).imp_right fun hn => ⟨hn, hk⟩
  · rw [Obj.get, Assoc.get_eq_head, hent .uri (by decide), hnone .uri (by decide)]
    rfl
  · revert k
    decide

/-- The merged object is within its limits. -/
theorem FitsAfter.merged {c body pc : Obj} (h : FitsAfter c pc) (hc : Measured c) (hb : Measurable body)
    (hsame : ∀ k ∈ [Attr.cni, .cbs, .mni, .mbs, .mia], body.get k = pc.get k) (hpc : Changes pc) :
    (∀ j, (c.updateResource body).get .cni = some j → j.valueint ≤ limit (c.updateResource body) .mni defaultMaxNrInstances) ∧
      ∀ j, (c.updateResource body).get .cbs = some j → j.valueint ≤ limit (c.updateResource body) .mbs defaultMaxByteSize := by
  have hget := (hc.updateResource hb).2
  have hcounter : ∀ k ∈ [Attr.cni, .cbs], k ∈ measures → (c.updateResource body).get k = c.get k := by
    intro k hk hm
    have hn : body.get k = none := by
      rw [hsame k (by revert k; decide)]
      exact Assoc.has_eq_false.mp (hpc.1 k (by revert k; decide))
    rw [hget k hm, hn]
    rfl
  have hlimit : ∀ k ∈ [Attr.mni, .mbs], ∀ default, limit (c.updateResource body) k default = limitAfter c pc k default := by
    intro k hk default
    have hm : k ∈ measures := by revert k; decide
    unfold limit limitAfter
    rw [hget k hm, hsame k (by revert k; decide)]
    rcases hg : Obj.get pc k with _ | j
    · rfl
    · cases hj : j.isNull <;> simp [hj]
  constructor
  · intro j hj
    rw [hcounter .cni (by decide) (by decide)] at hj
    rw [hlimit .mni (by decide)]
    exact h.1 j hj
  · intro j hj
    rw [hcounter .cbs (by decide) (by decide)] at hj
    rw [hlimit .mbs (by decide)]
    exact h.2 j hj

/-- A container within its limits gives nothing up. -/
theorem deleteCinUnder_fits {o o' : Obj} {db db' : Db}
    (h1 : ∀ j, o.get .cni = some j → j.valueint ≤ limit o .mni defaultMaxNrInstances)
    (h2 : ∀ j, o.get .cbs = some j → j.valueint ≤ limit o .mbs defaultMaxByteSize)
    (he : deleteCinUnderCntMniMbs o db = some (o', db')) : o' = o ∧ db' = db := by
  unfold deleteCinUnderCntMniMbs at he
  simp only [Option.bind_eq_bind, Option.bind_eq_some_iff] at he
  obtain ⟨cni, hcni, cbs, hcbs, he⟩ := he
  rw [if_pos ⟨h1 cni hcni, h2 cbs hcbs⟩] at he
  cases he
  exact ⟨rfl, rfl⟩

namespace Mirror

variable {s s' : Server} {env : Env} {now : CStr} {req : Req} {p : Ptr} {n c : RTNode} {resp : Resp}

/-- `update_cnt`, where the container keeps its instances. -/
theorem updateCnt (h : Mirror s) {kept : Json → List Json} (hc : c ∈ s.tree.nodes) (hty : c.ty = .cnt)
    (hpc : Changes req.pc) (hfit : FitsAfter c.obj req.pc) (hacpi : s.AcpiSettled env.now (req.pc.get .acpi))
    (he : s.updateCnt env kept req c = some (s', resp)) : Mirror s' := by
  unfold Server.updateCnt at he
  split at he
  · cases he; exact h
  · rename_i hkeys
    split at he
    · cases he
      rw [Server.afterChecks_settled hacpi]
      exact h
    · simp only [Option.bind_eq_bind, Option.bind_eq_some_iff, Option.pure_def, Option.some.injEq] at he
      obtain ⟨st, -, ri₁, hri₁, ⟨obj, db⟩, hev, ri₂, hri₂, he⟩ := he
      cases he
      obtain ⟨hcm, ri, hri, hne, hh⟩ := h.held c hc hty
      obtain ⟨hb, hsame⟩ := hpc.applied kept c.obj env.now (le_cInt (st.valueint + 1)) (cInt_le _)
      obtain ⟨hf1, hf2⟩ := hfit.merged hcm hb hsame hpc
      obtain ⟨rfl, rfl⟩ := deleteCinUnder_fits hf1 hf2 hev
      obtain ⟨hm, -⟩ := hcm.updateResource hb
      have hbri : Obj.get ((processAnncAtUpdate kept c.obj ((validateAa .update req.pc .cnt).add .st
          (.int (cInt (st.valueint + 1))))).1.add .lt (.str env.now)) .ri = none := by
        rw [(CntInv.updateCnt_body kept c.obj req.pc (.int (cInt (st.valueint + 1))) (.str env.now)).1 .ri (by decide)]
        simp only [cntInvalidKeys, List.any_cons, Bool.or_eq_true, not_or, Assoc.has] at hkeys
        simpa using hkeys.2.2.1
      have hmri : (c.obj.updateResource _).get .ri = some (.str ri) := (Obj.get_updateResource_of_not_has hbri).trans hri
      obtain rfl : ri₁ = ri := Option.some.inj (hri₁.symm.trans (Obj.str_of_get hri))
      obtain rfl : ri₂ = ri₁ := Option.some.inj (hri₂.symm.trans (Obj.str_of_get hmri))
      -- the row loses its `at` first, when nothing is announced any more
      have hat : ∀ b : Bool, RowsHold (if b = true then s.db.dbUpdateResource [(.at, .null)] ri₂ else s.db) ri₂ c.obj ∧
          ∀ q : CStr, q ≠ ri₂ → ∀ r : Row, r.ri = some q →
            (r ∈ (if b = true then s.db.dbUpdateResource [(.at, .null)] ri₂ else s.db) ↔ r ∈ s.db) := by
        intro b
        have hnone : ∀ k ∈ measures, Obj.get [(.at, .null)] k = none := by
          intro k hk
          have : Attr.at ≠ k := by
            rintro rfl
            exact absurd hk (by decide)
          simp [this]
        cases b with
        | false => exact ⟨hh, fun _ _ _ _ => Iff.rfl⟩
        | true => exact ⟨.update (.inl rfl) hne hh.found fun r hr hrri => ⟨(hh.rows r hr hrri).1,
            (hh.rows r hr hrri).2.other hnone⟩, fun q hq r hr => mem_dbUpdateResource_ne (.inl rfl) hr hq⟩
      obtain ⟨hh₁, hother⟩ := hat (processAnncAtUpdate kept c.obj ((validateAa .update req.pc .cnt).add .st
        (.int (cInt (st.valueint + 1))))).2
      refine h.write hc hri hm hmri hne ?_ ?_ rfl rfl
      · exact .update (.inl hbri) hne hh₁.found fun r hr hrri => ⟨(hh₁.rows r hr hrri).1, (hh₁.rows r hr hrri).2.body hcm hb⟩
      · intro q hq r hr
        exact (mem_dbUpdateResource_ne (.inl hbri) hr hq).trans (hother q hq r hr)

end Mirror

/-! ## Deletion -/

/-- The pattern of a DELETE statement meets no row of a container. -/
def Misses (s : Server) (uri : CStr) : Prop := ∀ r ∈ s.db, s.ofContainer r → like (uri ++ ['/', '%']) r.uri = false

instance (s : Server) (uri : CStr) : Decidable (Misses s uri) := inferInstanceAs (Decidable (∀ r ∈ s.db, _ → _))

namespace Mirror

variable {s s' : Server} {env : Env} {now : CStr} {req : Req} {p : Ptr} {n c : RTNode} {resp : Resp}

/-- A node that is no container has none of their identifiers. -/
theorem spares (h : Mirror s) (hp : p.deref s = some n) (hok : p.Ok s.db) (hty : n.ty ≠ .cnt) (hm : Misses s n.uri) :
    Spares s n.uri n.ri := by
  rintro r hr ⟨c, hc, hcty, hri⟩
  refine ⟨?_, hm r hr ⟨c, hc, hcty, hri⟩⟩
  rw [hri]
  exact h.apart_deref hp hok hty c hc hcty

theorem ri_ne_of_row (h : Mirror s) {r : Row} (hr : r ∈ s.db) (hty : r.ty ≠ .cnt) :
    ∀ c ∈ s.tree.nodes, c.ty = .cnt → r.ri ≠ c.ri := by
  intro c hc hcty he
  obtain ⟨ri, hri, -, -, hh⟩ := h.ri_of hc hcty
  exact hty (hh.rows r hr (he.trans hri)).1

theorem spares_row (h : Mirror s) {r : Row} (hr : r ∈ s.db) (hty : r.ty ≠ .cnt) (hm : Misses s r.uri) : Spares s r.uri r.ri := by
  rintro q hq ⟨c, hc, hcty, hri⟩
  refine ⟨?_, hm q hq ⟨c, hc, hcty, hri⟩⟩
  rw [hri]
  exact h.ri_ne_of_row hr hty c hc hcty

/-- The end of `delete_onem2m_resource` for an instance. -/
theorem freeCin (h : Mirror s) (hcin : ∀ i, p = .inTree i → ∀ m ∈ s.tree.nodes, m.id = i → m.ty = .cin) :
    Mirror (s.freeCin p n) := by
  unfold Server.freeCin
  split
  · split
    · rename_i i cnt _
      split
      · exact h.freeRtnode i
      · rename_i o ho
        -- the latest instance left is one of the rows
        obtain ⟨r, hr, ht, rfl⟩ := Server.laol_row ho
        refine h.setObj_other (fun m hm hid => by rw [hcin i rfl m hm hid]; decide) fun c hc hcty he => ?_
        exact h.ri_ne_of_row hr (by rw [ht]; decide) c hc hcty ((Obj.str_congr (get_load (by decide))).symm.trans he)
    · exact h.freePtr _
  · exact h.freePtr _

/-- The deletion of a content instance. -/
theorem deleteCin (h : Mirror s) (hp : p.deref s = some n) (hok : p.Ok s.db) (hpar : ∀ m q, p = .loose m q → q.Ok s.db)
    (hn : n.ty = .cin) (hmember : n.memberOf = []) (hm : Misses s n.uri)
    (he : s.deleteOnem2mResource now req p = some (s', resp)) : Mirror s' := by
  have hspare := h.spares hp hok (by rw [hn]; decide) hm
  unfold Server.deleteOnem2mResource Server.deleteProcess at he
  rw [hp, h.shape.deleteOrder_cin hp hn] at he
  dsimp only at he
  rw [if_neg (by rw [hn]; decide)] at he
  simp only [List.foldlM_cons, List.foldlM_nil, Option.bind_eq_bind, Option.bind_eq_some_iff, Option.pure_def,
    Option.some.injEq] at he
  obtain ⟨s₃, ⟨_, hone, rfl⟩, he⟩ := he
  unfold Server.deleteOne Server.deleteSwitch at hone
  simp only [hp, hn, Option.bind_eq_bind, Option.bind_eq_some_iff] at hone
  obtain ⟨s₁, hdrop, hone⟩ := hone
  have hk₁ := h.dropCnt (Ptr.parent_ok hpar) hdrop
  rw [Server.leaveGroups_nil s₁ hmember, hk₁.mirror.shape.notifyDelete now req (Ptr.parent_ok hpar)] at hone
  cases hone
  cases he
  have hk₃ := hk₁.trans (hk₁.mirror.dbDelete (n := n) (hk₁.steady.spares hspare))
  simp only [hn]
  refine hk₃.mirror.freeCin ?_
  rintro i rfl m hm hid
  obtain ⟨m₀, hm₀, hid₀, hty₀, -⟩ := hk₃.steady.nodes m hm
  obtain ⟨hnm, hni⟩ := Server.node?_mem hp
  rw [hty₀, h.shape.ids.eq hm₀ hnm (hid₀.symm.trans (hid.trans hni.symm)), hn]

end Mirror

/-! ## Runs -/

/-- Every container has a row, and each row of it gives the container's measures. -/
def Server.InStep (s : Server) : Prop :=
  ∀ c ∈ s.tree.nodes, c.ty = .cnt → (∃ r ∈ s.db, r.ty = .cnt ∧ r.ri = c.ri) ∧
    ∀ r ∈ s.db, r.ty = .cnt → r.ri = c.ri → ∀ k ∈ measures, r.obj.get k = c.obj.get k

/-- The rows give the numbers of the objects, read as `int`. -/
def Server.CountsRight (s : Server) : Prop :=
  ∀ c ∈ s.tree.nodes, c.ty = .cnt → ∀ r ∈ s.db, r.ty = .cnt → r.ri = c.ri → ∀ k ∈ measures,
    (r.obj.get k).map Json.valueint = (c.obj.get k).map Json.valueint

instance (s : Server) : Decidable s.CountsRight :=
  inferInstanceAs (Decidable (∀ c ∈ s.tree.nodes, _ → ∀ r ∈ s.db, _ → _ → ∀ k ∈ measures, _))

theorem Server.InStep.countsRight {s : Server} (h : s.InStep) : s.CountsRight :=
  fun c hc hty r hr hrty hri k hk => congrArg (Option.map Json.valueint) ((h c hc hty).2 r hr hrty hri k hk)

namespace CntRequest

/-- A DELETE is of a content instance. -/
def deletesCin (s : Server) : CntRequest → Bool
  | deleteCin req => (s.named req.target).all fun n => n.ty = .cin
  | _ => true

/-- The requests that keep row and object in step, by the state they meet: a limit is a count and is given
once, an update leaves the container its instances, no DELETE statement meets the row of a container, and no lookup
meets an expired resource. -/
def Aligned (env : Env) (s : Server) : CntRequest → Prop
  | createCnt req => s.Settled env.now req.target ∧ s.AcpiSettled env.now (req.pc.get .acpi) ∧ Placed env s req .cnt ∧
      Describes req.pc
  | createCin req => s.Settled env.now req.target ∧ Placed env s req .cin ∧ ∀ c ∈ s.named req.target, c.ty = .cnt →
      (∀ n ∈ (s.children c.id).roots, n.ty = .cin → Misses s n.uri) ∧
        ∀ ri ∈ c.ri, ∀ r ∈ s.db.instances .cin ri, Misses s r.uri
  | updateCnt _ req => s.Settled env.now req.target ∧ s.AcpiSettled env.now (req.pc.get .acpi) ∧
      ∀ c ∈ s.named req.target, c.ty = .cnt → Changes req.pc ∧ FitsAfter c.obj req.pc
  | deleteCin req => s.Settled env.now req.target ∧ ∀ n ∈ s.named req.target, n.memberOf = [] ∧ Misses s n.uri

instance (env : Env) (s : Server) : (r : CntRequest) → Decidable (r.Aligned env s)
  | createCnt req => inferInstanceAs (Decidable (s.Settled env.now req.target ∧ _ ∧ _))
  | createCin req => inferInstanceAs (Decidable (s.Settled env.now req.target ∧ _ ∧ ∀ c ∈ s.named req.target, _ →
      (∀ n ∈ (s.children c.id).roots, _ → _) ∧ ∀ ri ∈ c.ri, ∀ r ∈ s.db.instances .cin ri, _))
  | updateCnt _ req =>
    inferInstanceAs (Decidable (s.Settled env.now req.target ∧ _ ∧ ∀ c ∈ s.named req.target, _ → _))
  | deleteCin req => inferInstanceAs (Decidable (s.Settled env.now req.target ∧ ∀ n ∈ s.named req.target, _ ∧ _))

end CntRequest

/-- One request of a run that meets the condition. -/
def AlignedStep (s s' : Server) : Prop :=
  ∃ env r resp, CntRequest.deletesCin s r = true ∧ r.Aligned env s ∧ s.serve env r = some (s', resp)

section Step

variable {s s' : Server} {env : Env} {req : Req} {resp : Resp}

theorem mirror_boot (h : Booted s) : Mirror s := by
  have hshape := (cntInv_boot h).shape
  have hnone : ∀ c ∈ s.tree.nodes, c.ty ≠ .cnt := by
    obtain ⟨env, h⟩ := h
    obtain ⟨cb, acp, r, q, ht, -, -, -, -, hc, -, -, -, -, -, -, -, ha, -⟩ := boot_some h
    rw [ht]
    intro c hc'
    have : c = cb ∨ c = acp := by simpa [Forest.nodes] using hc'
    rcases this with rfl | rfl
    · rw [hc]; decide
    · rw [ha]; decide
  exact ⟨hshape, fun c hc hty => absurd hty (hnone c hc), fun c hc hty => absurd hty (hnone c hc)⟩

theorem mirror_createCnt (h : Mirror s) (hr : CntRequest.Aligned env s (.createCnt req))
    (he : s.serve env (.createCnt req) = some (s', resp)) : Mirror s' := by
  obtain ⟨hset, hacpi, hplace, hd⟩ := hr
  rcases Server.onTarget_some hset he with rfl | ⟨p, hp, -, he⟩
  · exact h
  · rcases Server.createOnem2mResource_some he with rfl | ⟨-, hchild, -, s₁, hc, hs'⟩
    · exact h
    · have hcin : p.ty ≠ .cin := by
        intro hcin
        rw [hcin] at hchild
        cases hchild
      have h₁ := h.createCnt hp hcin hplace hd hacpi hc
      rcases hs' with rfl | rfl
      · exact h₁
      · exact h₁.incrementParentStatetag (p := .inTree p.id) _ trivial

theorem mirror_createCin (h : Mirror s) (hr : CntRequest.Aligned env s (.createCin req))
    (he : s.serve env (.createCin req) = some (s', resp)) : Mirror s' := by
  obtain ⟨hset, hplace, hcond⟩ := hr
  rcases Server.onTarget_some hset he with rfl | ⟨p, hp, hpn, he⟩
  · exact h
  · rcases Server.createOnem2mResource_some he with rfl | ⟨-, hchild, -, s₁, hc, hs'⟩
    · exact h
    · have hty : p.ty = .cnt := by
        have hann := h.shape.original p hp
        revert hchild hann
        cases p.ty <;> decide
      obtain ⟨hkids, hrows⟩ := hcond p hpn hty
      have h₁ := h.createCin hp hty hplace (fun n hn hnty => ?_) (fun ri hri r hr => ?_) hc
      · rcases hs' with rfl | rfl
        · exact h₁
        · exact h₁.incrementParentStatetag (p := .inTree p.id) _ trivial
      · have hmem := Server.mem_of_mem_children hn
        exact h.spares (p := .inTree n.id) (Server.node?_eq h.shape.ids hmem) trivial (by rw [hnty]; decide)
          (hkids n hn hnty)
      · obtain ⟨hr', ht, -⟩ := Db.mem_instances.mp hr
        exact h.spares_row hr' (by rw [ht]; decide) (hrows ri hri r hr)

theorem mirror_updateCnt {kept : Json → List Json} (h : Mirror s) (hr : CntRequest.Aligned env s (.updateCnt kept req))
    (he : s.serve env (.updateCnt kept req) = some (s', resp)) : Mirror s' := by
  obtain ⟨hset, hacpi, hcond⟩ := hr
  unfold Server.serve Server.requestUpdateCnt at he
  rcases Server.onTarget_some hset he with rfl | ⟨c, hc, hcn, he⟩
  · exact h
  · split at he
    · cases he; exact h
    · rename_i hty
      rw [not_not] at hty
      split at he
      · cases he; exact h
      · split at he
        · cases he; exact h
        · obtain ⟨hpc, hfit⟩ := hcond c hcn hty
          exact h.updateCnt hc hty hpc hfit hacpi he

theorem mirror_deleteCin (h : Mirror s) (hd : CntRequest.deletesCin s (.deleteCin req) = true)
    (hr : CntRequest.Aligned env s (.deleteCin req)) (he : s.serve env (.deleteCin req) = some (s', resp)) : Mirror s' := by
  obtain ⟨hset, hcond⟩ := hr
  unfold Server.serve Server.requestDelete at he
  rcases Server.findRtnode_settled hset with hf | ⟨n, hn, hf⟩
  · simp only [hf] at he
    cases he
    exact h
  · simp only [hf] at he
    have hp : (s.resolve req.target).deref s = some n := hn
    rw [hp] at he
    have hcin : n.ty = .cin := by
      unfold CntRequest.deletesCin at hd
      simpa [hn] using hd
    exact h.deleteCin hp (Server.resolve_ok _) (fun _ _ => Server.resolve_parent_ok) hcin (hcond n hn).1 (hcond n hn).2 he

/-- One step keeps the agreement. -/
theorem mirror_step (h : Mirror s) (hs : AlignedStep s s') : Mirror s' := by
  obtain ⟨env, r, resp, hd, hr, he⟩ := hs
  cases r with
  | createCnt req => exact mirror_createCnt h hr he
  | createCin req => exact mirror_createCin h hr he
  | updateCnt kept req => exact mirror_updateCnt h hr he
  | deleteCin req => exact mirror_deleteCin h hd hr he

theorem Mirror.inStep (h : Mirror s) : s.InStep := by
  intro c hc hty
  obtain ⟨hm, ri, hri, -, hh⟩ := h.held c hc hty
  have hcri : c.ri = some ri := Obj.str_of_get hri
  obtain ⟨r, hr, hrri⟩ := hh.found
  refine ⟨⟨r, hr, (hh.rows r hr hrri).1, hrri.trans hcri.symm⟩, fun q hq _ hqri k hk => ?_⟩
  rw [(hh.rows q hq (hqri.trans hcri)).2 k hk]
  rcases hg : Obj.get c.obj k with _ | v
  · rfl
  · exact column_count (hm.count k hk v hg)

end Step

/-- In every run whose requests meet the condition, the row of every container is in step with its object in
every state reached. -/
theorem inStep_of_aligned_run {s : Server} (h : Reach Booted AlignedStep s) : s.InStep :=
  (h.inv (I := Mirror) (fun _ => mirror_boot) fun _ _ => mirror_step).inStep

/-! ## Two runs -/

/-- A container with two instances, whose limit is raised, and one of them deleted. -/
def roomyContainer : List CntRequest :=
  oneInstance ++ [.updateCnt (fun _ => []) (adminReq .update "TinyIoT/c" .cnt [(.mni, .int 5)]),
    .createCin (adminReq .create "TinyIoT/c" .cin [(.con, .str "de".toList)]),
    .deleteCin (adminReq .delete "TinyIoT/c/ol" .cin [])]

theorem inStep_of_aligned_run_roomy : ∃ s, Reach Booted AlignedStep s ∧
    s.db.count .cin "3-20240101T0000000001".toList = 1 ∧ s.InStep := by
  have hrun : ((boot firstDay).bind (roomyContainer.foldlM fun s r =>
      if CntRequest.deletesCin s r = true ∧ r.Aligned firstDay s then (s.serve firstDay r).map (·.1) else none)).any
      (fun s => decide (s.db.count .cin "3-20240101T0000000001".toList = 1)) = true := by decide +kernel
  obtain ⟨s, hs, hc⟩ := (Option.any_eq_true _ _).mp hrun
  obtain ⟨s₀, hb, hs⟩ := Option.bind_eq_some_iff.mp hs
  have hr : Reach Booted AlignedStep s := by
    refine Reach.of_foldlM ?_ roomyContainer (.start ⟨firstDay, hb⟩) hs
    intro s r s' hs'
    split at hs'
    · rename_i hok
      obtain ⟨⟨s₁, resp⟩, he, rfl⟩ := Option.map_eq_some_iff.mp hs'
      exact ⟨firstDay, r, resp, hok.1, hok.2, he⟩
    · cases hs'
  exact ⟨s, hr, of_decide_eq_true hc, inStep_of_aligned_run hr⟩

/-- A container with two instances, whose limit becomes one. -/
def cutContainer : List CntRequest :=
  oneInstance ++ [.createCin (adminReq .create "TinyIoT/c" .cin [(.con, .str "de".toList)]),
    .updateCnt (fun _ => []) (adminReq .update "TinyIoT/c" .cnt [(.mni, .int 1)])]

/-- The eviction counts the state tag on, and the body that is written last does not. -/
theorem not_inStep_after_eviction : ¬ ∀ s, Reach Booted CntStep s → s.InStep := by
  intro h
  have hrun : ((boot firstDay).bind (cutContainer.foldlM fun s r =>
      if CntRequest.admissible s r = true then (s.serve firstDay r).map (·.1) else none)).any
      (fun s => !decide s.CountsRight) = true := by decide +kernel
  obtain ⟨s, hs, hc⟩ := (Option.any_eq_true _ _).mp hrun
  obtain ⟨s₀, hb, hs⟩ := Option.bind_eq_some_iff.mp hs
  have hr : Reach Booted CntStep s := by
    refine Reach.of_foldlM ?_ cutContainer (.start ⟨firstDay, hb⟩) hs
    intro s r s' hs'
    split at hs'
    · rename_i hok
      obtain ⟨⟨s₁, resp⟩, he, rfl⟩ := Option.map_eq_some_iff.mp hs'
      exact ⟨firstDay, r, resp, hok, he⟩
    · cases hs'
  simp [(h s hr).countsRight] at hc

end TinyIoT
