/-
The row and the object of a container through the handlers: counting an instance in and out, eviction,
creation and update of a container, creation and deletion of an instance.
-/
import TinyIoT.Container.Mirror

namespace TinyIoT

/-! ## Rows that stay -/

section

variable {K : Row → Prop} {db db' : Db}

/-- The DELETE statement with this pattern and identifier meets no row of a kind. -/
def Avoids (K : Row → Prop) (db : Db) (uri : CStr) (ri : Option CStr) : Prop :=
  ∀ r ∈ db, K r → ri ≠ r.ri ∧ like (uri ++ ['/', '%']) r.uri = false

/-- Rows go, none of the kind. -/
structure Leaves (K : Row → Prop) (db db' : Db) : Prop where
  sub : ∀ r ∈ db', r ∈ db
  keep : ∀ r ∈ db, K r → r ∈ db'

theorem Leaves.trans {db₁ : Db} (h₁ : Leaves K db db₁) (h₂ : Leaves K db₁ db') : Leaves K db db' :=
  ⟨fun r hr => h₁.sub r (h₂.sub r hr), fun r hr hk => h₂.keep r (h₁.keep r hr hk) hk⟩

theorem leaves_dbDelete {n : RTNode} (h : Avoids K db n.uri n.ri) : Leaves K db (db.dbDeleteOnem2mResource n) := by
  refine ⟨fun r hr => Db.mem_dbDelete hr, fun r hr hk => ?_⟩
  obtain ⟨hne, hl⟩ := h r hr hk
  unfold Db.dbDeleteOnem2mResource
  split
  · exact hr
  · rename_i ri hri
    refine List.mem_filter.mpr ⟨hr, ?_⟩
    have : ¬ r.ri = some ri := fun he => hne (hri.trans he.symm)
    simp [Db.deleteMatches, hl, this]

end

/-! ## What a step may do to other containers -/

/-- A row of a container in the tree. -/
def Server.ofContainer (s : Server) (r : Row) : Prop := ∃ c ∈ s.tree.nodes, c.ty = .cnt ∧ r.ri = c.ri

instance (s : Server) (r : Row) : Decidable (s.ofContainer r) :=
  inferInstanceAs (Decidable (∃ c ∈ s.tree.nodes, _))

/-- The DELETE statement with this pattern and identifier meets no row of a container. -/
def Spares (s : Server) (uri : CStr) (ri : Option CStr) : Prop := Avoids s.ofContainer s.db uri ri

/-- The containers of `s'` are those of `s`, with rows of the same uri. -/
structure Steady (s s' : Server) : Prop where
  nodes : ∀ n ∈ s'.tree.nodes, ∃ m ∈ s.tree.nodes, n.id = m.id ∧ n.ty = m.ty ∧ n.ri = m.ri
  rows : ∀ r ∈ s'.db, s'.ofContainer r → ∃ q ∈ s.db, q.ri = r.ri ∧ q.uri = r.uri
  nextId : s'.nextId = s.nextId

namespace Steady

variable {s s₁ s₂ : Server}

theorem refl (s : Server) : Steady s s :=
  ⟨fun n hn => ⟨n, hn, rfl, rfl, rfl⟩, fun r hr _ => ⟨r, hr, rfl, rfl⟩, rfl⟩

theorem ofContainer (h : Steady s s₁) {r q : Row} (hr : s₁.ofContainer r) (he : q.ri = r.ri) : s.ofContainer q := by
  obtain ⟨c, hc, hty, hri⟩ := hr
  obtain ⟨d, hd, -, hdty, hdri⟩ := h.nodes c hc
  exact ⟨d, hd, hdty.symm.trans hty, he.trans (hri.trans hdri)⟩

theorem trans (h₁ : Steady s s₁) (h₂ : Steady s₁ s₂) : Steady s s₂ := by
  refine ⟨fun n hn => ?_, fun r hr hof => ?_, h₂.nextId.trans h₁.nextId⟩
  · obtain ⟨m, hm, h1, h2, h3⟩ := h₂.nodes n hn
    obtain ⟨l, hl, h4, h5, h6⟩ := h₁.nodes m hm
    exact ⟨l, hl, h1.trans h4, h2.trans h5, h3.trans h6⟩
  · obtain ⟨q, hq, hqri, hquri⟩ := h₂.rows r hr hof
    obtain ⟨t, ht, htri, hturi⟩ := h₁.rows q hq (h₂.ofContainer hof hqri)
    exact ⟨t, ht, htri.trans hqri, hturi.trans hquri⟩

theorem spares (h : Steady s s₁) {uri : CStr} {ri : Option CStr} (hs : Spares s uri ri) : Spares s₁ uri ri := by
  intro r hr hof
  obtain ⟨q, hq, hqri, hquri⟩ := h.rows r hr hof
  have := hs q hq (h.ofContainer hof hqri)
  rwa [hqri, hquri] at this

/-- Nodes are freed and rows deleted. -/
theorem shrink (ht : ∀ n ∈ s₁.tree.nodes, n ∈ s.tree.nodes) (hr : ∀ r ∈ s₁.db, r ∈ s.db) (hn : s₁.nextId = s.nextId) :
    Steady s s₁ :=
  ⟨fun n hn => ⟨n, ht n hn, rfl, rfl, rfl⟩, fun r hm _ => ⟨r, hr r hm, rfl, rfl⟩, hn⟩

theorem setObj_nodes (hids : s.NodupIds) {n : RTNode} {o : Obj} (hn : n ∈ s.tree.nodes) (hri : o.str .ri = n.ri) :
    ∀ m ∈ (s.setObj n.id o).tree.nodes, ∃ l ∈ s.tree.nodes, m.id = l.id ∧ m.ty = l.ty ∧ m.ri = l.ri := by
  intro m hm
  rcases Server.mem_nodes_setObj hids hn hm with rfl | ⟨hm, -⟩
  · exact ⟨n, hn, rfl, rfl, hri⟩
  · exact ⟨m, hm, rfl, rfl, rfl⟩

end Steady

/-- A write without `uri` keeps the identifiers and the uris of the rows. -/
theorem of_mem_dbUpdateResource_placed {db : Db} {o : Obj} {ri : CStr} (h : Addresses o ri) (hne : ri ≠ [])
    (hu : o.get .uri = none) {r : Row} (hr : r ∈ db.dbUpdateResource o ri) : ∃ q ∈ db, q.ri = r.ri ∧ q.uri = r.uri := by
  obtain ⟨q, hq, ⟨hqri, rfl⟩ | ⟨-, rfl⟩⟩ := mem_dbUpdateResource.mp hr
  · refine ⟨q, hq, hqri.trans (h.ri_eq hne hqri).symm, ?_⟩
    have : o.str .uri = none := by
      unfold Obj.str
      rw [hu]
      rfl
    show q.uri = (o.str .uri).getD q.uri
    rw [this]
    rfl
  · exact ⟨r, hq, rfl, rfl⟩

/-- A step that keeps the agreement and the place of the containers. -/
structure Kept (s s' : Server) : Prop where
  mirror : Mirror s'
  steady : Steady s s'

theorem Kept.trans {s s₁ s₂ : Server} (h₁ : Kept s s₁) (h₂ : Kept s₁ s₂) : Kept s s₂ :=
  ⟨h₂.mirror, h₁.steady.trans h₂.steady⟩

/-- An object that replaces the one of a container: measured, with its identifier and no measure less. -/
structure Follows (c o : Obj) : Prop where
  measured : Measured o
  ri : o.get .ri = c.get .ri
  none : ∀ k ∈ measures, o.get k = none → c.get k = none

namespace Follows

variable {c o : Obj}

theorem refl (h : Measured c) : Follows c c := ⟨h, rfl, fun _ _ h => h⟩

theorem set (h : Follows c o) {k : Attr} {v : Json} (hk : k ∈ measures) (hv : v.isCount = true) : Follows c (o.set k v) := by
  obtain ⟨hm, hn⟩ := h.measured.set hk hv
  refine ⟨hm, (Assoc.get_set_ne ?_).trans h.ri, fun k' hk' he => h.none k' hk' (hn k' he)⟩
  rintro rfl
  exact absurd hk (by decide)

end Follows

theorem follows_bumpCnt {c cin o : Obj} {sign : Int} (hc : Measured c) (h : bumpCnt c cin sign = some o) : Follows c o := by
  unfold bumpCnt at h
  simp only [Option.bind_eq_bind, Option.bind_eq_some_iff, Option.pure_def, Option.some.injEq] at h
  obtain ⟨cni, hcni, cbs, hcbs, st, hst, cs, -, rfl⟩ := h
  have h₁ := (Follows.refl hc).set (k := .cni) (by decide) (isCount_cInt (hc.count .cni (by decide) cni hcni)
    (cni.valueint + sign))
  have h₂ := h₁.set (k := .cbs) (by decide) (isCount_cInt (hc.count .cbs (by decide) cbs hcbs)
    (cbs.valueint + sign * cs.valueint))
  exact h₂.set (k := .st) (by decide) (isCount_cInt (hc.count .st (by decide) st hst) (st.valueint + 1))

theorem get_ri_bumpCnt {c cin o : Obj} {sign : Int} (h : bumpCnt c cin sign = some o) : o.get .ri = c.get .ri := by
  unfold bumpCnt at h
  simp only [Option.bind_eq_bind, Option.bind_eq_some_iff, Option.pure_def, Option.some.injEq] at h
  obtain ⟨cni, -, cbs, -, st, -, cs, -, rfl⟩ := h
  show Assoc.get _ _ = _
  rw [Assoc.get_set_ne (by decide), Assoc.get_set_ne (by decide), Assoc.get_set_ne (by decide)]

namespace Mirror

variable {s s' : Server} {env : Env} {now : CStr} {req : Req} {p : Ptr} {n c : RTNode}

/-- The object of a container is assigned and written, once or twice. -/
theorem rewrite (h : Mirror s) {ri : CStr} {o : Obj} (hc : c ∈ s.tree.nodes) (hri : c.obj.get .ri = some (.str ri))
    (hty : c.ty = .cnt) (hf : Follows c.obj o) (ht : s'.tree = (s.setObj c.id o).tree) (hn : s'.nextId = s.nextId)
    (hdb : s'.db = s.db.dbUpdateResource o ri ∨ s'.db = Db.dbUpdateResource (s.db.dbUpdateResource o ri) o ri) :
    Kept s s' := by
  obtain ⟨q, -, hq, hne, hh⟩ := h.ri_of hc hty
  obtain rfl : q = ri := by
    cases hri.symm.trans hq
    rfl
  have hori : o.get .ri = some (.str q) := hf.ri.trans hq
  have h₁ : RowsHold (s.db.dbUpdateResource o q) q o := .update (.inr hori) hne hh.found fun r hr hrri =>
    ⟨(hh.rows r hr hrri).1, (hh.rows r hr hrri).2.whole hf.none⟩
  have h₂ : RowsHold (Db.dbUpdateResource (s.db.dbUpdateResource o q) o q) q o := .update (.inr hori) hne h₁.found
    fun r hr hrri => ⟨(h₁.rows r hr hrri).1, (h₁.rows r hr hrri).2.whole fun _ _ hk => hk⟩
  have hplaced := fun (db : Db) (r : Row) (hr : r ∈ db.dbUpdateResource o q) =>
    of_mem_dbUpdateResource_placed (.inr hori) hne hf.measured.unplaced hr
  refine ⟨h.write hc hq hf.measured hori hne ?_ ?_ ht hn, ?_, ?_, hn⟩
  · rcases hdb with hdb | hdb <;> rw [hdb] <;> assumption
  · intro x hx r hr
    have hother : ∀ db : Db, r ∈ db.dbUpdateResource o q ↔ r ∈ db := fun _ => mem_dbUpdateResource_ne (.inr hori) hr hx
    rcases hdb with hdb | hdb
    · rw [hdb, hother]
    · rw [hdb, hother, hother]
  · rw [ht]
    exact Steady.setObj_nodes h.shape.ids hc (Obj.str_congr hf.ri)
  · intro r hr _
    rcases hdb with hdb | hdb
    · exact hplaced _ r (hdb ▸ hr)
    · obtain ⟨r₁, hr₁, h1, h2⟩ := hplaced _ r (hdb ▸ hr)
      obtain ⟨r₂, hr₂, h3, h4⟩ := hplaced _ r₁ hr₁
      exact ⟨r₂, hr₂, h3.trans h1, h4.trans h2⟩

/-- A node is written back with its identifier. -/
theorem persist_kept (h : Mirror s) {o : Obj} (hp : p.deref s = some n) (hok : p.Ok s.db) (hori : o.get .ri = n.obj.get .ri)
    (hcnt : n.ty = .cnt → Follows n.obj o) : Kept s (s.persist p o) := by
  by_cases hty : n.ty = .cnt
  · have hn := mem_of_deref hp hok hty
    obtain ⟨ri, -, hri, -, -⟩ := h.ri_of hn hty
    obtain rfl : p = .inTree n.id := by
      cases p with
      | null => cases hp
      | inTree i => rw [(Server.node?_mem hp).2]
      | loose m q =>
        cases hp
        rcases hok.2 with hi | hi | hi <;> cases hty.symm.trans hi
    have hstr : o.str .ri = some ri := (Obj.str_congr hori).trans (Obj.str_of_get hri)
    refine h.rewrite hn hri hty (hcnt hty) (Server.persist_tree s n.id o) ?_ (.inl ?_)
    · unfold Server.persist Server.assign
      rw [hstr]
      rfl
    · unfold Server.persist Server.assign
      rw [hstr]
      rfl
  · have hstr : o.str .ri = n.ri := Obj.str_congr hori
    have hapart := h.apart_deref hp hok hty
    have hassign : Mirror (s.assign p o) ∧ Steady s (s.assign p o) := by
      cases p with
      | null => cases hp
      | loose m q => exact ⟨h, Steady.refl s⟩
      | inTree i =>
        obtain ⟨hn, rfl⟩ := Server.node?_mem hp
        refine ⟨h.setObj_other (fun m hm hid => ?_) fun c hc hcty => hstr ▸ hapart c hc hcty,
          Steady.setObj_nodes h.shape.ids hn hstr, fun r hr _ => ⟨r, hr, rfl, rfl⟩, rfl⟩
        rw [h.shape.ids.eq hm hn hid]
        exact hty
    have hother : ∀ c ∈ (s.assign p o).tree.nodes, c.ty = .cnt → n.ri ≠ c.ri := by
      intro c hc hcty
      obtain ⟨d, hd, -, hdty, hdri⟩ := hassign.2.nodes c hc
      rw [hdri]
      exact hapart d hd (hdty.symm.trans hcty)
    unfold Server.persist
    dsimp only
    split
    · exact ⟨hassign.1, hassign.2⟩
    · rename_i ri hri
      have haddr : Addresses o ri := .inr (Obj.get_of_str hri)
      refine Kept.trans ⟨hassign.1, hassign.2⟩ ⟨hassign.1.updateRow_other haddr fun c hc hcty he => ?_,
        fun m hm => ⟨m, hm, rfl, rfl, rfl⟩, ?_, rfl⟩
      · exact hother c hc hcty (hstr.symm.trans (hri.trans he.symm))
      · rintro r hr ⟨c, hc, hcty, hcri⟩
        obtain ⟨q, hq, -⟩ := hassign.1.ri_of hc hcty
        refine ⟨r, (mem_dbUpdateResource_ne haddr (hcri.trans hq) ?_).mp hr, rfl, rfl⟩
        rintro rfl
        exact hother c hc hcty (hstr.symm.trans (hri.trans hq.symm))

/-- `update_cnt_cin` with sign -1, whatever node it is told to adjust. -/
theorem dropCnt (h : Mirror s) {cin : Obj} (hok : p.Ok s.db) (he : s.dropCnt p cin = some s') : Kept s s' := by
  unfold Server.dropCnt at he
  split at he
  · cases he
    exact ⟨h, Steady.refl s⟩
  · rename_i n hp
    obtain ⟨o, ho, rfl⟩ := Option.map_eq_some_iff.mp he
    exact h.persist_kept hp hok (get_ri_bumpCnt ho) fun hty =>
      follows_bumpCnt (h.held n (mem_of_deref hp hok hty) hty).1 ho

/-- Rows go, none of a container. -/
theorem dropRows (h : Mirror s) {db : Db} (hl : Leaves s.ofContainer s.db db) : Kept s { s with db := db } := by
  refine ⟨h.frame (h.shape.congr rfl le_rfl) (fun _ hn => .inl hn) fun c hc hty r hr => ⟨hl.sub r, fun hm => ?_⟩,
    Steady.shrink (fun _ hn => hn) hl.sub rfl⟩
  exact hl.keep r hm ⟨c, hc, hty, hr⟩

theorem kept_freeRtnode (h : Mirror s) (i : Nat) : Kept s (s.freeRtnode i) :=
  ⟨h.freeRtnode i, Steady.shrink (fun _ hn => (Forest.nodes_remove_sublist _ _).subset hn) (fun _ hr => hr) rfl⟩

/-- `db_delete_onem2m_resource` that spares the containers. -/
theorem dbDelete (h : Mirror s) (hs : Spares s n.uri n.ri) : Kept s { s with db := s.db.dbDeleteOnem2mResource n } :=
  h.dropRows (leaves_dbDelete hs)

/-- A container that is adjusted has no instance of its identifier. -/
theorem dropCnt_cin (h : Mirror s) {i : Nat} {cin : Obj} (hty : ∀ n ∈ s.tree.nodes, n.id = i → n.ty = .cnt)
    (he : s.dropCnt (.inTree i) cin = some s') : ∀ r ∈ s'.db, r.ty = .cin → r ∈ s.db := by
  unfold Server.dropCnt at he
  split at he
  · cases he
    exact fun r hr _ => hr
  · rename_i n hp
    obtain ⟨hn, rfl⟩ := Server.node?_mem hp
    obtain ⟨o, ho, rfl⟩ := Option.map_eq_some_iff.mp he
    obtain ⟨ri, hri, hget, -, hh⟩ := h.ri_of hn (hty n hn rfl)
    have hori : o.str .ri = some ri := (Obj.str_congr (get_ri_bumpCnt ho)).trans hri
    intro r hr hcin
    unfold Server.persist at hr
    rw [hori] at hr
    obtain ⟨q, hq, ⟨hqri, rfl⟩ | ⟨-, rfl⟩⟩ := mem_dbUpdateResource.mp hr
    · rw [Server.assign_db] at hq
      exact absurd ((hh.rows q hq hqri).1.symm.trans hcin) (by decide)
    · rwa [Server.assign_db] at hq

/-- The removal of the expired instances. -/
theorem dropExpired {i : Nat} {l : List RTNode} (h : Mirror s) (hty : ∀ n ∈ s.tree.nodes, n.id = i → n.ty = .cnt)
    (hs : ∀ n ∈ l, Spares s n.uri n.ri) (he : Server.dropExpired (.inTree i) l s = some s') :
    Kept s s' ∧ ∀ r ∈ s'.db, r.ty = .cin → r ∈ s.db := by
  induction l generalizing s with
  | nil =>
    cases he
    exact ⟨⟨h, Steady.refl _⟩, fun r hr _ => hr⟩
  | cons n l ih =>
    simp only [Server.dropExpired, Option.bind_eq_bind] at he
    obtain ⟨s₁, h₁, he⟩ := Option.bind_eq_some_iff.mp he
    have hk₁ := h.dropCnt (p := .inTree i) trivial h₁
    have hk₂ := hk₁.trans (hk₁.mirror.dbDelete (n := n) (hk₁.steady.spares (hs n List.mem_cons_self)))
    have hk₃ := hk₂.trans (hk₂.mirror.kept_freeRtnode n.id)
    obtain ⟨hk₄, hcin⟩ := ih hk₃.mirror (fun m hm hid => by
      obtain ⟨l, hl, h1, h2, -⟩ := hk₃.steady.nodes m hm
      exact h2.trans (hty l hl (h1.symm.trans hid))) (fun m hm => hk₃.steady.spares (hs m (List.mem_cons_of_mem _ hm))) he
    exact ⟨hk₃.trans hk₄, fun r hr hrt => h.dropCnt_cin hty h₁ r (Db.mem_dbDelete (hcin r hr hrt)) hrt⟩

/-- The `mia` part of `update_cnt_cin`. -/
theorem expireByMia (h : Mirror s) (hc : c ∈ s.tree.nodes) (hty : c.ty = .cnt)
    (hs : ∀ n ∈ (s.children c.id).roots, n.ty = .cin → Spares s n.uri n.ri)
    (he : s.expireByMia env (.inTree c.id) n = some s') : Kept s s' ∧ ∀ r ∈ s'.db, r.ty = .cin → r ∈ s.db := by
  unfold Server.expireByMia at he
  split at he
  · cases he
    exact ⟨⟨h, Steady.refl _⟩, fun r hr _ => hr⟩
  · split at he
    · simp only [Option.bind_eq_bind] at he
      obtain ⟨expired, hexp, he⟩ := Option.bind_eq_some_iff.mp he
      refine h.dropExpired (fun m hm hid => ?_) (fun m hm => ?_) he
      · rw [h.shape.ids.eq hm hc hid]
        exact hty
      · unfold expiredCins at hexp
        dsimp only at hexp
        split at hexp
        · cases hexp
          have hm' := List.mem_filter.mp (List.mem_of_mem_filter (List.mem_of_mem_take hm))
          exact hs m hm'.1 (by simpa using hm'.2)
        · cases hexp
    · cases he
      exact ⟨⟨h, Steady.refl _⟩, fun r hr _ => hr⟩

end Mirror

/-! ## Eviction -/

section

variable {K : Row → Prop} {db db' : Db} {ri : CStr} {mni mbs cni cbs : Int}

theorem leaves_evictLoop {l : List RTNode} {x : Db × Int × Int} (h : ∀ n ∈ l, Avoids K db n.uri n.ri)
    (he : evictLoop mni mbs l db cni cbs = some x) : Leaves K db x.1 := by
  induction l generalizing db cni cbs with
  | nil =>
    cases he
    exact ⟨fun _ hr => hr, fun _ hr _ => hr⟩
  | cons n l ih =>
    unfold evictLoop at he
    split at he
    · simp only [Option.bind_eq_bind] at he
      obtain ⟨cs, -, he⟩ := Option.bind_eq_some_iff.mp he
      have h₁ := leaves_dbDelete (h n List.mem_cons_self)
      exact h₁.trans (ih (fun m hm r hr hk => h m (List.mem_cons_of_mem _ hm) r (h₁.sub r hr) hk) he)
    · cases he
      exact ⟨fun _ hr => hr, fun _ hr _ => hr⟩

/-- A number in the range of `int`. -/
def IntRange (n : Int) : Prop := intMin ≤ n ∧ n ≤ intMax

theorem intRange_cInt (n : Int) : IntRange (cInt n) := ⟨le_cInt n, cInt_le n⟩

theorem range_evictLoop {l : List RTNode} {x : Db × Int × Int} (h0 : IntRange cni) (h1 : IntRange cbs)
    (he : evictLoop mni mbs l db cni cbs = some x) : IntRange x.2.1 ∧ IntRange x.2.2 := by
  induction l generalizing db cni cbs with
  | nil =>
    cases he
    exact ⟨h0, h1⟩
  | cons n l ih =>
    unfold evictLoop at he
    split at he
    · simp only [Option.bind_eq_bind] at he
      obtain ⟨cs, -, he⟩ := Option.bind_eq_some_iff.mp he
      exact ih (intRange_cInt _) (intRange_cInt _) he
    · cases he
      exact ⟨h0, h1⟩

/-- The counters that evictions leave are `int` values. -/
theorem range_evictRows {x : Db × Int × Int} (h0 : IntRange cni) (h1 : IntRange cbs)
    (he : evictRows ri mni mbs db cni cbs = some x) : IntRange x.2.1 ∧ IntRange x.2.2 := by
  have hone : IntRange (evictOne ri mni db cni cbs).2.1 ∧ IntRange (evictOne ri mni db cni cbs).2.2 := by
    unfold evictOne
    split
    · exact ⟨intRange_cInt _, intRange_cInt _⟩
    · exact ⟨h0, h1⟩
  unfold evictRows at he
  dsimp only at he
  split at he
  · exact range_evictLoop hone.1 hone.2 he
  · cases he
    exact hone

theorem leaves_dbDeleteOneCinMni (h : ∀ r ∈ db.instances .cin ri, Avoids K db r.uri r.ri) :
    Leaves K db (db.dbDeleteOneCinMni ri).1 := by
  unfold Db.dbDeleteOneCinMni
  split
  · exact ⟨fun _ hr => hr, fun _ hr _ => hr⟩
  · rename_i r hr
    refine ⟨fun q hq => List.mem_of_mem_filter hq, fun q hq hk => List.mem_filter.mpr ⟨hq, ?_⟩⟩
    simpa using ((h r (firstMin_mem hr)) q hq hk).1.symm

theorem leaves_evictRows {x : Db × Int × Int} (h : ∀ r ∈ db.instances .cin ri, Avoids K db r.uri r.ri)
    (he : evictRows ri mni mbs db cni cbs = some x) : Leaves K db x.1 := by
  have h₁ : Leaves K db (evictOne ri mni db cni cbs).1 := by
    unfold evictOne
    split
    · exact leaves_dbDeleteOneCinMni h
    · exact ⟨fun _ hr => hr, fun _ hr _ => hr⟩
  unfold evictRows at he
  dsimp only at he
  split at he
  · refine h₁.trans (leaves_evictLoop (fun n hn => ?_) he)
    -- the listed nodes are instances of before
    obtain ⟨r, hr, hcr⟩ := List.mem_filterMap.mp hn
    obtain ⟨hr, ht, hpi⟩ := Db.mem_instances.mp hr
    obtain ⟨-, -, -, huri, -, -, -, hattr, -⟩ := createRtnode_some hcr
    have hnuri : n.uri = r.uri := huri
    have hnri : n.ri = r.ri := Obj.str_congr ((hattr .ri (by decide)).trans (get_load (by decide)))
    rw [hnuri, hnri]
    exact fun q hq hk => h r (Db.mem_instances.mpr ⟨h₁.sub r hr, ht, hpi⟩) q (h₁.sub q hq) hk
  · cases he
    exact h₁

/-- `delete_cin_under_cnt_mni_mbs`: rows of other kinds stay, and the object is written whenever it changes. -/
theorem deleteCinUnder_spec {c o o' : Obj} (hf : Follows c o) (hri : o.get .ri = some (.str ri))
    (h : ∀ r ∈ db.instances .cin ri, Avoids K db r.uri r.ri) (he : deleteCinUnderCntMniMbs o db = some (o', db')) :
    Follows c o' ∧ ∃ db₁, Leaves K db db₁ ∧ (db' = db₁ ∨ db' = db₁.dbUpdateResource o' ri) := by
  unfold deleteCinUnderCntMniMbs at he
  simp only [Option.bind_eq_bind] at he
  obtain ⟨cni, hcni, he⟩ := Option.bind_eq_some_iff.mp he
  obtain ⟨cbs, hcbs, he⟩ := Option.bind_eq_some_iff.mp he
  split at he
  · cases he
    exact ⟨hf, db, ⟨fun _ hr => hr, fun _ hr _ => hr⟩, .inl rfl⟩
  · rw [Obj.str_of_get hri, Option.bind_some] at he
    obtain ⟨x, hx, he⟩ := Option.bind_eq_some_iff.mp he
    obtain ⟨st, hst, he⟩ := Option.bind_eq_some_iff.mp he
    cases he
    obtain ⟨⟨h0, h1⟩, h2, h3⟩ := range_evictRows ⟨cni.valueint_ge, cni.valueint_le⟩ ⟨cbs.valueint_ge, cbs.valueint_le⟩ hx
    have h₁ := hf.set (k := .cni) (by decide) (isCount_assignInt (hf.measured.count .cni (by decide) cni hcni) h0 h1)
    have h₂ := h₁.set (k := .cbs) (by decide) (isCount_assignInt (hf.measured.count .cbs (by decide) cbs hcbs) h2 h3)
    have h₃ := h₂.set (k := .st) (by decide) (isCount_cInt (h₂.measured.count .st (by decide) st hst) (st.valueint + 1))
    exact ⟨h₃, x.1, leaves_evictRows h hx, .inr rfl⟩

end

end TinyIoT
