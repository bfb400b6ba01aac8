/-
The eviction of instances as a selection of rows: the instances it takes are the oldest ones, up to the one after
which the counters are within the limits, and a row that none of their DELETE statements meets stays.
-/
import TinyIoT.Container.Latest

namespace TinyIoT

theorem cInt_sub (a b : Int) : cInt (cInt a - b) = cInt (a - b) := Int.bmod_sub_bmod

theorem cInt_cInt (a : Int) : cInt (cInt a) = cInt a := Int.bmod_bmod

theorem cInt_valueint (j : Json) : cInt j.valueint = j.valueint := cInt_eq (Json.valueint_ge j) (Json.valueint_le j)

/-- The counters are within the limits once the first `i` instances are gone. -/
def Relieved (mni mbs cni cbs : Int) (i : Nat) (l : List Row) : Prop :=
  cInt (cni - i) ≤ mni ∧ cInt (cbs - contentBytes (l.take i)) ≤ mbs

instance (mni mbs cni cbs : Int) (i : Nat) : DecidablePred (Relieved mni mbs cni cbs i) := fun l =>
  inferInstanceAs (Decidable (cInt (cni - i) ≤ mni ∧ cInt (cbs - contentBytes (l.take i)) ≤ mbs))

section

variable {K : Row → Prop} {db db' : Db} {l : List Row} {r : Row} {ri : CStr} {mni mbs cni cbs : Int} {i : Nat}

theorem Relieved.tail (h : Relieved mni mbs cni cbs (i + 1) (r :: l)) :
    Relieved mni mbs (cInt (cni - 1)) (cInt (cbs - r.size)) i l := by
  unfold Relieved at h ⊢
  rw [cInt_sub, cInt_sub]
  rw [List.take_succ_cons, contentBytes_cons] at h
  push_cast at h
  rwa [show cni - 1 - (i : Int) = cni - (i + 1) by omega,
    show cbs - r.size - contentBytes (l.take i) = cbs - (r.size + contentBytes (l.take i)) by omega]

theorem Relieved.zero (hc : cInt cni = cni) (hb : cInt cbs = cbs) (h : Relieved mni mbs cni cbs 0 l) :
    cni ≤ mni ∧ cbs ≤ mbs := by
  unfold Relieved at h
  rw [Nat.cast_zero, Int.sub_zero, List.take_zero, show contentBytes [] = 0 by rfl, Int.sub_zero, hc, hb] at h
  exact h

theorem hits_of_ri {q : Row} (hr : r.ri ≠ none) (hq : q.ri = r.ri) : r.hits q = true := by
  obtain ⟨x, hx⟩ := Option.ne_none_iff_exists'.mp hr
  unfold Row.hits Db.deleteMatches
  rw [hq, hx]
  simp

/-- The rows that stay are those a test picks, and it picks all of `K`. -/
def KeepsAll (K : Row → Prop) (db db' : Db) : Prop := ∃ p : Row → Bool, db' = db.filter p ∧ ∀ q, K q → p q = true

theorem KeepsAll.refl : KeepsAll K db db := ⟨fun _ => true, (List.filter_eq_self.mpr fun _ _ => rfl).symm, fun _ _ => rfl⟩

theorem KeepsAll.trans {db₁ db₂ : Db} (h₁ : KeepsAll K db db₁) (h₂ : KeepsAll K db₁ db₂) : KeepsAll K db db₂ := by
  obtain ⟨p, rfl, hp⟩ := h₁
  obtain ⟨q, rfl, hq⟩ := h₂
  refine ⟨fun r => q r && p r, List.filter_filter .., fun r hr => ?_⟩
  dsimp only
  rw [hp r hr, hq r hr]
  rfl

/-- The loop takes no row that none of the statements for the first `i` instances meets. -/
theorem evictLoop_filter {x : Db × Int × Int} (hrn : ∀ r ∈ l, r.obj.str .rn ≠ none) (hc : cInt cni = cni)
    (hb : cInt cbs = cbs) (hstop : l.length ≤ i ∨ Relieved mni mbs cni cbs i l)
    (hK : ∀ r ∈ l.take i, ∀ q, K q → r.hits q = false)
    (he : evictLoop mni mbs (l.filterMap fun r => createRtnode 0 r.load .cin) db cni cbs = some x) :
    KeepsAll K db x.1 := by
  induction l generalizing db cni cbs i with
  | nil =>
    cases he
    exact .refl
  | cons r l ih =>
    obtain ⟨n, hn⟩ := exists_node (hrn r List.mem_cons_self)
    have hlist : ((r :: l).filterMap fun r => createRtnode 0 r.load .cin) =
        n :: l.filterMap fun r => createRtnode 0 r.load .cin := List.filterMap_cons_some hn
    rw [hlist] at he
    unfold evictLoop at he
    split at he
    · rename_i hover
      cases i with
      | zero =>
        rcases hstop with hlen | hmet
        · cases hlen
        · have := hmet.zero hc hb
          omega
      | succ j =>
        simp only [Option.bind_eq_bind] at he
        obtain ⟨cs, hcs, he⟩ := Option.bind_eq_some_iff.mp he
        have hsize : cs.valueint = r.size := by
          unfold Row.size
          rw [← (node_of_row hn).2.2, hcs]
          rfl
        rw [hsize, dbDelete_of_row hn] at he
        have hrest := ih (fun q hq => hrn q (List.mem_cons_of_mem r hq)) (cInt_cInt _) (cInt_cInt _)
          (hstop.imp Nat.le_of_succ_le_succ Relieved.tail)
          (fun q hq => hK q (by rw [List.take_succ_cons]; exact List.mem_cons_of_mem r hq)) he
        refine KeepsAll.trans ⟨fun q => !r.hits q, rfl, fun q hq => ?_⟩ hrest
        dsimp only
        rw [hK r (by rw [List.take_succ_cons]; exact List.mem_cons_self) q hq]
        rfl
    · cases he
      exact .refl

/-- An instance that comes after others is not the oldest one. -/
theorem firstMin_cons_of_ordered (h : (r :: l).Pairwise Row.Before) : firstMin (rowLt .lt) (r :: l) = some r :=
  firstMin_of_ordered (h.imp fun hb => hb.1)

theorem evictRows_filter {x : Db × Int × Int} (hl : db.instances .cin ri = l) (hord : l.Pairwise Row.Before)
    (hrn : ∀ r ∈ l, r.obj.str .rn ≠ none) (hri : ∀ r ∈ l, r.ri ≠ none) (hc : cInt cni = cni) (hb : cInt cbs = cbs)
    (hstop : l.length ≤ i ∨ Relieved mni mbs cni cbs i l) (hK : ∀ r ∈ l.take i, ∀ q, K q → r.hits q = false)
    (he : evictRows ri mni mbs db cni cbs = some x) : KeepsAll K db x.1 := by
  unfold evictRows at he
  dsimp only at he
  unfold evictOne at he
  by_cases hone : cni = mni + 1
  · rw [if_pos hone] at he
    unfold Db.dbDeleteOneCinMni at he
    rw [hl] at he
    cases l with
    | nil =>
      have hnone : firstMin (rowLt .lt) ([] : List Row) = none := rfl
      rw [hnone] at he
      dsimp only at he
      split at he
      · unfold Db.dbGetCinRtnodeList at he
        rw [hl] at he
        cases he
        exact .refl
      · cases he
        exact .refl
    | cons r l =>
      rw [firstMin_cons_of_ordered hord] at he
      dsimp only at he
      obtain ⟨hr, hord⟩ := List.pairwise_cons.mp hord
      -- the container is above `mni`, so the first instance is one of those that go
      obtain ⟨j, rfl⟩ : ∃ j, i = j + 1 := by
        cases i with
        | zero =>
          rcases hstop with hlen | hmet
          · cases hlen
          · have := hmet.zero hc hb
            omega
        | succ j => exact ⟨j, rfl⟩
      have hfirst : ∀ q, K q → q.ri ≠ r.ri := by
        intro q hq hqr
        have := hits_of_ri (hri r List.mem_cons_self) hqr
        rw [hK r (by rw [List.take_succ_cons]; exact List.mem_cons_self) q hq] at this
        cases this
      have hdb : KeepsAll K db (db.filter fun q => q.ri ≠ r.ri) :=
        ⟨fun q => decide (q.ri ≠ r.ri), rfl, fun q hq => decide_eq_true (hfirst q hq)⟩
      have hinst : Db.instances (db.filter fun q => q.ri ≠ r.ri) .cin ri = l := by
        rw [instances_filter, hl, List.filter_cons_of_neg (by simp), List.filter_eq_self]
        exact fun q hq => decide_eq_true (hr q hq).2
      split at he
      · unfold Db.dbGetCinRtnodeList at he
        rw [hinst] at he
        have hloop := evictLoop_filter (K := K) (fun q hq => hrn q (List.mem_cons_of_mem r hq)) (cInt_cInt _) (cInt_cInt _)
          (hstop.imp Nat.le_of_succ_le_succ Relieved.tail)
          (fun q hq => hK q (by rw [List.take_succ_cons]; exact List.mem_cons_of_mem r hq)) he
        exact hdb.trans hloop
      · cases he
        exact hdb
  · rw [if_neg hone] at he
    dsimp only at he
    split at he
    · unfold Db.dbGetCinRtnodeList at he
      rw [hl] at he
      exact evictLoop_filter hrn hc hb hstop hK he
    · cases he
      exact .refl

/-- `delete_cin_under_cnt_mni_mbs`: the object keeps its identifier, and it is written to the rows that are left. -/
theorem deleteCinUnder_filter {o o' : Obj} (hri' : o.get .ri = some (.str ri)) (hl : db.instances .cin ri = l)
    (hord : l.Pairwise Row.Before) (hrn : ∀ r ∈ l, r.obj.str .rn ≠ none) (hri : ∀ r ∈ l, r.ri ≠ none)
    (hstop : l.length ≤ i ∨ ∀ cni ∈ o.get .cni, ∀ cbs ∈ o.get .cbs, Relieved (limit o .mni defaultMaxNrInstances)
      (limit o .mbs defaultMaxByteSize) cni.valueint cbs.valueint i l)
    (hK : ∀ r ∈ l.take i, ∀ q, K q → r.hits q = false) (he : deleteCinUnderCntMniMbs o db = some (o', db')) :
    o'.get .ri = o.get .ri ∧ ∃ db₁, KeepsAll K db db₁ ∧ (db' = db₁ ∨ db' = db₁.dbUpdateResource o' ri) := by
  unfold deleteCinUnderCntMniMbs at he
  simp only [Option.bind_eq_bind] at he
  obtain ⟨cni, hcni, he⟩ := Option.bind_eq_some_iff.mp he
  obtain ⟨cbs, hcbs, he⟩ := Option.bind_eq_some_iff.mp he
  split at he
  · cases he
    exact ⟨rfl, db, .refl, .inl rfl⟩
  · rw [Obj.str_of_get hri', Option.bind_some] at he
    obtain ⟨x, hx, he⟩ := Option.bind_eq_some_iff.mp he
    obtain ⟨st, hst, he⟩ := Option.bind_eq_some_iff.mp he
    cases he
    refine ⟨?_, x.1, ?_, .inr rfl⟩
    · show Assoc.get _ _ = _
      rw [Assoc.get_set_ne (by decide), Assoc.get_set_ne (by decide), Assoc.get_set_ne (by decide)]
    · exact evictRows_filter hl hord hrn hri (cInt_valueint cni) (cInt_valueint cbs)
        (hstop.imp id fun h => h cni hcni cbs hcbs) hK hx

end

/-! ## A container at work -/

/-- A row is the newest instance of a container other than `e`. -/
def Server.Head (s : Server) (e : Option Nat) (r : Row) : Prop :=
  ∃ c ∈ s.tree.nodes, c.ty = .cnt ∧ e ≠ some c.id ∧ r ∈ s.newest c

/-- What is done at the container `e` leaves the newest instances of the others, and brings no instance and no identifier. -/
structure Works (e : Option Nat) (s s' : Server) : Prop where
  recent : Recent e s'
  heads : ∀ r, s'.Head e r → s.Head e r
  rows : s'.cins.Sublist s.cins
  nodes : ∀ m ∈ s'.tree.nodes, ∃ n ∈ s.tree.nodes, n.id = m.id ∧ n.ty = m.ty ∧ n.ri = m.ri
  nextId : s'.nextId = s.nextId

/-- The rows of the instances do not change when the row of another resource is written. -/
theorem cins_dbUpdate {db : Db} {o : Obj} {q : CStr} (h : ∀ r ∈ db, r.ty = .cin → r.ri ≠ some q) :
    ((db.dbUpdateResource o q).filter fun r => r.ty = .cin) = db.filter fun r => r.ty = .cin := by
  induction db with
  | nil => rfl
  | cons r db ih =>
    have ih := ih fun x hx => h x (List.mem_cons_of_mem r hx)
    unfold Db.dbUpdateResource at ih ⊢
    rw [List.map_cons]
    by_cases hty : r.ty = .cin
    · rw [if_neg (h r List.mem_cons_self hty), List.filter_cons_of_pos (by simpa using hty),
        List.filter_cons_of_pos (by simpa using hty), ih]
    · have hwritten : ((if r.ri = some q then r.written o else r).ty = .cin) ↔ r.ty = .cin := by split <;> exact Iff.rfl
      rw [List.filter_cons_of_neg (a := r) (by simpa using hty), ← ih]
      exact List.filter_cons_of_neg (by rw [decide_eq_true_eq]; exact fun he => hty (hwritten.mp he))

section

variable {s s' : Server} {e : Option Nat} {c n : RTNode} {o cin : Obj} {env : Env} {i : Nat}

/-- No instance has the identifier of a node that is none. -/
theorem Recent.foreign (h : Recent e s) (hn : n ∈ s.tree.nodes) (hty : n.ty ≠ .cin) {q : CStr} (hq : n.ri = some q) :
    ∀ r ∈ s.db, r.ty = .cin → r.ri ≠ some q := fun r hr hrty => by
  rw [← hq]
  exact h.apart r hr hrty n hn hty

namespace Works

theorem refl (h : Recent e s) : Works e s s :=
  ⟨h, fun _ hr => hr, List.Sublist.refl _, fun n hn => ⟨n, hn, rfl, rfl, rfl⟩, rfl⟩

theorem trans {s₁ : Server} (h₁ : Works e s s₁) (h₂ : Works e s₁ s') : Works e s s' := by
  refine ⟨h₂.recent, fun r hr => h₁.heads r (h₂.heads r hr), h₂.rows.trans h₁.rows, fun m hm => ?_,
    h₂.nextId.trans h₁.nextId⟩
  obtain ⟨n, hn, h1, h2, h3⟩ := h₂.nodes m hm
  obtain ⟨l, hl, h1', h2', h3'⟩ := h₁.nodes n hn
  exact ⟨l, hl, h1'.trans h1, h2'.trans h2, h3'.trans h3⟩

/-- Neither the tree nor the row of an instance changes. -/
theorem stay (h : Recent e s) (ht : s'.tree = s.tree) (hdb : s'.cins = s.cins) (hid : s'.nextId = s.nextId) :
    Works e s s' := by
  refine ⟨h.carry (h.shape.congr ht hid.ge) ?_ ?_ (by rw [hdb]) ?_, ?_, by rw [hdb], ?_, hid⟩
  · rw [ht]
    exact fun c k hk => ⟨c, k, hk, rfl, fun m hm => ⟨m, hm, rfl⟩⟩
  · rw [ht]
    exact fun m hm => ⟨m, hm, rfl, rfl, fun _ => rfl, h.bare m hm⟩
  · rw [ht]
    intro c hc hty he
    rw [latestChild_congr ht, newest_eq hdb rfl]
    exact h.latest c hc hty he
  · rintro r ⟨c, hc, hcty, he, hr⟩
    exact ⟨c, ht ▸ hc, hcty, he, newest_eq hdb rfl ▸ hr⟩
  · rw [ht]
    exact fun m hm => ⟨m, hm, rfl, rfl, rfl⟩

theorem write (h : Recent e s) (hn : n ∈ s.tree.nodes) (hty : n.ty ≠ .cin) (hri : o.get .ri = n.obj.get .ri)
    (ht : s'.tree = (s.setObj n.id o).tree) (hdb : s'.cins = s.cins) (hid : s'.nextId = s.nextId) : Works e s s' := by
  have hmem : ∀ m ∈ s'.tree.nodes, m = { n with obj := o } ∨ m ∈ s.tree.nodes := fun m hm =>
    (Server.mem_nodes_setObj h.shape.ids hn (ht ▸ hm)).imp id And.left
  refine ⟨h.write hn hty hri ht hdb hid, ?_, by rw [hdb], ?_, hid⟩
  · rintro r ⟨c, hc, hcty, he, hr⟩
    rcases hmem c hc with rfl | hc
    · have hnew : s'.newest { n with obj := o } = s.newest n := newest_eq hdb (Obj.str_congr hri)
      exact ⟨n, hn, hcty, he, hnew ▸ hr⟩
    · exact ⟨c, hc, hcty, he, newest_eq hdb rfl ▸ hr⟩
  · intro m hm
    rcases hmem m hm with rfl | hm
    · have hstr : o.str .ri = n.obj.str .ri := Obj.str_congr hri
      exact ⟨n, hn, rfl, rfl, hstr.symm⟩
    · exact ⟨m, hm, rfl, rfl, rfl⟩

/-- The object of a node is written to the tree and to its row. -/
theorem persist (h : Recent e s) (hn : n ∈ s.tree.nodes) (hty : n.ty ≠ .cin) (hri : o.get .ri = n.obj.get .ri) :
    Works e s (s.persist (.inTree n.id) o) := by
  refine write h hn hty hri (Server.persist_tree s n.id o) ?_ ?_
  · unfold Server.persist Server.assign Server.cins
    dsimp only
    split
    · rfl
    · rename_i q hq
      exact cins_dbUpdate (h.foreign hn hty ((Obj.str_congr hri).symm.trans hq))
  · unfold Server.persist Server.assign
    dsimp only
    split <;> rfl

/-- Rows go, none of them the newest of a container. -/
theorem dropRows {db : Db} (h : Recent e s) (hdb : KeepsAll (s.Head e) s.db db) : Works e s { s with db := db } := by
  obtain ⟨p, rfl, hp⟩ := hdb
  have hkeep : ∀ c ∈ s.tree.nodes, c.ty = .cnt → e ≠ some c.id → ∀ r ∈ s.newest c, p r = true :=
    fun c hc hty he r hr => hp r ⟨c, hc, hty, he, hr⟩
  have hcins : Server.cins { s with db := s.db.filter p } = s.cins.filter p := by
    unfold Server.cins
    rw [List.filter_filter, List.filter_filter]
    exact List.filter_congr fun r _ => Bool.and_comm _ _
  refine ⟨h.dropRows rfl rfl rfl hkeep, ?_, by rw [hcins]; exact List.filter_sublist, fun n hn => ⟨n, hn, rfl, rfl, rfl⟩,
    rfl⟩
  rintro r ⟨c, hc, hcty, he, hr⟩
  refine ⟨c, hc, hcty, he, ?_⟩
  unfold Server.newest at hr ⊢
  rw [storedCins_eq, hcins, List.filter_filter] at hr
  rw [storedCins_eq]
  have hlast := hkeep c hc hcty he
  unfold Server.newest at hlast
  rw [storedCins_eq] at hlast
  rw [← getLast?_filter_of_last hlast, List.filter_filter]
  have hcomm : (s.cins.filter fun r => decide (r.pi = c.ri) && p r) = s.cins.filter fun r => p r && decide (r.pi = c.ri) :=
    List.filter_congr fun r _ => Bool.and_comm _ _
  rwa [← hcomm]

theorem free (h : Recent e s) (i : Nat)
    (hne : ∀ c ∈ s.tree.nodes, c.ty = .cnt → e ≠ some c.id → ∀ m ∈ (s.children c.id).roots, m.ty = .cin → m.id ≠ i) :
    Works e s (s.freeRtnode i) := by
  have hsub : ∀ m ∈ (s.freeRtnode i).tree.nodes, m ∈ s.tree.nodes := (Forest.nodes_remove_sublist _ _).subset
  refine ⟨h.free i hne, ?_, List.Sublist.refl _, fun m hm => ⟨m, hsub m hm, rfl, rfl, rfl⟩, rfl⟩
  rintro r ⟨c, hc, hcty, he, hr⟩
  exact ⟨c, hsub c hc, hcty, he, hr⟩

/-- `db_delete_onem2m_resource`. -/
theorem dbDelete (h : Recent e s) (hn : ∀ r, s.Head e r → n.hits r = false) :
    Works e s { s with db := s.db.dbDeleteOnem2mResource n } := by
  refine dropRows h ⟨fun r => !n.hits r, dbDelete_eq_filter n, fun q hq => ?_⟩
  dsimp only
  rw [hn q hq]
  rfl

/-- `update_cnt_cin` with sign -1. -/
theorem dropCnt (h : Recent e s) (hc : c ∈ s.tree.nodes) (hty : c.ty ≠ .cin) (he : s.dropCnt (.inTree c.id) cin = some s') :
    Works e s s' ∧ ∃ o, s'.tree = (s.setObj c.id o).tree := by
  unfold Server.dropCnt at he
  rw [show (Ptr.inTree c.id).deref s = some c from Server.node?_eq h.shape.ids hc] at he
  obtain ⟨o, ho, rfl⟩ := Option.map_eq_some_iff.mp he
  exact ⟨persist h hc hty (get_ri_bumpCnt ho), o, Server.persist_tree s c.id o⟩

/-- A cached instance that is too old is counted out, and its row and its node go. -/
theorem dropExpired_one (h : Recent (some c.id) s) (hc : c ∈ s.tree.nodes) (hty : c.ty = .cnt)
    (hn : n ∈ (s.children c.id).roots) (hhits : ∀ r, s.Head (some c.id) r → n.hits r = false)
    (he : Server.dropExpired (.inTree c.id) [n] s = some s') : Works (some c.id) s s' := by
  simp only [Server.dropExpired, Option.bind_eq_bind] at he
  obtain ⟨s₁, h₁, he⟩ := Option.bind_eq_some_iff.mp he
  cases he
  obtain ⟨hw₁, o, ht⟩ := dropCnt h hc (by rw [hty]; decide) h₁
  have hw₂ := hw₁.trans (dbDelete (n := n) hw₁.recent fun r hr => hhits r (hw₁.heads r hr))
  refine hw₂.trans (free hw₂.recent n.id fun d hd hdty hne m hm _ hid => ?_)
  -- the node is a child of the container, and of no other
  have hchildren : ∀ i, (Server.children { s₁ with db := s₁.db.dbDeleteOnem2mResource n } i).roots =
      ((s.setObj c.id o).children i).roots := by
    intro i
    unfold Server.children
    rw [show Server.tree { s₁ with db := s₁.db.dbDeleteOnem2mResource n } = s₁.tree by rfl, ht]
  have hkid : ∃ m' ∈ ((s.setObj c.id o).children c.id).roots, m'.id = n.id := by
    unfold Server.setObj
    rw [Server.children_modifyNode (by intro n; rfl), Forest.roots_modify]
    exact ⟨_, List.mem_map_of_mem hn, by split <;> rfl⟩
  obtain ⟨m', hm', hid'⟩ := hkid
  rw [← hchildren] at hm'
  have hc' : { c with obj := o } ∈ Forest.nodes (Server.tree { s₁ with db := s₁.db.dbDeleteOnem2mResource n }) := by
    show { c with obj := o } ∈ s₁.tree.nodes
    rw [ht]
    exact Server.mem_setObj hc o
  have heq : ({ c with obj := o } : RTNode) = d :=
    eq_of_shared_child hw₂.recent.shape.ids hc' hd hm' hm (hid'.trans hid.symm)
  rw [← heq] at hne
  exact hne rfl

/-- The `mia` part of `update_cnt_cin`. -/
theorem expireByMia (h : Recent (some c.id) s) (hc : c ∈ s.tree.nodes) (hty : c.ty = .cnt)
    (hhits : ∀ n ∈ (s.children c.id).roots, n.ty = .cin → ∀ r, s.Head (some c.id) r → n.hits r = false)
    (he : s.expireByMia env (.inTree c.id) c = some s') : Works (some c.id) s s' := by
  unfold Server.expireByMia at he
  split at he
  · cases he
    exact refl h
  · rename_i mia hmia
    split at he
    · simp only [Option.bind_eq_bind] at he
      obtain ⟨expired, hexp, he⟩ := Option.bind_eq_some_iff.mp he
      unfold expiredCins at hexp
      dsimp only at hexp
      split at hexp
      · cases hexp
        obtain ⟨k, hk⟩ := Forest.mem_nodes_iff.mp hc
        have hch := Server.children_eq h.shape.ids hk
        have hone := h.shape.single c k hk
        rw [← hch] at hone
        rcases CntInv.countP_le_one hone with hf | ⟨n, hn, hnt, hf⟩
        · rw [hf] at he
          cases he
          exact refl h
        · rw [hf] at he
          by_cases hold : tooOld env mia.valueint n = true
          · rw [List.filter_cons_of_pos hold] at he
            exact dropExpired_one h hc hty hn (hhits n hn (by simpa using hnt)) he
          · rw [List.filter_cons_of_neg hold] at he
            cases he
            exact refl h
      · cases hexp
    · cases he
      exact refl h

/-- The object of a container takes the place of the old one once rows have gone. -/
theorem evict {ri : CStr} {l : List Row} {o' : Obj} {db : Db} {j : Nat} (h : Recent e s) (hc : c ∈ s.tree.nodes)
    (hty : c.ty = .cnt) (hget : c.obj.get .ri = some (.str ri)) (ho : o.get .ri = c.obj.get .ri)
    (hl : s.db.instances .cin ri = l)
    (hstop : l.length ≤ j ∨ ∀ cni ∈ o.get .cni, ∀ cbs ∈ o.get .cbs, Relieved (limit o .mni defaultMaxNrInstances)
      (limit o .mbs defaultMaxByteSize) cni.valueint cbs.valueint j l)
    (hhits : ∀ x ∈ l.take j, ∀ r, s.Head e r → x.hits r = false) (he : deleteCinUnderCntMniMbs o s.db = some (o', db)) :
    o'.get .ri = c.obj.get .ri ∧ Works e s { s with db := db } := by
  have hstored : s.storedCins c = l := by
    have hcri : c.ri = some ri := Obj.str_of_get hget
    unfold Server.storedCins
    rw [← hl, hcri]
    rfl
  have hmem : ∀ r ∈ l, r.Instance := by
    intro r hr
    rw [← hl] at hr
    obtain ⟨hr, hrty, -⟩ := Db.mem_instances.mp hr
    exact h.rows r hr hrty
  have hord := h.ordered c hc hty
  rw [hstored] at hord
  obtain ⟨hri', db₁, hkeep, hdb⟩ := deleteCinUnder_filter (K := s.Head e) (ho.trans hget) hl hord (fun r hr => (hmem r hr).rn)
    (fun r hr => (hmem r hr).ri) hstop hhits he
  refine ⟨hri'.trans ho, ?_⟩
  have hw := dropRows h hkeep
  rcases hdb with rfl | rfl
  · exact hw
  · -- writing the container's row touches no instance
    have hc₁ : c ∈ Forest.nodes (Server.tree { s with db := db₁ }) := hc
    exact hw.trans (stay hw.recent rfl (cins_dbUpdate (hw.recent.foreign hc₁ (by rw [hty]; decide) (Obj.str_of_get hget)))
      rfl)

end Works

end

end TinyIoT
