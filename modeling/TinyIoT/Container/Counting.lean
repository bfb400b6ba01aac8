/-
Counting instances in and out: `update_cnt_cin` with sign -1 followed by the removal of the row leaves
the books balanced, and with sign 1, through the removal of expired and of evicted instances, it
leaves the container ahead by the instance that is about to be stored.
-/
import TinyIoT.Container.Requests

namespace TinyIoT

/-- The instance is stored under the container with this identifier, and its DELETE statement meets no
other instance. -/
def StoredIn (db : Db) (n : RTNode) (pi : Option CStr) : Prop :=
  (∃ r ∈ db, r.ty = .cin ∧ r.ri = n.ri ∧ r.pi = pi) ∧ db.HitsOnly .cin n

/-- `s'` has no instance, address or identifier that `s` has not. -/
structure Shrinks (s s' : Server) : Prop where
  keys : ∀ k ∈ s'.db.keys .cin, k ∈ s.db.keys .cin
  nodes : ∀ n ∈ s'.tree.nodes, ∃ m ∈ s.tree.nodes, n.id = m.id ∧ n.ty = m.ty ∧ n.ri = m.ri ∧
    n.obj.get .mni = m.obj.get .mni
  nextId : s'.nextId = s.nextId
  riCount : s'.riCount = s.riCount

namespace Shrinks

variable {s s₁ s₂ : Server}

theorem refl (s : Server) : Shrinks s s := ⟨fun _ hk => hk, fun n hn => ⟨n, hn, rfl, rfl, rfl, rfl⟩, rfl, rfl⟩

theorem trans (h₁ : Shrinks s s₁) (h₂ : Shrinks s₁ s₂) : Shrinks s s₂ := by
  refine ⟨fun k hk => h₁.keys k (h₂.keys k hk), ?_, h₂.nextId.trans h₁.nextId, h₂.riCount.trans h₁.riCount⟩
  intro n hn
  obtain ⟨m, hm, h1, h2, h3, h4⟩ := h₂.nodes n hn
  obtain ⟨l, hl, h1', h2', h3', h4'⟩ := h₁.nodes m hm
  exact ⟨l, hl, h1.trans h1', h2.trans h2', h3.trans h3', h4.trans h4'⟩

theorem setObj (s : Server) {n : RTNode} {o : Obj} (hids : s.NodupIds) (hn : n ∈ s.tree.nodes)
    (ho : o.get .ri = n.obj.get .ri) (hm : o.get .mni = n.obj.get .mni) : Shrinks s (s.setObj n.id o) := by
  refine ⟨fun _ hk => hk, ?_, rfl, rfl⟩
  intro m hmem
  rw [Server.setObj, Server.nodes_modifyNode] at hmem
  obtain ⟨m₀, hm₀, rfl⟩ := List.mem_map.mp hmem
  refine ⟨m₀, hm₀, ?_⟩
  by_cases hid : m₀.id = n.id
  · obtain rfl := hids.eq hm₀ hn hid
    rw [if_pos rfl]
    refine ⟨rfl, rfl, ?_, hm⟩
    unfold RTNode.ri Obj.str
    rw [ho]
  · rw [if_neg hid]
    exact ⟨rfl, rfl, rfl, rfl⟩

theorem persist {n : RTNode} {o : Obj} (hids : s.NodupIds) (hn : n ∈ s.tree.nodes)
    (ho : o.get .ri = n.obj.get .ri) (hm : o.get .mni = n.obj.get .mni)
    (hk : (s.persist (.inTree n.id) o).db.keys .cin = s.db.keys .cin) :
    Shrinks s (s.persist (.inTree n.id) o) := by
  have h := setObj s hids hn ho hm
  refine ⟨fun k hk' => hk ▸ hk', ?_, ?_, ?_⟩
  · unfold Server.persist Server.assign
    dsimp only
    split
    · exact h.nodes
    · exact h.nodes
  · unfold Server.persist Server.assign
    dsimp only
    split <;> rfl
  · unfold Server.persist Server.assign
    dsimp only
    split <;> rfl

theorem freeRtnode (s : Server) (i : Nat) : Shrinks s (s.freeRtnode i) :=
  ⟨fun _ hk => hk, fun n hn => ⟨n, (Forest.nodes_remove_sublist _ _).subset hn, rfl, rfl, rfl, rfl⟩, rfl, rfl⟩

theorem setDb {db : Db} (h : ∀ k ∈ db.keys .cin, k ∈ s.db.keys .cin) : Shrinks s { s with db := db } :=
  ⟨h, fun n hn => ⟨n, hn, rfl, rfl, rfl, rfl⟩, rfl, rfl⟩

end Shrinks

namespace CntInv

variable {d : Pending} {s s' : Server}

/-- The counters of a container, where nothing is pending. -/
theorem counters_of (h : CntInv .none s) {c : RTNode} (hc : c ∈ s.tree.nodes) (hty : c.ty = .cnt) :
    ∃ ri, c.obj.get .ri = some (.str ri) ∧ c.ri = some ri ∧ ri ≠ [] ∧
      c.obj.get .cni = some (.int (s.db.count .cin ri)) ∧ c.obj.get .cbs = some (.int (s.db.total .cin ri)) ∧
      0 ≤ s.db.count .cin ri ∧ s.db.count .cin ri ≤ intMax ∧ 0 ≤ s.db.total .cin ri ∧
      s.db.total .cin ri ≤ intMax := by
  obtain ⟨ri, h1, h2, h3, h4⟩ := h.books.counters c hc hty
  have hri : c.ri = some ri := by
    unfold RTNode.ri Obj.str
    rw [h1]
    rfl
  have hb := h.books.bound c hc hty ri hri
  refine ⟨ri, h1, hri, h2, ?_, ?_, Ledger.count_nonneg, hb.1, h.books.total_nonneg ri, hb.2⟩
  · rw [h3]; simp [Pending.none]
  · rw [h4]; simp [Pending.none]

/-- `update_cnt_cin` with sign -1. -/
theorem dropCnt (h : CntInv .none s) {c : RTNode} {cin : Obj} {cs : Int} (hc : c ∈ s.tree.nodes)
    (hty : c.ty = .cnt) (hcs : cin.get .cs = some (.int cs)) (h0 : 0 ≤ cs) (h1 : cs ≤ intMax)
    (he : s.dropCnt (.inTree c.id) cin = some s') :
    ∃ ri, c.ri = some ri ∧ KeepsBooks (Pending.none.bump ri (-1) (-cs)) s s' ∧ Shrinks s s' := by
  obtain ⟨ri, hget, hri, hri0, hcni, hcbs, hc0, hc1, ht0, ht1⟩ := h.counters_of hc hty
  unfold Server.dropCnt at he
  have hd : (Ptr.inTree c.id).deref s = some c := Server.node?_eq h.shape.ids hc
  rw [hd] at he
  obtain ⟨o, ho, rfl⟩ := Option.map_eq_some_iff.mp he
  have hmin : intMin ≤ -intMax := by decide
  obtain ⟨h2, h3, h4⟩ := bumpCnt_spec hcni hcbs hcs ho ⟨by unfold intMin; omega, hc1⟩ ⟨by unfold intMin; omega, ht1⟩
    ⟨by unfold intMin; omega, h1⟩ ⟨by unfold intMin; omega, by omega⟩ ⟨by omega, by omega⟩
  have hk : KeepsBooks (Pending.none.bump ri (-1) (-cs)) s (s.persist (.inTree c.id) o) := by
    refine h.persist_counters hc hty hget hri0 ?_ ?_ fun k hk => h4 k ?_
    · rw [h2]; simp [Pending.none]
    · rw [h3]; simp [Pending.none]
    · simp only [List.mem_cons, List.not_mem_nil, or_false] at hk
      rcases hk with rfl | rfl | rfl <;> decide
  exact ⟨ri, hri, hk, Shrinks.persist h.shape.ids hc (h4 .ri (by decide)) (h4 .mni (by decide)) hk.keys⟩

theorem hitsOnly_congr {db db' : Db} {n : RTNode} (h : db.HitsOnly .cin n) (hk : db'.keys .cin = db.keys .cin) :
    db'.HitsOnly .cin n := by
  unfold Db.HitsOnly at h ⊢
  rw [hk]
  exact h

/-- The row of an instance that has been counted out goes. -/
theorem removeRow {pi : CStr} {cs : Int} (h : CntInv (Pending.none.bump pi (-1) (-cs)) s) {n : RTNode} {r : Row}
    (hr : r ∈ s.db)
    (ht : r.ty = .cin) (hri : r.ri = n.ri) (hpi : r.pi = some pi) (hcs : r.obj.get .cs = some (.int cs))
    (h0 : 0 ≤ cs) (h1 : cs ≤ intMax) (hhits : s.db.HitsOnly .cin n) :
    CntInv .none { s with db := s.db.dbDeleteOnem2mResource n } ∧
      Shrinks s { s with db := s.db.dbDeleteOnem2mResource n } := by
  have hmem := Db.key_mem hr ht
  obtain ⟨q, -, -, hq, -⟩ := h.books.proper _ hmem
  have hkeys := Db.keys_dbDeleteOnem2mResource (hri.symm.trans hq) hhits
  rw [← hri] at hkeys
  have hsize : r.key.size = cs := Books.size_eq hcs h0 h1
  have hd := h.dropRow hmem hpi hkeys (h.plain_dbDelete n)
  rw [hsize, Pending.bump_bump, show (-1 : Int) + 1 = 0 by rfl, show -cs + cs = 0 by omega,
    Pending.bump_zero] at hd
  refine ⟨hd, Shrinks.setDb fun k hk => ?_⟩
  rw [hkeys] at hk
  exact List.mem_of_mem_filter hk

/-- One cached instance that is too old: counted out, its row and its node removed. -/
theorem dropExpired_one (h : CntInv .none s) {c n : RTNode} (hc : c ∈ s.tree.nodes) (hty : c.ty = .cnt)
    (hn : n ∈ s.tree.nodes) (hcin : n.ty = .cin) (hst : StoredIn s.db n c.ri)
    (he : Server.dropExpired (.inTree c.id) [n] s = some s') : CntInv .none s' ∧ Shrinks s s' := by
  obtain ⟨⟨r, hr, ht, hri, hpi⟩, hhits⟩ := hst
  have hmem := Db.key_mem hr ht
  obtain ⟨-, -, cs, -, -, -, -, hcs, h0, h1⟩ := h.books.proper _ hmem
  have hcache := h.books.cached n hn hcin _ hmem hri
  have hncs : n.obj.get .cs = some (.int cs) := hcache.2.1.symm.trans hcs
  simp only [Server.dropExpired, Option.bind_eq_bind] at he
  obtain ⟨s₁, h₁, he⟩ := Option.bind_eq_some_iff.mp he
  cases he
  obtain ⟨ri, hcri, hk, hsh⟩ := h.dropCnt hc hty hncs h0 h1 h₁
  -- the row is still there: counting out wrote to the container only
  obtain ⟨r', hr', ht', hkey⟩ := Db.mem_keys.mp (hk.keys.symm ▸ hmem)
  have hrm := hk.inv.removeRow hr' ht' ((congrArg Key.ri hkey).trans hri)
    ((congrArg Key.pi hkey).trans (hpi.trans hcri)) ((congrArg Key.cs hkey).trans hcs) h0 h1
    (hitsOnly_congr hhits hk.keys)
  exact ⟨hrm.1.freeRtnode _, (hsh.trans hrm.2).trans (Shrinks.freeRtnode _ _)⟩

theorem countP_le_one {α : Type} {p : α → Bool} {l : List α} (h : l.countP p ≤ 1) :
    l.filter p = [] ∨ ∃ a ∈ l, p a = true ∧ l.filter p = [a] := by
  rw [List.countP_eq_length_filter] at h
  match hf : l.filter p with
  | [] => exact .inl rfl
  | [a] =>
    have ha : a ∈ l.filter p := by rw [hf]; exact List.mem_singleton.mpr rfl
    exact .inr ⟨a, (List.mem_filter.mp ha).1, (List.mem_filter.mp ha).2, rfl⟩
  | a :: b :: l' =>
    rw [hf] at h
    simp at h

/-- Every cached instance the `mia` check finds too old is still stored under the container. -/
def FreshCache (env : Env) (s : Server) (c : RTNode) : Prop :=
  ∀ mia ∈ c.obj.get .mia, 0 < mia.valueint → ∀ n ∈ (s.children c.id).roots, n.ty = .cin →
    tooOld env mia.valueint n = true → StoredIn s.db n c.ri

/-- The `mia` part of `update_cnt_cin`. -/
theorem expireByMia (h : CntInv .none s) {env : Env} {c : RTNode} (hc : c ∈ s.tree.nodes) (hty : c.ty = .cnt)
    (hst : FreshCache env s c)
    (he : s.expireByMia env (.inTree c.id) c = some s') : CntInv .none s' ∧ Shrinks s s' := by
  unfold Server.expireByMia at he
  split at he
  · cases he; exact ⟨h, Shrinks.refl s⟩
  · rename_i mia hmia
    split at he
    · rename_i hpos
      simp only [Option.bind_eq_bind] at he
      obtain ⟨expired, hexp, he⟩ := Option.bind_eq_some_iff.mp he
      have hst := hst mia hmia hpos
      unfold expiredCins at hexp
      dsimp only at hexp
      split at hexp
      · cases hexp
        obtain ⟨k, hk⟩ := Forest.mem_nodes_iff.mp hc
        have hch := Server.children_eq h.shape.ids hk
        rw [hch] at he hst
        rcases countP_le_one (h.shape.single c k hk) with hf | ⟨n, hn, hnt, hf⟩
        · rw [hf] at he
          cases he; exact ⟨h, Shrinks.refl s⟩
        · have hcin : n.ty = .cin := by simpa using hnt
          rw [hf] at he
          by_cases hold : tooOld env mia.valueint n = true
          · rw [List.filter_cons_of_pos hold] at he
            exact h.dropExpired_one hc hty (Forest.roots_of_cell hk hn) hcin (hst n hn hcin hold) he
          · rw [List.filter_cons_of_neg hold] at he
            cases he; exact ⟨h, Shrinks.refl s⟩
      · cases hexp
    · cases he; exact ⟨h, Shrinks.refl s⟩

/-- Fewer rows, smaller counters. -/
theorem count_le (h : CntInv d s) {db : Db} {nodes : List RTNode} {e : Pending} (hb : Books e nodes (db.keys .cin))
    (hk : ∀ k ∈ db.keys .cin, k ∈ s.db.keys .cin) (ri : CStr) :
    db.count .cin ri ≤ s.db.count .cin ri ∧ db.total .cin ri ≤ s.db.total .cin ri := by
  have hsub : (db.keys .cin).Subperm (s.db.keys .cin) :=
    List.subperm_of_subset (List.Nodup.of_map _ hb.nodupRi) hk
  exact ⟨Ledger.count_le hsub, Ledger.total_le hsub fun k hk => h.books.size_nonneg hk⟩

/-- A container gets the counters the eviction leaves. -/
theorem setObj_evicted (h : CntInv .none s) {c : RTNode} {ri : CStr} {o o' : Obj} {db : Db} {a b : Int}
    (hc : c ∈ s.tree.nodes) (hty : c.ty = .cnt) (hget : c.obj.get .ri = some (.str ri)) (hri0 : ri ≠ [])
    (hattr : ∀ k ∈ [Attr.ri, .pi, .cs], o.get k = c.obj.get k)
    (hev : EvictedTo .none s.tree.nodes s.db ri a b (s.db.count .cin ri + a) (s.db.total .cin ri + b) o o' db) :
    CntInv (Pending.none.bump ri a b) ({ s with db := db }.setObj c.id o') := by
  obtain ⟨cni', cbs', hcni, hcbs, hahead, hbooks⟩ := hev.result
  have h1 := hahead.cni_eq
  have h2 := hahead.cbs_eq
  have hinv : CntInv (Pending.none.bump ri (s.db.count .cin ri + a - cni') (s.db.total .cin ri + b - cbs'))
      { s with db := db } :=
    ⟨h.shape.congr rfl le_rfl, hbooks, hev.plain h.rows⟩
  have hk := hinv.setObj_counters (a := a - (s.db.count .cin ri + a - cni'))
    (b := b - (s.db.total .cin ri + b - cbs')) hc hty hget hri0 (o := o') ?_ ?_ ?_
  · rwa [Pending.bump_bump, add_sub_cancel, add_sub_cancel] at hk
  · rw [hcni]
    congr 2
    simp only [Pending.bump, Pending.none, if_true]
    omega
  · rw [hcbs]
    congr 2
    simp only [Pending.bump, Pending.none, if_true]
    omega
  · intro k hk
    refine (hev.attrs k ?_).trans (hattr k hk)
    simp only [List.mem_cons, List.not_mem_nil, or_false] at hk
    rcases hk with rfl | rfl | rfl <;> decide

/-- `update_cnt_cin` with sign 1: the container is ahead by the instance that comes next. -/
theorem addCnt (h : CntInv .none s) {env : Env} {c : RTNode} {cin : Obj} {cs : Int} {ri : CStr}
    (hc : c ∈ s.tree.nodes) (hty : c.ty = .cnt) (hri : c.ri = some ri) (hcs : cin.get .cs = some (.int cs))
    (h0 : 0 ≤ cs) (hfresh : FreshCache env s c) (hclean : CleanRows s.db ri)
    (hmni : limit c.obj .mni defaultMaxNrInstances ≠ 0)
    (hcount : s.db.count .cin ri + 1 ≤ intMax) (htotal : s.db.total .cin ri + cs ≤ intMax)
    (he : s.addCnt env (.inTree c.id) cin = some s') :
    CntInv (Pending.none.bump ri 1 cs) s' ∧ Shrinks s s' ∧
      ∃ c' ∈ s'.tree.nodes, c'.id = c.id ∧ c'.ty = .cnt := by
  unfold Server.addCnt at he
  simp only [Option.bind_eq_bind, Option.bind_eq_some_iff, Option.pure_def, Option.some.injEq] at he
  obtain ⟨c₀, hd, s₁, h₁, c₁, hd₁, o, ho, ⟨o', db⟩, hev, rfl⟩ := he
  have hc₀ : c₀ = c := by
    have := Server.node?_eq h.shape.ids hc
    rw [show (Ptr.inTree c.id).deref s = s.node? c.id from rfl, this] at hd
    exact (Option.some.inj hd).symm
  subst hc₀
  obtain ⟨hinv₁, hsh₁⟩ := h.expireByMia hc hty hfresh h₁
  obtain ⟨hc₁, hid₁⟩ := Server.node?_mem hd₁
  -- the container is the one of before, up to its counters
  obtain ⟨m, hm, hidm, htym, hrim, hmnim⟩ := hsh₁.nodes c₁ hc₁
  obtain rfl := h.shape.ids.eq hm hc (hidm.symm.trans hid₁)
  have hty₁ : c₁.ty = .cnt := htym.trans hty
  obtain ⟨ri', hget, hri', hri0, hcni, hcbs, hc0, hc1, ht0, ht1⟩ := hinv₁.counters_of hc₁ hty₁
  obtain rfl : ri' = ri := Option.some.inj (hri'.symm.trans (hrim.trans hri))
  obtain ⟨hcle, htle⟩ := h.count_le hinv₁.books hsh₁.keys ri'
  obtain ⟨h2, h3, h4⟩ := bumpCnt_spec hcni hcbs hcs ho ⟨by unfold intMin; omega, hc1⟩ ⟨by unfold intMin; omega, ht1⟩
    ⟨by unfold intMin; omega, by omega⟩ ⟨by unfold intMin; omega, by omega⟩ ⟨by unfold intMin; omega, by omega⟩
  rw [Int.one_mul] at h3
  have hev' : EvictedTo .none s₁.tree.nodes s₁.db ri' 1 cs (s₁.db.count .cin ri' + 1) (s₁.db.total .cin ri' + cs)
      o o' db := by
    refine deleteCinUnderCntMniMbs_spec hinv₁.books ?_ ((h4 .ri (by decide)).trans hget) h2 h3
      ⟨rfl, rfl, by omega, by omega⟩ (by decide) h0 (hclean.mono hsh₁.keys) ?_ hev
    · intro k hk
      rw [← hri']
      exact hinv₁.books.apart k hk c₁ hc₁ (by rw [hty₁]; decide)
    · intro hm
      have hlim : limit o .mni defaultMaxNrInstances ≠ 0 := by
        unfold limit at hmni ⊢
        rwa [h4 .mni (by decide), hmnim]
      omega
  have hset := hinv₁.setObj_evicted hc₁ hty₁ hget hri0 (fun k hk => h4 k ?_) hev'
  · have hattr : ∀ k ∉ [Attr.cni, .cbs, .st], o'.get k = c₁.obj.get k :=
      fun k hk => (hev'.attrs k hk).trans (h4 k hk)
    have hori : o'.str .ri = some ri' := by
      unfold Obj.str
      rw [hattr .ri (by decide), hget]
      rfl
    have hk := persist_of_setObj (s := { s₁ with db := db }) hc₁ (by rw [hty₁]; decide) hori hset
    rw [← hid₁]
    refine ⟨hk.inv, hsh₁.trans ((Shrinks.setDb hev'.keys).trans (Shrinks.persist hinv₁.shape.ids hc₁
      (hattr .ri (by decide)) (hattr .mni (by decide)) hk.keys)), ?_⟩
    rw [Server.persist_tree]
    exact ⟨{ c₁ with obj := o' }, Server.mem_setObj (s := { s₁ with db := db }) hc₁ o', rfl, hty₁⟩
  · simp only [List.mem_cons, List.not_mem_nil, or_false] at hk
    rcases hk with rfl | rfl | rfl <;> decide

end CntInv

end TinyIoT
