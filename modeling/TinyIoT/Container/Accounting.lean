/-
The accounting invariant of containers. While a request is handled the counters of a container may be
ahead of or behind its rows; `pend` says by how much, and is zero between requests. One lemma for each
elementary change: a node whose counted attributes stay, a container whose counters move, a row that
comes or goes, a node that is freed.
-/
import TinyIoT.Server.Resolve
import TinyIoT.Resource.Container

namespace TinyIoT

/-- How far the counters of the container with a given `ri` are ahead of its rows: `cni`, `cbs`. -/
abbrev Pending := CStr → Int × Int

/-- Nothing is pending. -/
def Pending.none : Pending := fun _ => (0, 0)

/-- The counters of `ri` move ahead by `a` instances and `b` bytes. -/
def Pending.bump (d : Pending) (ri : CStr) (a b : Int) : Pending :=
  fun q => if q = ri then ((d q).1 + a, (d q).2 + b) else d q

theorem Pending.bump_bump (d : Pending) (ri : CStr) (a b a' b' : Int) :
    (d.bump ri a b).bump ri a' b' = d.bump ri (a + a') (b + b') := by
  funext q
  by_cases h : q = ri
  · simp [bump, h, Int.add_assoc]
  · simp [bump, h]

theorem Pending.bump_zero (d : Pending) (ri : CStr) : d.bump ri 0 0 = d := by
  funext q
  by_cases h : q = ri <;> simp [bump, h]

/-! ## The shape of the tree -/

/-- Addresses are distinct and old ones stay below `nextId`; content instances are leaves, at most one
under each parent, and are the nodes named `la`; no node has a subscription or is an announced
container. -/
structure Shape (s : Server) : Prop where
  ids : s.NodupIds
  below : ∀ n ∈ s.tree.nodes, n.id < s.nextId
  leaf : ∀ n c, (n, c) ∈ s.tree.cells → n.ty = .cin → c = .nil
  single : ∀ n c, (n, c) ∈ s.tree.cells → c.roots.countP (fun m => m.ty = .cin) ≤ 1
  named : ∀ n ∈ s.tree.nodes, n.ty = .cin ↔ n.rn = "la".toList
  quiet : ∀ n ∈ s.tree.nodes, n.subs = []
  original : ∀ n ∈ s.tree.nodes, n.ty ≠ .cnta

/-- `m` has the place of `n` in the tree. -/
structure SamePlace (n m : RTNode) : Prop where
  id : m.id = n.id
  ty : m.ty = n.ty
  rn : m.rn = n.rn
  subs : m.subs = n.subs

namespace Shape

variable {s s' : Server}

theorem congr (h : Shape s) (ht : s'.tree = s.tree) (hn : s.nextId ≤ s'.nextId) : Shape s' := by
  refine ⟨?_, ?_, ?_, ?_, ?_, ?_, ?_⟩
  · unfold Server.NodupIds; rw [ht]; exact h.ids
  · rw [ht]; exact fun n hn' => (h.below n hn').trans_le hn
  · rw [ht]; exact h.leaf
  · rw [ht]; exact h.single
  · rw [ht]; exact h.named
  · rw [ht]; exact h.quiet
  · rw [ht]; exact h.original

theorem modify (h : Shape s) {p : RTNode → Bool} {f : RTNode → RTNode} (ht : s'.tree = s.tree.modify p f)
    (hf : ∀ n ∈ s.tree.nodes, p n = true → SamePlace n (f n)) (hn : s'.nextId = s.nextId) : Shape s' := by
  have hsame : ∀ n ∈ s.tree.nodes, SamePlace n (if p n then f n else n) := by
    intro n hn
    by_cases hp : p n = true
    · rw [if_pos hp]; exact hf n hn hp
    · rw [if_neg hp]; exact ⟨rfl, rfl, rfl, rfl⟩
  have hnodes : ∀ m ∈ s'.tree.nodes, ∃ n ∈ s.tree.nodes, SamePlace n m := by
    intro m hm
    rw [ht, Forest.nodes_modify] at hm
    obtain ⟨n, hn, rfl⟩ := List.mem_map.mp hm
    exact ⟨n, hn, hsame n hn⟩
  have hcells : ∀ m c, (m, c) ∈ s'.tree.cells → ∃ n c₀, (n, c₀) ∈ s.tree.cells ∧ SamePlace n m ∧
      c = c₀.modify p f := by
    intro m c hm
    rw [ht, Forest.cells_modify] at hm
    obtain ⟨⟨n, c₀⟩, hn, he⟩ := List.mem_map.mp hm
    cases he
    exact ⟨n, c₀, hn, hsame n (Forest.mem_nodes_of_cell hn), rfl⟩
  constructor
  · have : s'.tree.nodes.map (·.id) = s.tree.nodes.map (·.id) := by
      rw [ht, Forest.nodes_modify, List.map_map]
      apply List.map_congr_left
      intro n hn
      exact (hsame n hn).id
    unfold Server.NodupIds
    rw [this]
    exact h.ids
  · intro m hm
    obtain ⟨n, hn', hs⟩ := hnodes m hm
    rw [hn, hs.id]
    exact h.below n hn'
  · intro m c hm hty
    obtain ⟨n, c₀, hn', hs, rfl⟩ := hcells m c hm
    rw [h.leaf n c₀ hn' (hs.ty ▸ hty)]
    rfl
  · intro m c hm
    obtain ⟨n, c₀, hn', hs, rfl⟩ := hcells m c hm
    rw [Forest.roots_modify, List.countP_map]
    have : ∀ r ∈ c₀.roots, ((fun m : RTNode => decide (m.ty = .cin)) ∘ fun a => if p a then f a else a) r =
        decide (r.ty = .cin) := by
      intro r hr
      simp only [Function.comp, (hsame r (Forest.roots_of_cell hn' hr)).ty]
    rw [List.countP_congr fun r hr => by rw [this r hr]]
    exact h.single n c₀ hn'
  · intro m hm
    obtain ⟨n, hn', hs⟩ := hnodes m hm
    rw [hs.rn, hs.ty]
    exact h.named n hn'
  · intro m hm
    obtain ⟨n, hn', hs⟩ := hnodes m hm
    rw [hs.subs]
    exact h.quiet n hn'
  · intro m hm
    obtain ⟨n, hn', hs⟩ := hnodes m hm
    rw [hs.ty]
    exact h.original n hn'

theorem remove (h : Shape s) {p : RTNode → Bool} (ht : s'.tree = s.tree.remove p)
    (hn : s'.nextId = s.nextId) : Shape s' := by
  have hsub : s'.tree.nodes.Sublist s.tree.nodes := by
    rw [ht]
    exact Forest.nodes_remove_sublist _ _
  constructor
  · exact h.ids.sublist (hsub.map _)
  · intro n hn'
    rw [hn]
    exact h.below n (hsub.subset hn')
  · intro n c hc hty
    rw [ht] at hc
    obtain ⟨c₀, hc₀, rfl, -⟩ := Forest.mem_cells_remove hc
    rw [h.leaf n c₀ hc₀ hty]
    rfl
  · intro n c hc
    rw [ht] at hc
    obtain ⟨c₀, hc₀, rfl, -⟩ := Forest.mem_cells_remove hc
    rw [Forest.roots_remove]
    exact List.filter_sublist.countP_le.trans (h.single n c₀ hc₀)
  · exact fun n hn' => h.named n (hsub.subset hn')
  · exact fun n hn' => h.quiet n (hsub.subset hn')
  · exact fun n hn' => h.original n (hsub.subset hn')

/-- A new leaf with an unused address under a node that is not a content instance. -/
theorem insert (h : Shape s) {x p : RTNode} {c : Forest RTNode} (hp : (p, c) ∈ s.tree.cells)
    (hcin : p.ty ≠ .cin) (hid : x.id = s.nextId) (hsubs : x.subs = []) (hann : x.ty ≠ .cnta)
    (hrn : x.ty = .cin ↔ x.rn = "la".toList) (hx : x.ty = .cin → c.roots.countP (fun m => m.ty = .cin) = 0)
    (ht : s'.tree = s.tree.graft (RTNode.hasId p.id) (insertChild x)) (hn : s'.nextId = s.nextId + 1) :
    Shape s' := by
  have hpm := Forest.mem_nodes_of_cell hp
  have hnodes : s'.tree.nodes.Perm (x :: s.tree.nodes) := by
    rw [ht]
    exact Server.nodes_graft h.ids hpm rfl
  have hcells : ∀ n c', (n, c') ∈ s'.tree.cells → (n, c') = (x, .nil) ∨ ∃ c₀, (n, c₀) ∈ s.tree.cells ∧
      ((n.id ≠ p.id ∧ c' = c₀.graft (RTNode.hasId p.id) (insertChild x)) ∨
       (n = p ∧ c₀ = c ∧ c' = insertChild x (c.graft (RTNode.hasId p.id) (insertChild x)))) := by
    intro n c' hc'
    rw [ht, Forest.mem_cells_graft (mem_cells_insertChild x)] at hc'
    rcases hc' with ⟨a, c₀, hc₀, he⟩ | ⟨he, -⟩
    · cases he
      refine .inr ⟨c₀, hc₀, ?_⟩
      by_cases ha : n.id = p.id
      · obtain ⟨rfl, rfl⟩ := h.ids.cell_eq hc₀ hp ha
        exact .inr ⟨rfl, rfl, by rw [if_pos (hasId_iff.mpr rfl)]⟩
      · exact .inl ⟨ha, by rw [if_neg (fun hh => ha (hasId_iff.mp hh))]⟩
    · exact .inl he
  constructor
  · unfold Server.NodupIds
    rw [(hnodes.map _).nodup_iff, List.map_cons, List.nodup_cons]
    refine ⟨?_, h.ids⟩
    intro hmem
    obtain ⟨m, hm, he⟩ := List.mem_map.mp hmem
    have := h.below m hm
    omega
  · intro n hn'
    rw [hn]
    rcases List.mem_cons.mp (hnodes.subset hn') with rfl | hm
    · omega
    · have := h.below n hm
      omega
  · intro n c' hc' hty
    rcases hcells n c' hc' with he | ⟨c₀, hc₀, ⟨-, rfl⟩ | ⟨rfl, -, -⟩⟩
    · cases he
      rfl
    · rw [h.leaf n c₀ hc₀ hty]
      rfl
    · exact absurd hty hcin
  · intro n c' hc'
    rcases hcells n c' hc' with he | ⟨c₀, hc₀, ⟨-, rfl⟩ | ⟨rfl, rfl, rfl⟩⟩
    · cases he
      exact Nat.zero_le _
    · rw [Forest.roots_graft]
      exact h.single n c₀ hc₀
    · rw [(roots_insertChild x _).countP_eq, Forest.roots_graft, List.countP_cons]
      by_cases hxt : x.ty = .cin
      · rw [hx hxt]
        simp [hxt]
      · have := h.single n c₀ hc₀
        simpa [hxt] using this
  · intro n hn'
    rcases List.mem_cons.mp (hnodes.subset hn') with rfl | hm
    · exact hrn
    · exact h.named n hm
  · intro n hn'
    rcases List.mem_cons.mp (hnodes.subset hn') with rfl | hm
    · exact hsubs
    · exact h.quiet n hm
  · intro n hn'
    rcases List.mem_cons.mp (hnodes.subset hn') with rfl | hm
    · exact hann
    · exact h.original n hm

end Shape

/-! ## The books -/

/-- The attributes the accounting reads. -/
def counted : List Attr := [.ri, .pi, .cni, .cbs, .cs, .uri]

/-- `m` is `n` as far as the accounting goes. -/
structure SameCounts (n m : RTNode) : Prop where
  id : m.id = n.id
  ty : m.ty = n.ty
  attrs : ∀ k ∈ counted, m.obj.get k = n.obj.get k

/-- The counters of every container agree with the instances up to what is pending, and neither two
instances nor two containers nor a container and an instance can be taken for one another. -/
structure Books (d : Pending) (nodes : List RTNode) (keys : List Key) : Prop where
  proper : ∀ k ∈ keys, ProperKey k
  nodupRi : (keys.map Key.ri).Nodup
  apart : ∀ k ∈ keys, ∀ n ∈ nodes, n.ty ≠ .cin → k.ri ≠ n.ri
  cached : ∀ n ∈ nodes, n.ty = .cin → ∀ k ∈ keys, k.ri = n.ri → Caches n.obj k
  cntRi : ∀ n ∈ nodes, ∀ m ∈ nodes, n.ty = .cnt → m.ty = .cnt → n.ri = m.ri → n.id = m.id
  counters : ∀ n ∈ nodes, n.ty = .cnt → ∃ ri, n.obj.get .ri = some (.str ri) ∧ ri ≠ [] ∧
    n.obj.get .cni = some (.int (Ledger.count Key.pi (some ri) keys + (d ri).1)) ∧
    n.obj.get .cbs = some (.int (Ledger.total Key.pi Key.size (some ri) keys + (d ri).2))
  bound : ∀ n ∈ nodes, n.ty = .cnt → ∀ ri, n.ri = some ri →
    Ledger.count Key.pi (some ri) keys ≤ intMax ∧ Ledger.total Key.pi Key.size (some ri) keys ≤ intMax

theorem SameCounts.ri {n m : RTNode} (h : SameCounts n m) : m.ri = n.ri := by
  unfold RTNode.ri Obj.str
  rw [h.attrs .ri (by decide)]

theorem SameCounts.refl (n : RTNode) : SameCounts n n := ⟨rfl, rfl, fun _ _ => rfl⟩

namespace Books

variable {d : Pending} {nodes nodes' : List RTNode} {keys keys' : List Key}

theorem size_eq {k : Key} {c : Int} (hc : k.cs = some (.int c)) (h0 : 0 ≤ c) (h1 : c ≤ intMax) : k.size = c := by
  unfold Key.size
  rw [hc]
  exact Json.valueint_int (by unfold intMin; omega) h1

theorem size_nonneg (h : Books d nodes keys) {k : Key} (hk : k ∈ keys) : 0 ≤ k.size := by
  obtain ⟨ri, pi, c, -, -, -, -, hc, h0, h1⟩ := h.proper k hk
  rw [size_eq hc h0 h1]
  exact h0

theorem total_nonneg (h : Books d nodes keys) (ri : CStr) :
    0 ≤ Ledger.total Key.pi Key.size (some ri) keys :=
  Ledger.total_nonneg fun _ hk => h.size_nonneg hk

/-- Nodes that are old ones as far as the accounting goes. -/
theorem same (h : Books d nodes keys) (hs : ∀ m ∈ nodes', ∃ n ∈ nodes, SameCounts n m) :
    Books d nodes' keys := by
  refine ⟨h.proper, h.nodupRi, ?_, ?_, ?_, ?_, ?_⟩
  · intro k hk m hm hty
    obtain ⟨n, hn, hs⟩ := hs m hm
    rw [hs.ri]
    exact h.apart k hk n hn (hs.ty ▸ hty)
  · intro m hm hty k hk hri
    obtain ⟨n, hn, hs⟩ := hs m hm
    have := h.cached n hn (hs.ty ▸ hty) k hk (hri.trans hs.ri)
    unfold Caches Obj.str at this ⊢
    rwa [hs.attrs .pi (by decide), hs.attrs .cs (by decide), hs.attrs .uri (by decide)]
  · intro m hm m' hm' hty hty' hri
    obtain ⟨n, hn, hs₁⟩ := hs m hm
    obtain ⟨n', hn', hs₂⟩ := hs m' hm'
    rw [hs₁.id, hs₂.id]
    exact h.cntRi n hn n' hn' (hs₁.ty ▸ hty) (hs₂.ty ▸ hty') (by rw [← hs₁.ri, ← hs₂.ri, hri])
  · intro m hm hty
    obtain ⟨n, hn, hs⟩ := hs m hm
    obtain ⟨ri, h1, hne, h2, h3⟩ := h.counters n hn (hs.ty ▸ hty)
    exact ⟨ri, (hs.attrs .ri (by decide)).trans h1, hne, (hs.attrs .cni (by decide)).trans h2,
      (hs.attrs .cbs (by decide)).trans h3⟩
  · intro m hm hty ri hri
    obtain ⟨n, hn, hs⟩ := hs m hm
    exact h.bound n hn (hs.ty ▸ hty) ri (hs.ri ▸ hri)

theorem mono (h : Books d nodes keys) (hs : ∀ m ∈ nodes', m ∈ nodes) : Books d nodes' keys :=
  h.same fun m hm => ⟨m, hs m hm, SameCounts.refl m⟩

/-- One instance goes from the rows: the counters of its parent are ahead by it. -/
theorem dropKey (h : Books d nodes keys) {k : Key} {pi : CStr} (hk : k ∈ keys) (hpi : k.pi = some pi) :
    Books (d.bump pi 1 k.size) nodes (keys.filter fun k' => k'.ri ≠ k.ri) := by
  have hperm := Ledger.perm_cons_filter h.nodupRi hk
  have hsub : ∀ k' ∈ keys.filter (fun k' => k'.ri ≠ k.ri), k' ∈ keys := fun _ hk' => List.mem_of_mem_filter hk'
  have hcount : ∀ ri, Ledger.count Key.pi (some ri) keys = Ledger.count Key.pi (some ri)
      (keys.filter fun k' => k'.ri ≠ k.ri) + if pi = ri then 1 else 0 := by
    intro ri
    rw [Ledger.count_perm hperm, Ledger.count_cons, hpi]
    simp
  have htotal : ∀ ri, Ledger.total Key.pi Key.size (some ri) keys = Ledger.total Key.pi Key.size (some ri)
      (keys.filter fun k' => k'.ri ≠ k.ri) + if pi = ri then k.size else 0 := by
    intro ri
    rw [Ledger.total_perm hperm, Ledger.total_cons, hpi]
    simp
  refine ⟨fun k' hk' => h.proper k' (hsub k' hk'), h.nodupRi.sublist (List.filter_sublist.map _),
    fun k' hk' => h.apart k' (hsub k' hk'), fun n hn hty k' hk' => h.cached n hn hty k' (hsub k' hk'),
    h.cntRi, ?_, ?_⟩
  · intro n hn hty
    obtain ⟨ri, h1, hne, h2, h3⟩ := h.counters n hn hty
    refine ⟨ri, h1, hne, ?_, ?_⟩
    · rw [h2, hcount ri]
      unfold Pending.bump
      by_cases he : ri = pi
      · simp only [he, if_true]
        congr 2
        omega
      · simp [he, Ne.symm he]
    · rw [h3, htotal ri]
      unfold Pending.bump
      by_cases he : ri = pi
      · simp only [he, if_true]
        congr 2
        omega
      · simp [he, Ne.symm he]
  · intro n hn hty ri hri
    have hb := h.bound n hn hty ri hri
    have hsz := h.size_nonneg hk
    rw [hcount ri, htotal ri] at hb
    by_cases he : pi = ri
    · simp only [he, if_true] at hb
      omega
    · simp only [he, if_false] at hb
      omega

/-- An instance with an unused identifier comes to the rows: its parent is behind by it. -/
theorem addKey (h : Books d nodes keys) {k : Key} {ri pi : CStr} {c : Int} (hri : k.ri = some ri)
    (hri0 : ri ≠ []) (hpi : k.pi = some pi) (hpi0 : pi ≠ []) (hcs : k.cs = some (.int c)) (h0 : 0 ≤ c) (h1 : c ≤ intMax)
    (hfresh : ∀ k' ∈ keys, k'.ri ≠ some ri) (hnode : ∀ n ∈ nodes, n.ri ≠ some ri)
    (hc : Ledger.count Key.pi (some pi) keys + 1 ≤ intMax)
    (ht : Ledger.total Key.pi Key.size (some pi) keys + c ≤ intMax) :
    Books (d.bump pi (-1) (-c)) nodes (keys ++ [k]) := by
  have hsize : k.size = c := size_eq hcs h0 h1
  have hperm : (keys ++ [k]).Perm (k :: keys) := List.perm_append_singleton k keys
  have hcount : ∀ q, Ledger.count Key.pi (some q) (keys ++ [k]) =
      Ledger.count Key.pi (some q) keys + if pi = q then 1 else 0 := by
    intro q
    rw [Ledger.count_perm hperm, Ledger.count_cons, hpi]
    simp
  have htotal : ∀ q, Ledger.total Key.pi Key.size (some q) (keys ++ [k]) =
      Ledger.total Key.pi Key.size (some q) keys + if pi = q then c else 0 := by
    intro q
    rw [Ledger.total_perm hperm, Ledger.total_cons, hpi, hsize]
    simp
  have hmem : ∀ k' ∈ keys ++ [k], k' ∈ keys ∨ k' = k := by
    intro k' hk'
    simpa using hk'
  refine ⟨?_, ?_, ?_, ?_, h.cntRi, ?_, ?_⟩
  · intro k' hk'
    rcases hmem k' hk' with hk' | rfl
    · exact h.proper k' hk'
    · exact ⟨ri, pi, c, hri, hri0, hpi, hpi0, hcs, h0, h1⟩
  · rw [(hperm.map _).nodup_iff, List.map_cons, List.nodup_cons]
    refine ⟨?_, h.nodupRi⟩
    intro hm
    obtain ⟨k', hk', he⟩ := List.mem_map.mp hm
    exact hfresh k' hk' (he.trans hri)
  · intro k' hk' n hn hty
    rcases hmem k' hk' with hk' | rfl
    · exact h.apart k' hk' n hn hty
    · rw [hri]
      exact (hnode n hn).symm
  · intro n hn hty k' hk' he
    rcases hmem k' hk' with hk' | rfl
    · exact h.cached n hn hty k' hk' he
    · exact absurd (he.symm.trans hri) (hnode n hn)
  · intro n hn hty
    obtain ⟨q, h1, hne, h2, h3⟩ := h.counters n hn hty
    refine ⟨q, h1, hne, ?_, ?_⟩
    · rw [h2, hcount q]
      unfold Pending.bump
      by_cases he : q = pi
      · simp only [he, if_true]
        congr 2
        omega
      · simp [he, Ne.symm he]
    · rw [h3, htotal q]
      unfold Pending.bump
      by_cases he : q = pi
      · simp only [he, if_true]
        congr 2
        omega
      · simp [he, Ne.symm he]
  · intro n hn hty q hq
    have hb := h.bound n hn hty q hq
    rw [hcount q, htotal q]
    by_cases he : pi = q
    · subst he
      simp only [if_true]
      exact ⟨hc, ht⟩
    · simpa [he] using hb

/-- The counters of one container move by `a` and `b`. -/
theorem bumpNode (h : Books d nodes keys) {n : RTNode} {ri : CStr} {o : Obj} {a b : Int} (hn : n ∈ nodes)
    (hty : n.ty = .cnt) (hri : n.obj.get .ri = some (.str ri)) (hri0 : ri ≠ [])
    (hcni : o.get .cni = some (.int (Ledger.count Key.pi (some ri) keys + (d ri).1 + a)))
    (hcbs : o.get .cbs = some (.int (Ledger.total Key.pi Key.size (some ri) keys + (d ri).2 + b)))
    (hsame : ∀ k ∈ [Attr.ri, .pi, .cs], o.get k = n.obj.get k)
    (hnodes : ∀ m ∈ nodes', (m.id = n.id ∧ m.ty = .cnt ∧ m.obj = o) ∨ (m ∈ nodes ∧ m.id ≠ n.id)) :
    Books (d.bump ri a b) nodes' keys := by
  have hnri : n.ri = some ri := by
    unfold RTNode.ri Obj.str
    rw [hri]
    rfl
  have hori : ∀ m : RTNode, m.obj = o → m.ri = some ri := by
    intro m hm
    unfold RTNode.ri Obj.str
    rw [hm, hsame .ri (by decide), hri]
    rfl
  refine ⟨h.proper, h.nodupRi, ?_, ?_, ?_, ?_, ?_⟩
  · intro k hk m hm hmty
    rcases hnodes m hm with ⟨-, -, ho⟩ | ⟨hm, -⟩
    · rw [hori m ho, ← hnri]
      exact h.apart k hk n hn (by rw [hty]; decide)
    · exact h.apart k hk m hm hmty
  · intro m hm hmty
    rcases hnodes m hm with ⟨-, ht, -⟩ | ⟨hm, -⟩
    · rw [ht] at hmty
      cases hmty
    · exact h.cached m hm hmty
  · intro m hm m' hm' hmty hmty' he
    rcases hnodes m hm with ⟨hid, -, ho⟩ | ⟨hm, hid⟩ <;> rcases hnodes m' hm' with ⟨hid', -, ho'⟩ | ⟨hm', hid'⟩
    · rw [hid, hid']
    · exact absurd (h.cntRi n hn m' hm' hty hmty' (by rw [hnri, ← he, hori m ho])).symm hid'
    · exact absurd (h.cntRi n hn m hm hty hmty (by rw [hnri, he, hori m' ho'])).symm hid
    · exact h.cntRi m hm m' hm' hmty hmty' he
  · intro m hm hmty
    rcases hnodes m hm with ⟨-, -, rfl⟩ | ⟨hm, hid⟩
    · refine ⟨ri, (hsame .ri (by decide)).trans hri, hri0, ?_, ?_⟩
      · rw [hcni]; simp [Pending.bump, Int.add_assoc]
      · rw [hcbs]; simp [Pending.bump, Int.add_assoc]
    · obtain ⟨q, h1, hne, h2, h3⟩ := h.counters m hm hmty
      have hq : q ≠ ri := by
        rintro rfl
        refine hid (h.cntRi n hn m hm hty hmty ?_).symm
        unfold RTNode.ri Obj.str
        rw [hri, h1]
      refine ⟨q, h1, hne, ?_, ?_⟩
      · rw [h2]; simp [Pending.bump, hq]
      · rw [h3]; simp [Pending.bump, hq]
  · intro m hm hmty q hq
    rcases hnodes m hm with ⟨-, -, ho⟩ | ⟨hm, -⟩
    · have := hori m ho
      rw [this] at hq
      exact h.bound n hn hty q (hnri.trans hq)
    · exact h.bound m hm hmty q hq

/-- A cached instance takes the object of another instance, or a new node caches one. -/
theorem cache (h : Books d nodes keys)
    (hnodes : ∀ m ∈ nodes', m ∈ nodes ∨ (m.ty = .cin ∧
      ∀ k ∈ keys, k.ri = m.ri → Caches m.obj k)) : Books d nodes' keys := by
  refine ⟨h.proper, h.nodupRi, ?_, ?_, ?_, ?_, ?_⟩
  · intro k hk m hm hty
    rcases hnodes m hm with hm | ⟨ht, -⟩
    · exact h.apart k hk m hm hty
    · exact absurd ht hty
  · intro m hm hty
    rcases hnodes m hm with hm | ⟨-, hc⟩
    · exact h.cached m hm hty
    · exact hc
  · intro m hm m' hm' hty hty' he
    rcases hnodes m hm with hm | ⟨ht, -⟩
    · rcases hnodes m' hm' with hm' | ⟨ht', -⟩
      · exact h.cntRi m hm m' hm' hty hty' he
      · rw [ht'] at hty'; cases hty'
    · rw [ht] at hty; cases hty
  · intro m hm hty
    rcases hnodes m hm with hm | ⟨ht, -⟩
    · exact h.counters m hm hty
    · rw [ht] at hty; cases hty
  · intro m hm hty
    rcases hnodes m hm with hm | ⟨ht, -⟩
    · exact h.bound m hm hty
    · rw [ht] at hty; cases hty

/-- A new container with an unused identifier and its counters at zero. -/
theorem newCnt (h : Books d nodes keys) {x : RTNode} {ri : CStr} (hri : x.obj.get .ri = some (.str ri))
    (hri0 : ri ≠ [])
    (hcni : x.obj.get .cni = some (.int 0)) (hcbs : x.obj.get .cbs = some (.int 0))
    (hd : d ri = (0, 0)) (hkeys : ∀ k ∈ keys, k.ri ≠ some ri ∧ k.pi ≠ some ri)
    (hfresh : ∀ n ∈ nodes, n.ri ≠ some ri) (hty : x.ty = .cnt)
    (hnodes : ∀ m ∈ nodes', m = x ∨ m ∈ nodes) : Books d nodes' keys := by
  have hxri : x.ri = some ri := by
    unfold RTNode.ri Obj.str
    rw [hri]
    rfl
  have hcount : Ledger.count Key.pi (some ri) keys = 0 := Ledger.count_eq_zero fun k hk => (hkeys k hk).2
  have htotal : Ledger.total Key.pi Key.size (some ri) keys = 0 := Ledger.total_eq_zero fun k hk => (hkeys k hk).2
  refine ⟨h.proper, h.nodupRi, ?_, ?_, ?_, ?_, ?_⟩
  · intro k hk m hm hmty
    rcases hnodes m hm with rfl | hm
    · rw [hxri]; exact (hkeys k hk).1
    · exact h.apart k hk m hm hmty
  · intro m hm hmty
    rcases hnodes m hm with rfl | hm
    · rw [hty] at hmty; cases hmty
    · exact h.cached m hm hmty
  · intro m hm m' hm' hmty hmty' he
    rcases hnodes m hm with rfl | hm <;> rcases hnodes m' hm' with rfl | hm'
    · rfl
    · exact absurd (he.symm.trans hxri) (hfresh m' hm')
    · exact absurd (he.trans hxri) (hfresh m hm)
    · exact h.cntRi m hm m' hm' hmty hmty' he
  · intro m hm hmty
    rcases hnodes m hm with rfl | hm
    · exact ⟨ri, hri, hri0, by rw [hcni, hcount, hd]; rfl, by rw [hcbs, htotal, hd]; rfl⟩
    · exact h.counters m hm hmty
  · intro m hm hmty q hq
    rcases hnodes m hm with rfl | hm
    · rw [hxri] at hq
      cases hq
      rw [hcount, htotal]
      decide
    · exact h.bound m hm hmty q hq

end Books

def PlainRow (r : Row) : Prop := r.ty ≠ .fcin ∧ r.ty ≠ .tsi ∧ r.obj.get .uri = none

/-- The state between two steps of a request. -/
structure CntInv (d : Pending) (s : Server) : Prop where
  shape : Shape s
  books : Books d s.tree.nodes (s.db.keys .cin)
  /-- No other kind of instance is stored, and the uri is kept in its own column only. -/
  rows : ∀ r ∈ s.db, PlainRow r

end TinyIoT
