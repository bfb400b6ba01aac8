/-
The tree operations by what they do to the nodes and cells of the tree: an address names one node, an
assignment changes one node, a new child adds one leaf, `free_rtnode` only takes away.
-/
import TinyIoT.Server.State

namespace TinyIoT

/-! ## Linking a child -/

theorem mem_cells_insertAfter (x : RTNode) (t : Forest RTNode) (e : RTNode × Forest RTNode) :
    e ∈ (insertAfter x t).cells ↔ e = (x, .nil) ∨ e ∈ t.cells := by
  induction t using insertAfter.induct x with
  | case1 => simp [insertAfter, Forest.cells]
  | case2 a c => simp [insertAfter, Forest.cells]; tauto
  | case3 a c b d s hle ih =>
    rw [insertAfter, if_pos hle, Forest.cells, List.mem_cons, List.mem_append, ih]
    simp only [Forest.cells, List.mem_cons, List.mem_append]
    tauto
  | case4 a c b d s hle =>
    rw [insertAfter, if_neg hle]
    simp only [Forest.cells, List.mem_cons, List.mem_append, List.nil_append]
    tauto

/-- A new child comes first, or after the node the walk along the siblings reaches. -/
theorem insertChild_cases (x : RTNode) (t : Forest RTNode) :
    insertChild x t = .node x .nil t ∨ insertChild x t = insertAfter x t := by
  cases t with
  | nil => exact .inl rfl
  | node a c s =>
    cases s <;> (simp only [insertChild]; split <;> simp)

theorem mem_cells_insertChild (x : RTNode) (t : Forest RTNode) (e : RTNode × Forest RTNode) :
    e ∈ (insertChild x t).cells ↔ e = (x, .nil) ∨ e ∈ t.cells := by
  rcases insertChild_cases x t with h | h
  · rw [h]; simp [Forest.cells]
  · rw [h]; exact mem_cells_insertAfter _ _ _

theorem nodes_insertAfter (x : RTNode) (t : Forest RTNode) :
    (insertAfter x t).nodes.Perm (x :: t.nodes) := by
  induction t using insertAfter.induct x with
  | case1 => exact List.Perm.refl _
  | case2 a c =>
    simp only [insertAfter, Forest.nodes, List.append_nil]
    exact (List.Perm.cons a List.perm_append_comm).trans (List.Perm.swap x a _)
  | case3 a c b d s hle ih =>
    rw [insertAfter, if_pos hle]
    have h1 := (ih.append_left c.nodes).trans List.perm_middle
    exact (List.Perm.cons a h1).trans (List.Perm.swap x a _)
  | case4 a c b d s hle =>
    rw [insertAfter, if_neg hle]
    simp only [Forest.nodes, List.nil_append]
    exact (List.Perm.cons a List.perm_middle).trans (List.Perm.swap x a _)

theorem nodes_insertChild (x : RTNode) (t : Forest RTNode) :
    (insertChild x t).nodes.Perm (x :: t.nodes) := by
  rcases insertChild_cases x t with h | h
  · rw [h]; exact List.Perm.refl _
  · rw [h]; exact nodes_insertAfter _ _

theorem roots_insertAfter (x : RTNode) (t : Forest RTNode) :
    (insertAfter x t).roots.Perm (x :: t.roots) := by
  induction t using insertAfter.induct x with
  | case1 => exact List.Perm.refl _
  | case2 a c => exact List.Perm.swap x a []
  | case3 a c b d s hle ih =>
    rw [insertAfter, if_pos hle]
    exact (List.Perm.cons a ih).trans (List.Perm.swap x a _)
  | case4 a c b d s hle =>
    rw [insertAfter, if_neg hle]
    exact List.Perm.swap x a _

theorem roots_insertChild (x : RTNode) (t : Forest RTNode) :
    (insertChild x t).roots.Perm (x :: t.roots) := by
  rcases insertChild_cases x t with h | h
  · rw [h]; exact List.Perm.refl _
  · rw [h]; exact roots_insertAfter _ _

/-- The place of a new child depends on the types only. -/
theorem modify_insertAfter {q : RTNode → Bool} {f : RTNode → RTNode} (hf : ∀ n, (f n).ty = n.ty) {x : RTNode}
    (hx : q x = true) (t : Forest RTNode) :
    (insertAfter x t).modify q f = insertAfter (f x) (t.modify q f) := by
  induction t using insertAfter.induct x with
  | case1 => simp [insertAfter, Forest.modify, hx]
  | case2 a c => simp [insertAfter, Forest.modify, hx]
  | case3 a c b d s hle ih =>
    have hb : (if q b = true then f b else b).ty.code ≤ (f x).ty.code := by split <;> simpa [hf] using hle
    rw [insertAfter, if_pos hle]
    simp only [Forest.modify] at ih ⊢
    rw [insertAfter, if_pos hb, ih]
  | case4 a c b d s hle =>
    have hb : ¬ (if q b = true then f b else b).ty.code ≤ (f x).ty.code := by split <;> simpa [hf] using hle
    rw [insertAfter, if_neg hle]
    simp only [Forest.modify, hx, if_true]
    rw [insertAfter, if_neg hb]

theorem modify_insertChild {q : RTNode → Bool} {f : RTNode → RTNode} (hf : ∀ n, (f n).ty = n.ty) {x : RTNode}
    (hx : q x = true) (t : Forest RTNode) :
    (insertChild x t).modify q f = insertChild (f x) (t.modify q f) := by
  have hty : ∀ a : RTNode, (if q a = true then f a else a).ty = a.ty := by
    intro a
    split <;> simp [hf]
  cases t with
  | nil => simp [insertChild, Forest.modify, hx]
  | node a c s =>
    have hins := modify_insertAfter hf hx (.node a c s)
    cases s with
    | nil =>
      simp only [insertChild, Forest.modify, hty, hf]
      split
      · simp [Forest.modify, hx]
      · simpa [Forest.modify] using hins
    | node b d s =>
      simp only [insertChild, Forest.modify, hty, hf]
      split
      · simp [Forest.modify, hx]
      · simpa [Forest.modify] using hins

/-! ## Addresses -/

theorem hasId_iff {i : Nat} {n : RTNode} : RTNode.hasId i n = true ↔ n.id = i := by
  unfold RTNode.hasId
  exact beq_iff_eq

namespace Server

/-- No two nodes of the tree have the same address. -/
def NodupIds (s : Server) : Prop := (s.tree.nodes.map (·.id)).Nodup

instance (s : Server) : Decidable s.NodupIds := inferInstanceAs (Decidable (s.tree.nodes.map (·.id)).Nodup)

variable {s : Server}

theorem NodupIds.eq (hs : s.NodupIds) {n m : RTNode} (hn : n ∈ s.tree.nodes) (hm : m ∈ s.tree.nodes)
    (h : n.id = m.id) : n = m :=
  List.inj_on_of_nodup_map hs hn hm h

theorem node?_mem {i : Nat} {n : RTNode} (h : s.node? i = some n) : n ∈ s.tree.nodes ∧ n.id = i := by
  obtain ⟨hm, hp⟩ := Forest.find?_mem h
  exact ⟨hm, hasId_iff.mp hp⟩

theorem node?_eq (hs : s.NodupIds) {n : RTNode} (hn : n ∈ s.tree.nodes) : s.node? n.id = some n := by
  rcases hf : s.node? n.id with _ | m
  · have := List.find?_eq_none.mp hf n hn
    simp [RTNode.hasId] at this
  · obtain ⟨hm, hid⟩ := node?_mem hf
    rw [hs.eq hm hn hid]

theorem NodupIds.cell_eq (hs : s.NodupIds) {n m : RTNode} {c d : Forest RTNode} (hn : (n, c) ∈ s.tree.cells)
    (hm : (m, d) ∈ s.tree.cells) (h : n.id = m.id) : n = m ∧ c = d := by
  have hc : (s.tree.cells.map fun e => e.1.id).Nodup := by
    have : s.tree.cells.map (fun e => e.1.id) = s.tree.nodes.map (·.id) := by
      rw [← Forest.cells_map_fst, List.map_map]
      rfl
    rw [this]
    exact hs
  have := List.inj_on_of_nodup_map hc hn hm h
  exact ⟨congrArg Prod.fst this, congrArg Prod.snd this⟩

theorem children_eq (hs : s.NodupIds) {n : RTNode} {c : Forest RTNode} (hn : (n, c) ∈ s.tree.cells) :
    s.children n.id = c := by
  unfold children
  rcases hf : s.tree.cell? (RTNode.hasId n.id) with _ | ⟨m, d⟩
  · have := List.find?_eq_none.mp hf (n, c) hn
    simp [RTNode.hasId] at this
  · obtain ⟨hm, hp⟩ := Forest.cell?_mem hf
    exact (hs.cell_eq hm hn (hasId_iff.mp hp)).2

/-- The children of a node are those of its cell, or there is no such node. -/
theorem children_cell {i : Nat} : (∃ n, (n, s.children i) ∈ s.tree.cells ∧ n.id = i) ∨ s.children i = .nil := by
  unfold children
  rcases hf : s.tree.cell? (RTNode.hasId i) with _ | ⟨m, d⟩
  · exact .inr rfl
  · obtain ⟨hm, hp⟩ := Forest.cell?_mem hf
    exact .inl ⟨m, hm, hasId_iff.mp hp⟩

theorem mem_of_mem_children {i : Nat} {m : RTNode} (h : m ∈ (s.children i).roots) : m ∈ s.tree.nodes := by
  rcases children_cell (s := s) (i := i) with ⟨n, hn, -⟩ | hn
  · exact Forest.roots_of_cell hn h
  · rw [hn] at h
    cases h

theorem parentId_mem {i j : Nat} (h : s.parentId i = some j) :
    ∃ n c m, (n, c) ∈ s.tree.cells ∧ n.id = j ∧ m ∈ c.roots ∧ m.id = i := by
  unfold parentId Forest.parent? at h
  rcases hf : s.tree.cells.find? (fun e => e.2.roots.any (RTNode.hasId i)) with _ | ⟨n, c⟩
  · rw [hf] at h; cases h
  · rw [hf] at h
    simp only [Option.map_some, Option.some.injEq] at h
    have hp := List.find?_some hf
    obtain ⟨m, hm, hmi⟩ := List.any_eq_true.mp hp
    exact ⟨n, c, m, List.mem_of_find?_eq_some hf, h, hm, hasId_iff.mp hmi⟩

/-! ## What the operations do to the nodes -/

theorem nodes_modifyNode (i : Nat) (f : RTNode → RTNode) :
    (s.modifyNode i f).tree.nodes = s.tree.nodes.map fun n => if n.id = i then f n else n := by
  unfold modifyNode
  rw [Forest.nodes_modify]
  simp only [RTNode.hasId, beq_iff_eq]

/-- A change that keeps the addresses. -/
theorem NodupIds.modify (hs : s.NodupIds) {s' : Server} {i : Nat} {f : RTNode → RTNode}
    (hf : ∀ n ∈ s.tree.nodes, n.id = i → (f n).id = n.id) (ht : s'.tree = s.tree.modify (RTNode.hasId i) f) : s'.NodupIds := by
  have hids : s'.tree.nodes.map (·.id) = s.tree.nodes.map (·.id) := by
    rw [ht, Forest.nodes_modify, List.map_map]
    refine List.map_congr_left fun n hn => ?_
    simp only [Function.comp]
    split
    · rename_i hi
      exact hf n hn (hasId_iff.mp hi)
    · rfl
  unfold NodupIds
  rw [hids]
  exact hs

theorem mem_setObj {n : RTNode} (hn : n ∈ s.tree.nodes) (o : Obj) :
    { n with obj := o } ∈ (s.setObj n.id o).tree.nodes := by
  rw [setObj, nodes_modifyNode]
  exact List.mem_map.mpr ⟨n, hn, if_pos rfl⟩

/-- The nodes after an assignment to the object of one of them. -/
theorem mem_nodes_setObj (hs : s.NodupIds) {t m : RTNode} (ht : t ∈ s.tree.nodes) {o : Obj}
    (hm : m ∈ (s.setObj t.id o).tree.nodes) : m = { t with obj := o } ∨ (m ∈ s.tree.nodes ∧ m ≠ t) := by
  rw [setObj, nodes_modifyNode] at hm
  obtain ⟨n, hn, rfl⟩ := List.mem_map.mp hm
  by_cases hid : n.id = t.id
  · rw [if_pos hid]
    obtain rfl := hs.eq hn ht hid
    exact .inl rfl
  · rw [if_neg hid]
    exact .inr ⟨hn, fun he => hid (congrArg RTNode.id he)⟩

theorem cells_modifyNode (i : Nat) (f : RTNode → RTNode) :
    (s.modifyNode i f).tree.cells =
      s.tree.cells.map fun e => (if e.1.id = i then f e.1 else e.1, e.2.modify (RTNode.hasId i) f) := by
  unfold modifyNode
  rw [Forest.cells_modify]
  simp only [RTNode.hasId, beq_iff_eq]

@[simp] theorem modifyNode_db (i : Nat) (f : RTNode → RTNode) : (s.modifyNode i f).db = s.db := rfl

@[simp] theorem setObj_db (i : Nat) (o : Obj) : (s.setObj i o).db = s.db := rfl

/-- The node an address names after an assignment to a node. -/
theorem node?_modifyNode {i j : Nat} {f : RTNode → RTNode} (hf : ∀ n, (f n).id = n.id) :
    (s.modifyNode i f).node? j = (s.node? j).map fun n => if n.id = i then f n else n := by
  unfold node? modifyNode Forest.find?
  rw [Forest.nodes_modify]
  induction s.tree.nodes with
  | nil => rfl
  | cons n l ih =>
    have hid : RTNode.hasId j (if RTNode.hasId i n = true then f n else n) = RTNode.hasId j n := by
      split <;> simp [RTNode.hasId, hf]
    rw [List.map_cons, List.find?_cons, List.find?_cons, hid]
    cases h : RTNode.hasId j n
    · simpa using ih
    · simp [RTNode.hasId]

/-- What `add_child_resource_tree` does to the tree, for a child that is neither a subscription nor a CSR. -/
theorem addChildResourceTree_plain {parent child : RTNode} (h1 : child.ty ≠ .csr) (h2 : child.ty ≠ .sub) :
    s.addChildResourceTree parent child =
      { s with tree := s.tree.graft (RTNode.hasId parent.id)
                  (insertChild { child with uri := parent.uri ++ '/' :: child.rn }) } := by
  unfold addChildResourceTree
  simp [h1, h2]

theorem nodes_graft {i : Nat} {x p : RTNode} (hs : s.NodupIds) (hp : p ∈ s.tree.nodes) (hi : p.id = i) :
    (s.tree.graft (RTNode.hasId i) (insertChild x)).nodes.Perm (x :: s.tree.nodes) := by
  have hcount : s.tree.nodes.countP (RTNode.hasId i) = 1 := by
    have h1 : s.tree.nodes.countP (RTNode.hasId i) = (s.tree.nodes.map (·.id)).count i := by
      rw [List.count, List.countP_map]
      rfl
    rw [h1]
    exact List.count_eq_one_of_mem hs (List.mem_map.mpr ⟨p, hp, hi⟩)
  have := Forest.nodes_graft_perm (p := RTNode.hasId i) (nodes_insertChild x) s.tree
  rw [hcount] at this
  exact this

/-- Whatever node it is linked below, a new node is the only one that comes. -/
theorem mem_nodes_graft (hs : s.NodupIds) {i : Nat} {x : RTNode} (hx : ∀ n ∈ s.tree.nodes, n.id ≠ x.id) {s' : Server}
    (ht : s'.tree = s.tree.graft (RTNode.hasId i) (insertChild x)) :
    s'.NodupIds ∧ ∀ n ∈ s'.tree.nodes, n = x ∨ n ∈ s.tree.nodes := by
  by_cases hp : ∃ p ∈ s.tree.nodes, p.id = i
  · obtain ⟨p, hp, hi⟩ := hp
    have hperm : s'.tree.nodes.Perm (x :: s.tree.nodes) := ht ▸ nodes_graft hs hp hi
    refine ⟨?_, fun n hn => by simpa using hperm.subset hn⟩
    unfold NodupIds
    rw [(hperm.map _).nodup_iff, List.map_cons, List.nodup_cons]
    refine ⟨fun hmem => ?_, hs⟩
    obtain ⟨m, hm, he⟩ := List.mem_map.mp hmem
    exact hx m hm he
  · have hself : s'.tree = s.tree := by
      rw [ht]
      refine Forest.graft_eq_self fun a ha => ?_
      by_contra hid
      exact hp ⟨a, ha, hasId_iff.mp (by simpa using hid)⟩
    unfold NodupIds
    rw [hself]
    exact ⟨hs, fun n hn => .inr hn⟩

/-! ## What the operations do to the children of a node -/

theorem children_modifyNode {i j : Nat} {f : RTNode → RTNode} (hf : ∀ n, (f n).id = n.id) :
    (s.modifyNode i f).children j = (s.children j).modify (RTNode.hasId i) f := by
  unfold children Forest.cell?
  rw [cells_modifyNode]
  induction s.tree.cells with
  | nil => rfl
  | cons e l ih =>
    have hid : RTNode.hasId j (if e.1.id = i then f e.1 else e.1) = RTNode.hasId j e.1 := by
      split <;> simp [RTNode.hasId, hf]
    rw [List.map_cons, List.find?_cons, List.find?_cons]
    dsimp only
    rw [hid]
    cases h : RTNode.hasId j e.1
    · exact ih
    · rfl

/-- The children of a node that is left after `free_rtnode`. -/
theorem children_freeRtnode (hs : s.NodupIds) {i : Nat} {n : RTNode} (hn : n ∈ (s.freeRtnode i).tree.nodes) :
    ((s.freeRtnode i).children n.id).roots = (s.children n.id).roots.filter fun m => m.id ≠ i := by
  have hs' : (s.freeRtnode i).NodupIds := hs.sublist ((Forest.nodes_remove_sublist _ _).map _)
  obtain ⟨c, hc⟩ := Forest.mem_nodes_iff.mp hn
  obtain ⟨c₀, hc₀, rfl, -⟩ := Forest.mem_cells_remove hc
  rw [children_eq hs' hc, children_eq hs hc₀, Forest.roots_remove]
  apply List.filter_congr
  intro m _
  by_cases h : m.id = i <;> simp [RTNode.hasId, h]

/-- The children of the nodes after a new one is linked below `p`. -/
theorem children_graft (hs : s.NodupIds) {p x : RTNode} (hp : p ∈ s.tree.nodes) (hx : ∀ n ∈ s.tree.nodes, n.id ≠ x.id)
    {s' : Server} (ht : s'.tree = s.tree.graft (RTNode.hasId p.id) (insertChild x)) :
    s'.NodupIds ∧ s'.children x.id = .nil ∧ ∀ n ∈ s.tree.nodes, n ∈ s'.tree.nodes ∧
      ((n.id ≠ p.id ∧ (s'.children n.id).roots = (s.children n.id).roots) ∨
       (n = p ∧ ∃ c, c.roots = (s.children p.id).roots ∧ s'.children p.id = insertChild x c)) := by
  have hperm : s'.tree.nodes.Perm (x :: s.tree.nodes) := by
    rw [ht]
    exact nodes_graft hs hp rfl
  have hs' : s'.NodupIds := (mem_nodes_graft hs hx ht).1
  have hcells := fun e => Forest.mem_cells_graft (p := RTNode.hasId p.id) (mem_cells_insertChild x)
    (t := s.tree) (e := e)
  refine ⟨hs', ?_, ?_⟩
  · have hxc : (x, Forest.nil) ∈ s'.tree.cells := by
      rw [ht, hcells]
      exact .inr ⟨rfl, p, hp, hasId_iff.mpr rfl⟩
    exact children_eq hs' hxc
  · intro n hn
    refine ⟨hperm.symm.subset (List.mem_cons_of_mem _ hn), ?_⟩
    obtain ⟨c, hc⟩ := Forest.mem_nodes_iff.mp hn
    by_cases hid : n.id = p.id
    · obtain rfl := hs.eq hn hp hid
      refine .inr ⟨rfl, c.graft (RTNode.hasId n.id) (insertChild x), ?_, ?_⟩
      · rw [Forest.roots_graft, children_eq hs hc]
      · refine children_eq hs' (?_ : (n, _) ∈ s'.tree.cells)
        rw [ht, hcells]
        exact .inl ⟨n, c, hc, by rw [if_pos (hasId_iff.mpr rfl)]⟩
    · refine .inl ⟨hid, ?_⟩
      have hc' : (n, c.graft (RTNode.hasId p.id) (insertChild x)) ∈ s'.tree.cells := by
        rw [ht, hcells]
        exact .inl ⟨n, c, hc, by rw [if_neg (fun h => hid (hasId_iff.mp h))]⟩
      rw [children_eq hs' hc', children_eq hs hc, Forest.roots_graft]

theorem parentId_of_child {c m : RTNode} {k : Forest RTNode} (hs : s.NodupIds) (hk : (c, k) ∈ s.tree.cells)
    (hm : m ∈ k.roots) : s.parentId m.id = some c.id := by
  unfold parentId Forest.parent?
  cases hf : s.tree.cells.find? fun e => e.2.roots.any (RTNode.hasId m.id) with
  | none =>
    have := List.find?_eq_none.mp hf (c, k) hk
    exact absurd (List.any_eq_true.mpr ⟨m, hm, hasId_iff.mpr rfl⟩) this
  | some e =>
    have hany := List.find?_some hf
    obtain ⟨m', hm', hid⟩ := List.any_eq_true.mp hany
    have he : e = (c, k) := Forest.cell_of_child hs (List.mem_of_find?_eq_some hf) hk hm' hm (hasId_iff.mp hid)
    rw [Option.map_some, Option.map_some, he]

end Server

end TinyIoT
