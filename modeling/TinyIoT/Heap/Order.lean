/-
Runs of `create_rtnode`, `add_child_resource_tree` and `free_rtnode` from a tree that holds the CSEBase
only. In every state they reach, memory holds a tree: each child list is ordered by type and, within a
type, by the time the children came in; pointers to neighbours are inverse to each other; no node occurs
twice. Both operations return, and `free_rtnode` takes out a node with what is below it and keeps the
order of the rest.
-/
import TinyIoT.Heap.Nodes
import TinyIoT.Lib.Reach

namespace TinyIoT

open Links

/-- A call with bounded loops returns `b`: it does so with every bound that is large enough. -/
def Returns {β : Type} (f : Nat → Option β) (b : β) : Prop := ∃ N, ∀ fuel ≥ N, f fuel = some b

theorem Returns.unique {β : Type} {f : Nat → Option β} {b b' : β} (h : Returns f b) (h' : Returns f b') : b = b' := by
  obtain ⟨N, hN⟩ := h
  obtain ⟨N', hN'⟩ := h'
  exact Option.some.inj ((hN (max N N') (Nat.le_max_left _ _)).symm.trans (hN' (max N N') (Nat.le_max_right _ _)))

/-! ## The order of the children -/

/-- The order of siblings: by type, within a type in the order `o` they came in. -/
def Precedes (o : List Nat) (n m : RTNode) : Prop :=
  n.ty.code < m.ty.code ∨ n.ty.code = m.ty.code ∧ [n.id, m.id].Sublist o

theorem Precedes.le {o : List Nat} {n m : RTNode} (h : Precedes o n m) : n.ty.code ≤ m.ty.code := by
  rcases h with h | ⟨h, -⟩ <;> omega

theorem Precedes.mono {o o' : List Nat} {n m : RTNode} (h : Precedes o n m) (ho : [n.id, m.id].Sublist o → [n.id, m.id].Sublist o') :
    Precedes o' n m := h.imp_right fun ⟨h1, h2⟩ => ⟨h1, ho h2⟩

/-- Where a new child comes among siblings ordered by type: after those of its type and below. -/
theorem roots_insertAfter_sorted {x a : RTNode} {c s : Forest RTNode}
    (hs : (Forest.node a c s).roots.Pairwise fun n m => n.ty.code ≤ m.ty.code) (ha : a.ty.code ≤ x.ty.code) :
    ∃ l₁ l₂, (Forest.node a c s).roots = l₁ ++ l₂ ∧ (insertAfter x (.node a c s)).roots = l₁ ++ x :: l₂ ∧
      (∀ n ∈ l₁, n.ty.code ≤ x.ty.code) ∧ ∀ n ∈ l₂, x.ty.code < n.ty.code := by
  induction s generalizing a c with
  | nil => exact ⟨[a], [], rfl, rfl, by simpa using ha, by simp⟩
  | node b d s _ ih =>
    rw [Forest.roots, List.pairwise_cons] at hs
    unfold insertAfter
    by_cases hb : b.ty.code ≤ x.ty.code
    · obtain ⟨l₁, l₂, h1, h2, h3, h4⟩ := ih hs.2 hb
      rw [if_pos hb]
      refine ⟨a :: l₁, l₂, by rw [Forest.roots, h1]; rfl, by rw [Forest.roots, h2]; rfl, ?_, h4⟩
      simpa using ⟨ha, h3⟩
    · rw [if_neg hb]
      refine ⟨[a], (Forest.node b d s).roots, rfl, rfl, by simpa using ha, fun n hn => ?_⟩
      rw [Forest.roots, List.pairwise_cons] at hs
      rcases List.mem_cons.mp hn with rfl | hn
      · omega
      · have := hs.2.1 n hn
        omega

theorem roots_insertChild_sorted {x : RTNode} {t : Forest RTNode}
    (hs : t.roots.Pairwise fun n m => n.ty.code ≤ m.ty.code) :
    ∃ l₁ l₂, t.roots = l₁ ++ l₂ ∧ (insertChild x t).roots = l₁ ++ x :: l₂ ∧
      (∀ n ∈ l₁, n.ty.code ≤ x.ty.code) ∧ ∀ n ∈ l₂, x.ty.code < n.ty.code := by
  cases t with
  | nil => exact ⟨[], [], rfl, rfl, by simp, by simp⟩
  | node a c s =>
    have hall : ∀ n ∈ s.roots, a.ty.code ≤ n.ty.code := fun n hn => (List.pairwise_cons.mp hs).1 n hn
    by_cases hlt : x.ty.code < a.ty.code
    · -- nothing the walk could pass
      have hfirst : insertChild x (.node a c s) = .node x .nil (.node a c s) := by
        cases s with
        | nil => simp [insertChild, hlt]
        | node b d s =>
          have := hall b (by simp [Forest.roots])
          simp [insertChild, hlt, show ¬ b.ty.code ≤ x.ty.code by omega]
      refine ⟨[], (Forest.node a c s).roots, rfl, by rw [hfirst]; rfl, by simp, fun n hn => ?_⟩
      rcases List.mem_cons.mp hn with rfl | hn
      · exact hlt
      · have := hall n hn
        omega
    · have hafter : insertChild x (.node a c s) = insertAfter x (.node a c s) := by
        cases s <;> simp [insertChild, hlt]
      rw [hafter]
      exact roots_insertAfter_sorted hs (by omega)

/-- A child that comes in last keeps the order. -/
theorem precedes_insertChild {o : List Nat} {x : RTNode} {t : Forest RTNode} (hs : t.roots.Pairwise (Precedes o))
    (ho : ∀ n ∈ t.roots, n.id ∈ o) : (insertChild x t).roots.Pairwise (Precedes (o ++ [x.id])) := by
  obtain ⟨l₁, l₂, h1, h2, h3, h4⟩ := roots_insertChild_sorted (x := x) (hs.imp Precedes.le)
  have hmono : ∀ n m, Precedes o n m → Precedes (o ++ [x.id]) n m := fun n m h =>
    h.mono fun hs => hs.trans (List.sublist_append_left _ _)
  rw [h1, List.pairwise_append] at hs
  rw [h2, List.pairwise_append, List.pairwise_cons]
  refine ⟨hs.1.imp (hmono _ _), ⟨fun n hn => .inl (h4 n hn), hs.2.1.imp (hmono _ _)⟩, fun n hn m hm => ?_⟩
  rcases List.mem_cons.mp hm with rfl | hm
  · have hle := h3 n hn
    by_cases heq : n.ty.code = m.ty.code
    · refine .inr ⟨heq, ?_⟩
      have hn' : [n.id].Sublist o := List.singleton_sublist.mpr (ho n (by rw [h1]; exact List.mem_append_left _ hn))
      exact hn'.append (List.Sublist.refl [m.id])
    · exact .inl (by omega)
  · exact hmono _ _ (hs.2.2 n hn m hm)

/-- Every child list of the tree is in order. -/
def Sorted (o : List Nat) (t : Forest RTNode) : Prop := ∀ a k, (a, k) ∈ t.cells → k.roots.Pairwise (Precedes o)

theorem Sorted.graft {o : List Nat} {t : Forest RTNode} (hs : Sorted o t) (ho : ∀ n ∈ t.nodes, n.id ∈ o) (p : Nat)
    (x : RTNode) : Sorted (o ++ [x.id]) (t.graft (RTNode.hasId p) (insertChild x)) := by
  intro a k hak
  rcases (Forest.mem_cells_graft (mem_cells_insertChild x)).mp hak with ⟨b, c, hc, he⟩ | ⟨he, -⟩
  · cases he
    have hroots := Forest.roots_graft (RTNode.hasId p) (insertChild x) c
    have hc' := hs _ c hc
    split
    · refine precedes_insertChild ?_ ?_
      · rw [hroots]
        exact hc'
      · rw [hroots]
        exact fun n hn => ho n (Forest.roots_of_cell hc hn)
    · rw [hroots]
      exact hc'.imp fun h => h.mono fun hl => hl.trans (List.sublist_append_left _ _)
  · cases he
    exact List.Pairwise.nil

theorem Sorted.modify {o : List Nat} {t : Forest RTNode} (hs : Sorted o t) (p : RTNode → Bool) {f : RTNode → RTNode}
    (hf : ∀ n, (f n).id = n.id ∧ (f n).ty = n.ty) : Sorted o (t.modify p f) := by
  intro a k hak
  rw [Forest.cells_modify, List.mem_map] at hak
  obtain ⟨⟨b, c⟩, hc, he⟩ := hak
  cases he
  rw [Forest.roots_modify, List.pairwise_map]
  refine (hs b c hc).imp fun {n m} h => ?_
  have hsame : ∀ n, (if p n = true then f n else n).id = n.id ∧ (if p n = true then f n else n).ty = n.ty := by
    intro n
    split
    · exact hf n
    · exact ⟨rfl, rfl⟩
  unfold Precedes
  rw [(hsame n).1, (hsame n).2, (hsame m).1, (hsame m).2]
  exact h

/-- What is left after a removal is in order, also in the order of what is left. -/
theorem Sorted.remove {o : List Nat} {t : Forest RTNode} (hs : Sorted o t) (p : RTNode → Bool) {q : Nat → Bool}
    (hq : ∀ n ∈ (t.remove p).nodes, q n.id = true) : Sorted (o.filter q) (t.remove p) := by
  intro a k hak
  obtain ⟨c, hc, rfl, -⟩ := Forest.mem_cells_remove hak
  have hkeep : ∀ n ∈ (c.remove p).roots, q n.id = true := fun n hn => hq n (Forest.roots_of_cell hak hn)
  have hsub : (c.remove p).roots.Pairwise (Precedes o) := by
    rw [Forest.roots_remove]
    exact (hs a c hc).sublist List.filter_sublist
  refine hsub.imp_of_mem fun hn hm h => h.mono fun hl => ?_
  have := hl.filter q
  rwa [List.filter_eq_self.mpr (by simpa using ⟨hkeep _ hn, hkeep _ hm⟩)] at this

/-! ## Runs -/

/-- The memory, and the nodes of the tree in the order they came into it. -/
structure Grown where
  mem : Mem
  order : List Nat

/-- A tree that holds the CSEBase only. -/
def onlyCb (σ : Grown) : Prop :=
  ∃ cb : RTNode, σ = ⟨⟨fun i => if i = cb.id then some { val := cb } else none, []⟩, [cb.id]⟩

/-- One call: `create_rtnode`, `add_child_resource_tree` of a node that was made and is not in the tree
under one that is, or `free_rtnode`. -/
inductive TreeStep : Grown → Grown → Prop where
  | create {σ : Grown} {x : RTNode} : σ.mem.heap x.id = none →
      TreeStep σ ⟨{ σ.mem with heap := σ.mem.heap.set x.id { val := x } }, σ.order⟩
  | add {σ : Grown} {p x : Nat} {m : Mem} : p ∈ σ.order → x ∉ σ.order → (σ.mem.heap x).isSome →
      Returns (fun fuel => σ.mem.addChildResourceTree fuel p x) m → TreeStep σ ⟨m, σ.order ++ [x]⟩
  | free {σ : Grown} {n : Nat} {h : Heap RTNode} : (σ.mem.heap n).isSome →
      Returns (fun fuel => Mem.freeRtnode fuel σ.mem.heap n) h →
      TreeStep σ ⟨{ σ.mem with heap := h }, σ.order.filter fun i => (h i).isSome⟩

/-- The representation invariant: memory holds a tree of the nodes in `order`, all other nodes are
unlinked, and every child list is in order. -/
structure TreeOk (σ : Grown) (s : Server) : Prop where
  holds : σ.mem.Holds s
  members : (addrs RTNode.id s.tree).Perm σ.order
  loose : ∀ i c, σ.mem.heap i = some c → i ∉ σ.order → c = { val := c.val } ∧ c.val.id = i
  sorted : Sorted σ.order s.tree

namespace TreeOk

variable {σ : Grown} {s : Server}

theorem nodup (h : TreeOk σ s) : σ.order.Nodup := h.members.nodup_iff.mp h.holds.nodup

/-- Every node of the order is a node of the tree. -/
theorem node_of_mem (h : TreeOk σ s) {i : Nat} (hi : i ∈ σ.order) : ∃ n ∈ s.tree.nodes, n.id = i :=
  List.mem_map.mp (h.members.mem_iff.mpr hi)

theorem create (h : TreeOk σ s) {x : RTNode} (hx : σ.mem.heap x.id = none) :
    TreeOk ⟨{ σ.mem with heap := σ.mem.heap.set x.id { val := x } }, σ.order⟩ s := by
  have hne : ∀ i ∈ addrs RTNode.id s.tree, i ≠ x.id := by
    rintro i hi rfl
    obtain ⟨c, hc⟩ := h.holds.tree.isSome_of_mem hi
    rw [hx] at hc
    cases hc
  refine ⟨⟨h.holds.tree.congr fun i hi => Heap.set_ne (hne i hi), h.holds.nodup, h.holds.csrList⟩, h.members,
    fun i c hc hi => ?_, h.sorted⟩
  by_cases hix : i = x.id
  · subst hix
    obtain rfl := Option.some.inj ((Heap.set_self _ _ _).symm.trans hc)
    exact ⟨rfl, rfl⟩
  · exact h.loose i c ((Heap.set_ne hix).symm.trans hc) hi

/-- A new child: the call returns, and the tree is the old one with the child in its place. -/
theorem add (h : TreeOk σ s) {p : RTNode} {i : Nat} (hp : p ∈ s.tree.nodes) (hi : i ∉ σ.order)
    (hsome : (σ.mem.heap i).isSome) :
    ∃ x m, x.id = i ∧ σ.mem.heap i = some { val := x } ∧
      Returns (fun fuel => σ.mem.addChildResourceTree fuel p.id i) m ∧
      TreeOk ⟨m, σ.order ++ [i]⟩ (s.addChildResourceTree p x) := by
  obtain ⟨c, hc⟩ := Option.isSome_iff_exists.mp hsome
  obtain ⟨hval, hid⟩ := h.loose i c hc hi
  obtain ⟨x, q, k, l, r⟩ := c
  dsimp only at hval hid
  cases hval
  subst hid
  have hxt : x.id ∉ addrs RTNode.id s.tree := fun ht => hi (h.members.mem_iff.mp ht)
  have hloose : σ.mem.Loose s x := ⟨⟨none, hc⟩, hxt⟩
  obtain ⟨m, hret, hholds, hkeep⟩ := h.holds.addChildResourceTree hp hloose
  have hperm : (s.tree.graft (RTNode.hasId p.id) (insertChild { x with uri := p.uri ++ '/' :: x.rn })).nodes.Perm
      ({ x with uri := p.uri ++ '/' :: x.rn } :: s.tree.nodes) := Server.nodes_graft h.holds.nodup hp rfl
  refine ⟨x, m, rfl, hc, ⟨_, hret⟩, hholds, ?_, fun j c hj hjo => ?_, ?_⟩
  · -- the nodes are those there were and the new one
    refine List.Perm.trans ?_ ((h.members.cons x.id).trans (List.perm_append_singleton _ _).symm)
    rw [Mem.tree_addChildResourceTree, addrs_modify fun n => Mem.adopt_id n x]
    exact hperm.map RTNode.id
  · rw [List.mem_append, List.mem_singleton, not_or] at hjo
    rw [hkeep j hjo.2 fun ht => hjo.1 (h.members.mem_iff.mp ht)] at hj
    exact h.loose j c hj hjo.1
  · have hgraft := h.sorted.graft (fun n hn => h.members.mem_iff.mp (mem_addrs_of_mem hn)) p.id
      { x with uri := p.uri ++ '/' :: x.rn }
    rw [Mem.tree_addChildResourceTree]
    exact hgraft.modify _ fun n => ⟨Mem.adopt_id n x, Mem.adopt_ty n x⟩

/-- A node goes with what is below it: the call returns, and nothing else goes. -/
theorem free (h : TreeOk σ s) {x : RTNode} {k : Forest RTNode} (hx : (x, k) ∈ s.tree.cells) :
    ∃ g, Returns (fun fuel => Mem.freeRtnode fuel σ.mem.heap x.id) g ∧
      (∀ i, (g i).isSome ↔ (σ.mem.heap i).isSome ∧ i ∉ x.id :: addrs RTNode.id k) ∧
      TreeOk ⟨{ σ.mem with heap := g }, σ.order.filter fun i => (g i).isSome⟩ (s.freeRtnode x.id) := by
  obtain ⟨g, hret, hholds, hgone, hkeep⟩ := h.holds.freeRtnode hx
  have hperm := addrs_perm_remove h.holds.nodup hx
  have hnd := hperm.nodup_iff.mp h.holds.nodup
  rw [← List.cons_append, List.nodup_append] at hnd
  have hleft : ∀ i ∈ addrs RTNode.id (s.tree.remove (RTNode.hasId x.id)), (g i).isSome := fun i hi => by
    obtain ⟨c, hc⟩ := hholds.tree.isSome_of_mem hi
    exact Option.isSome_iff_exists.mpr ⟨c, hc⟩
  have hiff : ∀ i, (g i).isSome ↔ (σ.mem.heap i).isSome ∧ i ∉ x.id :: addrs RTNode.id k := by
    intro i
    by_cases hi : i ∈ x.id :: addrs RTNode.id k
    · simp [hgone i hi, hi]
    · simp only [hi, not_false_eq_true, and_true]
      by_cases hit : i ∈ addrs RTNode.id s.tree
      · have hir : i ∈ addrs RTNode.id (s.tree.remove (RTNode.hasId x.id)) := by
          rw [hperm.mem_iff, ← List.cons_append, List.mem_append] at hit
          exact hit.resolve_left hi
        obtain ⟨c, hc⟩ := h.holds.tree.isSome_of_mem hit
        simp [hleft i hir, hc]
      · rw [hkeep i hit]
  refine ⟨g, ⟨_, fun fuel hf => hret fuel hf⟩, hiff, hholds, ?_, fun i c hc hi => ?_, ?_⟩
  · refine List.Perm.trans ?_ ((h.members.symm.trans hperm).filter _).symm
    rw [← List.cons_append, List.filter_append, List.filter_eq_nil_iff.mpr fun i hi => by simp [hgone i hi],
      List.nil_append]
    exact List.Perm.of_eq (List.filter_eq_self.mpr hleft).symm
  · have hi' : i ∉ σ.order := fun ho => hi (List.mem_filter.mpr ⟨ho, Option.isSome_iff_exists.mpr ⟨c, hc⟩⟩)
    exact h.loose i c ((hkeep i fun ht => hi' (h.members.mem_iff.mp ht)).symm.trans hc) hi'
  · exact h.sorted.remove _ fun n hn => hleft _ (mem_addrs_of_mem hn)

/-- Freeing a node that is in no tree changes nothing else. -/
theorem freeLoose (h : TreeOk σ s) {n : Nat} (hn : n ∉ σ.order) (hsome : (σ.mem.heap n).isSome) :
    Returns (fun fuel => Mem.freeRtnode fuel σ.mem.heap n) (σ.mem.heap.del n) ∧
      TreeOk ⟨{ σ.mem with heap := σ.mem.heap.del n }, σ.order.filter fun i => (σ.mem.heap.del n i).isSome⟩ s := by
  obtain ⟨c, hc⟩ := Option.isSome_iff_exists.mp hsome
  obtain ⟨hval, hid⟩ := h.loose n c hc hn
  obtain ⟨x, q, k, l, r⟩ := c
  dsimp only at hval hid
  cases hval
  subst hid
  have hstay : ∀ i ∈ addrs RTNode.id s.tree, σ.mem.heap.del x.id i = σ.mem.heap i := fun i hi =>
    Heap.del_ne fun he => hn (h.members.mem_iff.mp (he ▸ hi))
  have horder : (σ.order.filter fun i => (σ.mem.heap.del x.id i).isSome) = σ.order := by
    refine List.filter_eq_self.mpr fun i hi => ?_
    have hit := h.members.mem_iff.mpr hi
    obtain ⟨c, hc⟩ := h.holds.tree.isSome_of_mem hit
    rw [hstay i hit, hc]
    rfl
  refine ⟨⟨2, fun fuel hf => ?_⟩, ?_⟩
  · obtain ⟨fuel, rfl⟩ : ∃ j, fuel = j + 2 := ⟨fuel - 2, by omega⟩
    simp [Mem.freeRtnode, Mem.unlink, Mem.freeChildren, Heap.assignOpt, hc]
  · rw [horder]
    refine ⟨⟨h.holds.tree.congr hstay, h.holds.nodup, h.holds.csrList⟩, h.members, fun i c hi hio => ?_, h.sorted⟩
    have hix : i ≠ x.id := by
      rintro rfl
      cases (Heap.del_self _ _).symm.trans hi
    exact h.loose i c ((Heap.del_ne hix).symm.trans hi) hio

/-- The invariant at the start. -/
theorem start {σ : Grown} (h : onlyCb σ) : ∃ s, TreeOk σ s := by
  obtain ⟨cb, rfl⟩ := h
  refine ⟨⟨.node cb .nil .nil, [], [], 0, 0⟩, ⟨⟨by simp, trivial, trivial⟩, by simp, rfl⟩, by simp, fun i c hc hi => ?_, ?_⟩
  · simp only [List.mem_singleton] at hi
    cases (if_neg hi).symm.trans hc
  · intro a k hak
    simp only [Forest.cells, List.append_nil, List.mem_singleton] at hak
    cases hak
    exact List.Pairwise.nil

/-- One call keeps the invariant. -/
theorem step {σ σ' : Grown} (h : ∃ s, TreeOk σ s) (hs : TreeStep σ σ') : ∃ s, TreeOk σ' s := by
  obtain ⟨s, h⟩ := h
  cases hs with
  | create hx => exact ⟨s, h.create hx⟩
  | add hp hx hsome hret =>
    obtain ⟨p, hp', rfl⟩ := h.node_of_mem hp
    obtain ⟨x, m, rfl, -, hret', hok⟩ := h.add hp' hx hsome
    rw [hret.unique hret']
    exact ⟨_, hok⟩
  | @free n _ hsome hret =>
    by_cases hn : n ∈ σ.order
    · obtain ⟨x, hx, rfl⟩ := h.node_of_mem hn
      obtain ⟨k, hk⟩ := Forest.mem_nodes_iff.mp hx
      obtain ⟨g, hret', -, hok⟩ := h.free hk
      rw [hret.unique hret']
      exact ⟨_, hok⟩
    · obtain ⟨hret', hok⟩ := h.freeLoose hn hsome
      rw [hret.unique hret']
      exact ⟨s, hok⟩

/-- A child list that stays after a removal is the old one, less the node that goes. -/
theorem cell_free (h : TreeOk σ s) {x a : RTNode} {k c : Forest RTNode} (hx : (x, k) ∈ s.tree.cells)
    (ha : (a, c) ∈ s.tree.cells) (hne : a.id ∉ x.id :: addrs RTNode.id k) :
    (a, c.remove (RTNode.hasId x.id)) ∈ (s.freeRtnode x.id).tree.cells := by
  have hat := Forest.mem_nodes_of_cell ha
  have hin : a.id ∈ addrs RTNode.id (s.tree.remove (RTNode.hasId x.id)) := by
    have := (addrs_perm_remove h.holds.nodup hx).mem_iff.mp (mem_addrs_of_mem hat)
    rw [← List.cons_append, List.mem_append] at this
    exact this.resolve_left hne
  obtain ⟨b, hb, hid⟩ := List.mem_map.mp hin
  obtain rfl : b = a := Server.NodupIds.eq h.holds.nodup ((Forest.nodes_remove_sublist _ _).subset hb) hat hid
  obtain ⟨d, hd⟩ := Forest.mem_nodes_iff.mp hb
  obtain ⟨d₀, hd₀, rfl, -⟩ := Forest.mem_cells_remove hd
  obtain ⟨-, rfl⟩ := Server.NodupIds.cell_eq h.holds.nodup hd₀ ha rfl
  exact hd

end TreeOk

/-- The pointers of the nodes of the tree agree: a first child has no left sibling and points to its
parent, and siblings point to each other and to one parent. -/
structure PointersAgree (h : Heap RTNode) (order : List Nat) : Prop where
  child : ∀ i ∈ order, ∀ c, h i = some c → ∀ m, c.child = some m →
    ∃ d, h m = some d ∧ d.parent = some i ∧ d.left = none
  right : ∀ i ∈ order, ∀ c, h i = some c → ∀ m, c.right = some m →
    ∃ d, h m = some d ∧ d.left = some i ∧ d.parent = c.parent
  left : ∀ i ∈ order, ∀ c, h i = some c → ∀ m, c.left = some m →
    ∃ d, h m = some d ∧ d.right = some i ∧ d.parent = c.parent

theorem TreeOk.pointersAgree {σ : Grown} {s : Server} (h : TreeOk σ s) : PointersAgree σ.mem.heap σ.order where
  child i hi c hc m hm := h.holds.tree.parent_of_child (h.members.mem_iff.mpr hi) hc hm
  right i hi c hc m hm := h.holds.tree.left_of_right (h.members.mem_iff.mpr hi) hc hm
  left i hi c hc m hm := by
    rcases h.holds.tree.right_of_left (h.members.mem_iff.mpr hi) hc hm with ⟨-, h0⟩ | hd
    · cases h0
    · exact hd

/-- The tree in memory keeps its representation invariant over every run: child lists in order, pointers
that agree, no node twice. A node can be added below every node of the tree, and `free_rtnode` takes out
exactly a node and what is below it and keeps the order of what stays. -/
theorem treeOk_of_run {σ : Grown} (h : Reach onlyCb TreeStep σ) :
    ∃ s, TreeOk σ s ∧ σ.order.Nodup ∧ PointersAgree σ.mem.heap σ.order ∧
      (∀ p ∈ s.tree.nodes, ∀ i ∉ σ.order, (σ.mem.heap i).isSome → ∃ x m, x.id = i ∧ σ.mem.heap i = some { val := x } ∧
        Returns (fun fuel => σ.mem.addChildResourceTree fuel p.id i) m ∧
        TreeOk ⟨m, σ.order ++ [i]⟩ (s.addChildResourceTree p x)) ∧
      ∀ x k, (x, k) ∈ s.tree.cells → ∃ g, Returns (fun fuel => Mem.freeRtnode fuel σ.mem.heap x.id) g ∧
        (∀ i, (g i).isSome ↔ (σ.mem.heap i).isSome ∧ i ∉ x.id :: addrs RTNode.id k) ∧
        TreeOk ⟨{ σ.mem with heap := g }, σ.order.filter fun i => (g i).isSome⟩ (s.freeRtnode x.id) ∧
        ∀ a c, (a, c) ∈ s.tree.cells → a.id ∉ x.id :: addrs RTNode.id k → ∃ c', (a, c') ∈ (s.freeRtnode x.id).tree.cells ∧
          c'.roots = c.roots.filter fun n => n.id ≠ x.id := by
  obtain ⟨s, hok⟩ := h.inv (I := fun σ => ∃ s, TreeOk σ s) (fun _ h0 => TreeOk.start h0) fun _ _ hI hs => TreeOk.step hI hs
  refine ⟨s, hok, hok.nodup, hok.pointersAgree, fun p hp i hi hsome => hok.add hp hi hsome, fun x k hx => ?_⟩
  obtain ⟨g, hret, hiff, hfree⟩ := hok.free hx
  refine ⟨g, hret, hiff, hfree, fun a c ha hne => ⟨_, hok.cell_free hx ha hne, ?_⟩⟩
  rw [Forest.roots_remove]
  refine List.filter_congr fun n _ => ?_
  by_cases hn : n.id = x.id <;> simp [RTNode.hasId, hn]

/-- A run that adds a container below the CSEBase. -/
theorem treeOk_of_run_container :
    ∃ σ, Reach onlyCb TreeStep σ ∧ σ.order = [0, 1] ∧ ∃ s, TreeOk σ s ∧ PointersAgree σ.mem.heap σ.order := by
  let cb : RTNode := { id := 0, ty := .cse, rn := cseBaseName, uri := cseBaseName, obj := [] }
  let x : RTNode := { id := 1, ty := .cnt, rn := "c".toList, uri := [], obj := [] }
  let σ₀ : Grown := ⟨⟨fun i => if i = cb.id then some { val := cb } else none, []⟩, [cb.id]⟩
  have h₀ : Reach onlyCb TreeStep σ₀ := .start ⟨cb, rfl⟩
  have h₁ := h₀.next (.create (x := x) rfl)
  obtain ⟨s, hs, -, -, hadd, -⟩ := treeOk_of_run h₁
  obtain ⟨p, hp, hid⟩ := hs.node_of_mem (show 0 ∈ [cb.id] by simp [cb])
  obtain ⟨y, m, -, -, hret, -⟩ := hadd p hp 1 (by simp [σ₀, cb]) rfl
  have h₂ := h₁.next (.add (by simp [hid, σ₀, cb]) (by simp [σ₀, cb]) rfl hret)
  obtain ⟨s', hs', -, hagree, -⟩ := treeOk_of_run h₂
  exact ⟨_, h₂, rfl, s', hs', hagree⟩

end TinyIoT
