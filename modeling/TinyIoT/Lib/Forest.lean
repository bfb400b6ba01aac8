/-
Ordered forests in left-child/right-sibling form, over any type of node labels: a forest is a chain
of siblings, each with the forest of its children. The cells of a forest (each node with its
children, in preorder), relabelling, removal of the subtrees at the nodes that satisfy a predicate,
replacement of a child forest, and what each of these does to the cells.
-/
import Mathlib.Data.List.Basic
import Mathlib.Data.List.Perm.Basic
import Mathlib.Data.List.Nodup

/-- A chain of siblings, each with the forest of its children. -/
inductive Forest (α : Type) where
  | nil
  | node (a : α) (child sib : Forest α)
  deriving Repr

namespace Forest

variable {α β : Type}

/-- Every node with the forest of its children, in preorder. -/
def cells : Forest α → List (α × Forest α)
  | nil => []
  | node a c s => (a, c) :: (cells c ++ cells s)

/-- The labels in preorder. -/
def nodes : Forest α → List α
  | nil => []
  | node a c s => a :: (nodes c ++ nodes s)

/-- The labels in postorder: the children of a node before the node. -/
def postorder : Forest α → List α
  | nil => []
  | node a c s => postorder c ++ a :: postorder s

/-- The top-level siblings. -/
def roots : Forest α → List α
  | nil => []
  | node a _ s => a :: roots s

/-- Apply `f` to the labels that satisfy `p`. -/
def modify (p : α → Bool) (f : α → α) : Forest α → Forest α
  | nil => nil
  | node a c s => node (if p a then f a else a) (modify p f c) (modify p f s)

/-- Remove every node that satisfies `p`, with all that is below it. -/
def remove (p : α → Bool) : Forest α → Forest α
  | nil => nil
  | node a c s => if p a then remove p s else node a (remove p c) (remove p s)

/-- Apply `g` to the child forest of each node that satisfies `p`. -/
def graft (p : α → Bool) (g : Forest α → Forest α) : Forest α → Forest α
  | nil => nil
  | node a c s => node a (if p a then g (graft p g c) else graft p g c) (graft p g s)

/-- The first node in preorder that satisfies `p`, with the forest of its children. -/
def cell? (p : α → Bool) (t : Forest α) : Option (α × Forest α) :=
  t.cells.find? (fun e => p e.1)

/-- The label of the first node in preorder that satisfies `p`. -/
def find? (p : α → Bool) (t : Forest α) : Option α :=
  t.nodes.find? p

/-- The first node in preorder with a child that satisfies `p`. -/
def parent? (p : α → Bool) (t : Forest α) : Option α :=
  (t.cells.find? (fun e => e.2.roots.any p)).map (·.1)

/-! ## Cells and nodes -/

@[simp] theorem cells_map_fst (t : Forest α) : t.cells.map (·.1) = t.nodes := by
  induction t with
  | nil => rfl
  | node a c s ihc ihs => simp [cells, nodes, ihc, ihs]

theorem mem_nodes_iff {t : Forest α} {a : α} : a ∈ t.nodes ↔ ∃ c, (a, c) ∈ t.cells := by
  rw [← cells_map_fst, List.mem_map]
  constructor
  · rintro ⟨⟨b, c⟩, hc, rfl⟩
    exact ⟨c, hc⟩
  · rintro ⟨c, hc⟩
    exact ⟨(a, c), hc, rfl⟩

theorem mem_nodes_of_cell {t : Forest α} {a : α} {c : Forest α} (h : (a, c) ∈ t.cells) : a ∈ t.nodes :=
  mem_nodes_iff.mpr ⟨c, h⟩

theorem roots_sublist_nodes (t : Forest α) : t.roots.Sublist t.nodes := by
  induction t with
  | nil => exact List.Sublist.slnil
  | node a c s _ ihs =>
    exact List.Sublist.cons_cons _ (ihs.trans (List.sublist_append_right _ _))

/-- What is below a node is in the forest. -/
theorem nodes_of_cell {t : Forest α} {a : α} {c : Forest α} (h : (a, c) ∈ t.cells) :
    (a :: c.nodes).Sublist t.nodes := by
  induction t with
  | nil => cases h
  | node b d s ihd ihs =>
    rw [cells, List.mem_cons, List.mem_append] at h
    rcases h with h | h | h
    · cases h
      exact List.Sublist.cons_cons _ (List.sublist_append_left _ _)
    · exact ((ihd h).trans (List.sublist_append_left _ _)).cons _
    · exact ((ihs h).trans (List.sublist_append_right _ _)).cons _

theorem roots_of_cell {t : Forest α} {a : α} {c : Forest α} (h : (a, c) ∈ t.cells) {b : α}
    (hb : b ∈ c.roots) : b ∈ t.nodes :=
  (nodes_of_cell h).subset (List.mem_cons_of_mem _ ((roots_sublist_nodes c).subset hb))

/-- A node stands at the top or below another. -/
theorem exists_parent {t : Forest α} {a : α} (h : a ∈ t.nodes) :
    a ∈ t.roots ∨ ∃ b c, (b, c) ∈ t.cells ∧ a ∈ c.roots := by
  induction t with
  | nil => cases h
  | node b d s ihd ihs =>
    rw [nodes, List.mem_cons, List.mem_append] at h
    rcases h with rfl | h | h
    · exact .inl List.mem_cons_self
    · rcases ihd h with h | ⟨b', c, hc, hm⟩
      · exact .inr ⟨b, d, by simp [cells], h⟩
      · exact .inr ⟨b', c, by simp [cells, hc], hm⟩
    · rcases ihs h with h | ⟨b', c, hc, hm⟩
      · exact .inl (List.mem_cons_of_mem _ h)
      · exact .inr ⟨b', c, by simp [cells, hc], hm⟩

/-- Every node is a root or a child, and only once. -/
theorem roots_children_perm (t : Forest α) : (t.roots ++ t.cells.flatMap fun e => e.2.roots).Perm t.nodes := by
  induction t with
  | nil => exact List.Perm.refl _
  | node a c s ihc ihs =>
    rw [roots, cells, nodes, List.flatMap_cons, List.flatMap_append, List.cons_append, ← List.append_assoc c.roots]
    exact List.Perm.cons a ((List.perm_append_comm_assoc _ _ _).trans (ihc.append ihs))

/-- A node has one parent at most. -/
theorem cell_of_child {t : Forest α} {f : α → β} (hnd : (t.nodes.map f).Nodup) {a b : α} {c d : Forest α}
    (hc : (a, c) ∈ t.cells) (hd : (b, d) ∈ t.cells) {m m' : α} (hm : m ∈ c.roots) (hm' : m' ∈ d.roots)
    (hf : f m = f m') : (a, c) = (b, d) := by
  by_contra hne
  have hnd' := (((roots_children_perm t).map f).nodup_iff.mpr hnd)
  rw [List.map_append, List.map_flatMap] at hnd'
  have hpair := (List.nodup_flatMap.mp hnd'.of_append_right).2
  have hdis : ∀ x ∈ t.cells, ∀ y ∈ t.cells, x ≠ y → List.Disjoint (x.2.roots.map f) (y.2.roots.map f) := by
    refine List.Pairwise.forall_of_forall_of_flip (fun _ _ h => absurd rfl h) ?_ ?_
    · refine hpair.imp ?_
      intro x y h _
      exact h
    · refine hpair.imp ?_
      intro x y h _ z hx hy
      exact h hy hx
  exact hdis _ hc _ hd hne (List.mem_map_of_mem hm) (hf ▸ List.mem_map_of_mem hm')

theorem cell?_mem {p : α → Bool} {t : Forest α} {a : α} {c : Forest α} (h : t.cell? p = some (a, c)) :
    (a, c) ∈ t.cells ∧ p a = true :=
  ⟨List.mem_of_find?_eq_some h, List.find?_some (p := fun e : α × Forest α => p e.1) h⟩

theorem find?_mem {p : α → Bool} {t : Forest α} {a : α} (h : t.find? p = some a) :
    a ∈ t.nodes ∧ p a = true :=
  ⟨List.mem_of_find?_eq_some h, List.find?_some h⟩

/-! ## Relabelling -/

theorem nodes_modify (p : α → Bool) (f : α → α) (t : Forest α) :
    (t.modify p f).nodes = t.nodes.map (fun a => if p a then f a else a) := by
  induction t with
  | nil => rfl
  | node a c s ihc ihs => simp [modify, nodes, ihc, ihs]

theorem roots_modify (p : α → Bool) (f : α → α) (t : Forest α) :
    (t.modify p f).roots = t.roots.map (fun a => if p a then f a else a) := by
  induction t with
  | nil => rfl
  | node a c s _ ihs => simp [modify, roots, ihs]

theorem cells_modify (p : α → Bool) (f : α → α) (t : Forest α) :
    (t.modify p f).cells = t.cells.map (fun e => (if p e.1 then f e.1 else e.1, e.2.modify p f)) := by
  induction t with
  | nil => rfl
  | node a c s ihc ihs => simp [modify, cells, ihc, ihs]

/-! ## Removal -/

theorem nodes_remove_sublist (p : α → Bool) (t : Forest α) : (t.remove p).nodes.Sublist t.nodes := by
  induction t with
  | nil => exact List.Sublist.slnil
  | node a c s ihc ihs =>
    unfold remove
    split
    · exact (ihs.trans (List.sublist_append_right _ _)).cons _
    · exact List.Sublist.cons_cons _ (ihc.append ihs)

theorem not_mem_nodes_remove {p : α → Bool} {t : Forest α} {a : α} (ha : a ∈ (t.remove p).nodes) :
    p a = false := by
  induction t with
  | nil => cases ha
  | node b c s ihc ihs =>
    unfold remove at ha
    split at ha
    · exact ihs ha
    · rename_i hb
      rw [nodes, List.mem_cons, List.mem_append] at ha
      rcases ha with rfl | ha | ha
      · simpa using hb
      · exact ihc ha
      · exact ihs ha

/-- Removing leaves removes nothing else. -/
theorem nodes_remove_of_leaf {p : α → Bool} {t : Forest α} (h : ∀ a c, (a, c) ∈ t.cells → p a = true → c = nil) :
    (t.remove p).nodes = t.nodes.filter fun a => !p a := by
  induction t with
  | nil => rfl
  | node b d s ihd ihs =>
    have hd := ihd fun a c hc => h a c (by simp [cells, hc])
    have hs := ihs fun a c hc => h a c (by simp [cells, hc])
    unfold remove
    by_cases hb : p b = true
    · rw [if_pos hb, h b d (by simp [cells]) hb, hs]
      simp [nodes, hb]
    · rw [if_neg hb]
      simp [nodes, hb, hd, hs]

theorem roots_remove (p : α → Bool) (t : Forest α) :
    (t.remove p).roots = t.roots.filter (fun a => !p a) := by
  induction t with
  | nil => rfl
  | node a c s _ ihs =>
    unfold remove
    by_cases hp : p a = true <;> simp [hp, roots, ihs]

/-- Each cell that survives a removal is an old cell with the removal done below it. -/
theorem mem_cells_remove {p : α → Bool} {t : Forest α} {a : α} {c : Forest α}
    (h : (a, c) ∈ (t.remove p).cells) : ∃ c₀, (a, c₀) ∈ t.cells ∧ c = c₀.remove p ∧ p a = false := by
  induction t with
  | nil => cases h
  | node b d s ihd ihs =>
    unfold remove at h
    split at h
    · obtain ⟨c₀, hc₀, rfl, hp⟩ := ihs h
      exact ⟨c₀, by simp [cells, hc₀], rfl, hp⟩
    · rename_i hb
      rw [cells, List.mem_cons, List.mem_append] at h
      rcases h with h | h | h
      · cases h
        exact ⟨d, by simp [cells], rfl, by simpa using hb⟩
      · obtain ⟨c₀, hc₀, rfl, hp⟩ := ihd h
        exact ⟨c₀, by simp [cells, hc₀], rfl, hp⟩
      · obtain ⟨c₀, hc₀, rfl, hp⟩ := ihs h
        exact ⟨c₀, by simp [cells, hc₀], rfl, hp⟩

/-- A cell that is not below a node removed stays, with the removal done below it. -/
theorem cell_of_remove {p : α → Bool} {t : Forest α} {a : α} {c : Forest α} (h : (a, c) ∈ t.cells) (ha : p a = false)
    (hout : ∀ b d, (b, d) ∈ t.cells → p b = true → (a, c) ∉ d.cells) : (a, c.remove p) ∈ (t.remove p).cells := by
  induction t with
  | nil => cases h
  | node b d s ihd ihs =>
    have hs : (a, c) ∈ s.cells → (a, c.remove p) ∈ (s.remove p).cells := fun h =>
      ihs h fun x k hx => hout x k (by simp [cells, hx])
    have hstep : (node b d s).remove p = if p b then s.remove p else node b (d.remove p) (s.remove p) := rfl
    rw [cells, List.mem_cons, List.mem_append] at h
    rw [hstep]
    split
    · rename_i hb
      rcases h with h | h | h
      · cases h
        rw [ha] at hb
        cases hb
      · exact absurd h (hout b d (by simp [cells]) hb)
      · exact hs h
    · rw [cells, List.mem_cons, List.mem_append]
      rcases h with h | h | h
      · cases h
        exact .inl rfl
      · exact .inr (.inl (ihd h fun x k hx => hout x k (by simp [cells, hx])))
      · exact .inr (.inr (hs h))

theorem remove_eq_self {p : α → Bool} {t : Forest α} (h : ∀ a ∈ t.nodes, p a = false) :
    t.remove p = t := by
  induction t with
  | nil => rfl
  | node a c s ihc ihs =>
    have ha := h a (by simp [nodes])
    unfold remove
    rw [if_neg (by simp [ha]), ihc (fun b hb => h b (by simp [nodes, hb])),
      ihs (fun b hb => h b (by simp [nodes, hb]))]

/-! ## Grafting -/

theorem graft_eq_self {p : α → Bool} {g : Forest α → Forest α} {t : Forest α}
    (h : ∀ a ∈ t.nodes, p a = false) : t.graft p g = t := by
  induction t with
  | nil => rfl
  | node a c s ihc ihs =>
    have ha := h a (by simp [nodes])
    unfold graft
    rw [if_neg (by simp [ha]), ihc (fun b hb => h b (by simp [nodes, hb])),
      ihs (fun b hb => h b (by simp [nodes, hb]))]

/-- The first node that satisfies `p` is found again, with what `g` makes of its children. -/
theorem cell?_graft (p : α → Bool) (g : Forest α → Forest α) (t : Forest α) :
    (t.graft p g).cell? p = (t.cell? p).map fun e => (e.1, g (e.2.graft p g)) := by
  induction t with
  | nil => rfl
  | node a c s ihc ihs =>
    unfold cell? at ihc ihs ⊢
    by_cases ha : p a = true
    · simp [graft, cells, ha]
    · have ha' : p a = false := by simpa using ha
      simp only [graft, cells, ha', List.find?_cons, List.find?_append, Bool.false_eq_true, if_false]
      rw [ihc, ihs]
      cases List.find? (fun e => p e.1) c.cells <;> simp

theorem roots_graft (p : α → Bool) (g : Forest α → Forest α) (t : Forest α) :
    (t.graft p g).roots = t.roots := by
  induction t with
  | nil => rfl
  | node a c s _ ihs => simp [graft, roots, ihs]

/-- Relabelling commutes with a graft that is relabelled with it. -/
theorem modify_graft {p q : α → Bool} {f : α → α} {g g' : Forest α → Forest α} (hp : ∀ a, p (f a) = p a)
    (hg : ∀ c, (g c).modify q f = g' (c.modify q f)) (t : Forest α) :
    (t.graft p g).modify q f = (t.modify q f).graft p g' := by
  induction t with
  | nil => rfl
  | node a c s ihc ihs =>
    have ha : p (if q a = true then f a else a) = p a := by split <;> simp [hp]
    simp only [graft, modify, ha, ihs]
    by_cases h : p a = true
    · rw [if_pos h, if_pos h, hg, ihc]
    · rw [if_neg h, if_neg h, ihc]

theorem modify_eq_self {p : α → Bool} {f : α → α} {t : Forest α} (h : ∀ a ∈ t.nodes, p a = false) :
    t.modify p f = t := by
  induction t with
  | nil => rfl
  | node a c s ihc ihs =>
    have ha := h a (by simp [nodes])
    unfold modify
    rw [if_neg (by simp [ha]), ihc (fun b hb => h b (by simp [nodes, hb])),
      ihs (fun b hb => h b (by simp [nodes, hb]))]

section Insert

variable {p : α → Bool} {g : Forest α → Forest α} {x : α}

/-- Grafting with a `g` that puts `x` somewhere puts one `x` below each node that satisfies `p`. -/
theorem nodes_graft_perm (hg : ∀ c, (g c).nodes.Perm (x :: c.nodes)) (t : Forest α) :
    (t.graft p g).nodes.Perm (List.replicate (t.nodes.countP p) x ++ t.nodes) := by
  induction t with
  | nil => exact List.Perm.refl _
  | node a c s ihc ihs =>
    have hboth := ihc.append ihs
    have hcount : List.replicate (c.nodes.countP p) x ++ c.nodes ++
        (List.replicate (s.nodes.countP p) x ++ s.nodes) |>.Perm
          (List.replicate (c.nodes.countP p + s.nodes.countP p) x ++ (c.nodes ++ s.nodes)) := by
      rw [List.replicate_add, List.append_assoc, List.append_assoc]
      refine List.Perm.append_left _ ?_
      rw [← List.append_assoc, ← List.append_assoc]
      exact List.Perm.append_right _ List.perm_append_comm
    have hrest := hboth.trans hcount
    unfold graft nodes
    by_cases hp : p a = true
    · rw [if_pos hp, List.countP_cons_of_pos hp, List.countP_append]
      have h1 := ((hg (c.graft p g)).append_right (s.graft p g).nodes).trans
        (List.Perm.cons x hrest)
      rw [List.replicate_succ, List.cons_append]
      exact (List.Perm.cons a h1).trans ((List.Perm.swap x a _).trans (List.Perm.cons x List.perm_middle.symm))
    · rw [if_neg hp, List.countP_cons_of_neg hp, List.countP_append]
      exact (List.Perm.cons a hrest).trans List.perm_middle.symm

/-- The cells after a graft: the old ones with the graft done at and below them, and the new leaf. -/
theorem mem_cells_graft (hg : ∀ c e, e ∈ (g c).cells ↔ e = (x, nil) ∨ e ∈ c.cells) {t : Forest α}
    {e : α × Forest α} :
    e ∈ (t.graft p g).cells ↔
      (∃ a c₀, (a, c₀) ∈ t.cells ∧ e = (a, if p a then g (c₀.graft p g) else c₀.graft p g)) ∨
      (e = (x, nil) ∧ ∃ a ∈ t.nodes, p a = true) := by
  induction t with
  | nil => simp [graft, cells, nodes]
  | node b d s ihd ihs =>
    have hd : e ∈ (if p b then g (d.graft p g) else d.graft p g).cells ↔
        (e = (x, nil) ∧ p b = true) ∨ e ∈ (d.graft p g).cells := by
      by_cases hb : p b = true
      · rw [if_pos hb, hg]; simp [hb]
      · rw [if_neg hb]; simp [hb]
    rw [graft, cells, List.mem_cons, List.mem_append, hd, ihd, ihs]
    simp only [cells, nodes, List.mem_cons, List.mem_append, Prod.mk.injEq]
    constructor
    · rintro (rfl | (⟨rfl, hb⟩ | ⟨a, c₀, hc, rfl⟩ | ⟨rfl, a, ha, hpa⟩) | ⟨a, c₀, hc, rfl⟩ | ⟨rfl, a, ha, hpa⟩)
      · exact .inl ⟨b, d, .inl ⟨rfl, rfl⟩, rfl⟩
      · exact .inr ⟨rfl, b, .inl rfl, hb⟩
      · exact .inl ⟨a, c₀, .inr (.inl hc), rfl⟩
      · exact .inr ⟨rfl, a, .inr (.inl ha), hpa⟩
      · exact .inl ⟨a, c₀, .inr (.inr hc), rfl⟩
      · exact .inr ⟨rfl, a, .inr (.inr ha), hpa⟩
    · rintro (⟨a, c₀, ⟨rfl, rfl⟩ | hc | hc, rfl⟩ | ⟨rfl, a, rfl | ha | ha, hpa⟩)
      · exact .inl rfl
      · exact .inr (.inl (.inr (.inl ⟨a, c₀, hc, rfl⟩)))
      · exact .inr (.inr (.inl ⟨a, c₀, hc, rfl⟩))
      · exact .inr (.inl (.inl ⟨rfl, hpa⟩))
      · exact .inr (.inl (.inr (.inr ⟨rfl, a, ha, hpa⟩)))
      · exact .inr (.inr (.inr ⟨rfl, a, ha, hpa⟩))

end Insert

/-! ## Lists as forests -/

/-- Siblings without children. -/
def ofList : List α → Forest α
  | [] => nil
  | a :: l => node a nil (ofList l)

@[simp] theorem nodes_ofList (l : List α) : (ofList l).nodes = l := by
  induction l with
  | nil => rfl
  | cons a l ih => simp [ofList, nodes, ih]

@[simp] theorem roots_ofList (l : List α) : (ofList l).roots = l := by
  induction l with
  | nil => rfl
  | cons a l ih => simp [ofList, roots, ih]

theorem remove_ofList (p : α → Bool) (l : List α) : (ofList l).remove p = ofList (l.filter fun a => !p a) := by
  induction l with
  | nil => rfl
  | cons a l ih =>
    by_cases ha : p a = true <;> simp [ofList, remove, ha, ih]

/-- What holds of the roots and passes from a node to its children holds of all nodes. -/
theorem forall_nodes {P : α → Prop} {t : Forest α} (hr : ∀ a ∈ t.roots, P a)
    (hc : ∀ a c, (a, c) ∈ t.cells → P a → ∀ b ∈ c.roots, P b) {a : α} (ha : a ∈ t.nodes) : P a := by
  induction t with
  | nil => cases ha
  | node b d s ihd ihs =>
    rw [nodes, List.mem_cons, List.mem_append] at ha
    have hb : P b := hr b List.mem_cons_self
    rcases ha with rfl | ha | ha
    · exact hb
    · exact ihd (hc b d (by simp [cells]) hb) (fun a c h => hc a c (by simp [cells, h])) ha
    · exact ihs (fun a h => hr a (List.mem_cons_of_mem _ h)) (fun a c h => hc a c (by simp [cells, h])) ha

end Forest
