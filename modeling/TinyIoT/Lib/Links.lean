/-
Heaps of cells with left-child/right-sibling links, over any type of contents: each cell points to its
parent, its first child and its two neighbours. A heap spells a forest when every cell of it has exactly
the pointers its place asks for. What the pointers of such a heap say about each other, and what
relinking a head, replacing the children of a node, relabelling and cutting out a subtree do to the
forest that is spelt.
-/
import TinyIoT.Lib.Forest

namespace Links

/-- A cell: its contents and its pointers; none is the null pointer. -/
structure Cell (α : Type) where
  val : α
  parent : Option Nat := none
  child : Option Nat := none
  left : Option Nat := none
  right : Option Nat := none

/-- The cells by address; an address that is not in use has none. -/
abbrev Heap (α : Type) := Nat → Option (Cell α)

namespace Heap

variable {α : Type}

def set (h : Heap α) (i : Nat) (c : Cell α) : Heap α := fun j => if j = i then some c else h j

/-- The cell at `i` is given back. -/
def del (h : Heap α) (i : Nat) : Heap α := fun j => if j = i then none else h j

/-- An assignment through a pointer, which must point to a cell. -/
def assign (h : Heap α) (i : Nat) (f : Cell α → Cell α) : Option (Heap α) := (h i).map fun c => h.set i (f c)

/-- An assignment through a pointer unless it is null. -/
def assignOpt (h : Heap α) (q : Option Nat) (f : Cell α → Cell α) : Option (Heap α) :=
  match q with
  | none => some h
  | some i => h.assign i f

@[simp] theorem set_self (h : Heap α) (i : Nat) (c : Cell α) : h.set i c i = some c := if_pos rfl

theorem set_ne {h : Heap α} {i j : Nat} {c : Cell α} (hj : j ≠ i) : h.set i c j = h j := if_neg hj

@[simp] theorem del_self (h : Heap α) (i : Nat) : h.del i i = none := if_pos rfl

theorem del_ne {h : Heap α} {i j : Nat} (hj : j ≠ i) : h.del i j = h j := if_neg hj

theorem assign_eq {h : Heap α} {i : Nat} {c : Cell α} (hc : h i = some c) (f : Cell α → Cell α) :
    h.assign i f = some (h.set i (f c)) := by
  unfold assign
  rw [hc]
  rfl

theorem assignOpt_eq {h : Heap α} {q : Option Nat} (hq : ∀ i, q = some i → ∃ c, h i = some c) (f : Cell α → Cell α) :
    h.assignOpt q f = some fun i => if q = some i then (h i).map f else h i := by
  cases q with
  | none => simp [assignOpt]
  | some p =>
    obtain ⟨c, hc⟩ := hq p rfl
    simp only [assignOpt, assign_eq hc, Option.some.injEq]
    funext i
    by_cases hi : i = p
    · subst hi
      rw [set_self, if_pos rfl, hc]
      rfl
    · rw [set_ne hi, if_neg (Ne.symm hi)]

end Heap

section

variable {α : Type} (addr : α → Nat)

/-- The addresses of the nodes of a forest, in preorder. -/
def addrs (t : Forest α) : List Nat := t.nodes.map addr

/-- The pointer to the first of the siblings. -/
def first : Forest α → Option Nat
  | .nil => none
  | .node a _ _ => some (addr a)

/-- The heap has the cells of the forest, below `par` and to the right of `left`. -/
def Linked (h : Heap α) : (par left : Option Nat) → Forest α → Prop
  | _, _, .nil => True
  | par, left, .node a c s =>
    h (addr a) = some ⟨a, par, first addr c, left, first addr s⟩ ∧
      Linked h (some (addr a)) none c ∧ Linked h par (some (addr a)) s

end

variable {α : Type} {addr : α → Nat} {h h' : Heap α} {par left : Option Nat} {t : Forest α}

@[simp] theorem first_nil : first addr .nil = none := rfl

@[simp] theorem first_node (a : α) (c s : Forest α) : first addr (.node a c s) = some (addr a) := rfl

@[simp] theorem addrs_nil : addrs addr .nil = [] := rfl

@[simp] theorem addrs_node (a : α) (c s : Forest α) :
    addrs addr (.node a c s) = addr a :: (addrs addr c ++ addrs addr s) := by simp [addrs, Forest.nodes]

theorem mem_addrs_of_mem {a : α} (ha : a ∈ t.nodes) : addr a ∈ addrs addr t := List.mem_map_of_mem ha

theorem mem_addrs_child {a : α} {c s : Forest α} {i : Nat} (hi : i ∈ addrs addr c) : i ∈ addrs addr (.node a c s) := by
  rw [addrs_node]
  exact List.mem_cons_of_mem _ (List.mem_append_left _ hi)

theorem mem_addrs_sib {a : α} {c s : Forest α} {i : Nat} (hi : i ∈ addrs addr s) : i ∈ addrs addr (.node a c s) := by
  rw [addrs_node]
  exact List.mem_cons_of_mem _ (List.mem_append_right _ hi)

theorem addrs_modify {p : α → Bool} {f : α → α} (hf : ∀ a, addr (f a) = addr a) : addrs addr (t.modify p f) = addrs addr t := by
  unfold addrs
  rw [Forest.nodes_modify, List.map_map]
  refine List.map_congr_left fun a _ => ?_
  simp only [Function.comp]
  split <;> simp [hf]

theorem first_mem {m : Nat} (hm : first addr t = some m) : m ∈ addrs addr t := by
  cases t with
  | nil => cases hm
  | node a c s =>
    cases hm
    simp

theorem first_congr {u : Forest α} (hr : t.roots = u.roots) : first addr t = first addr u := by
  cases t <;> cases u <;> simp_all [first, Forest.roots]

/-- The addresses of a forest with distinct ones, part by part. -/
theorem nodup_node {a : α} {c s : Forest α} (hd : (addrs addr (.node a c s)).Nodup) :
    addr a ∉ addrs addr c ∧ addr a ∉ addrs addr s ∧ (addrs addr c).Nodup ∧ (addrs addr s).Nodup ∧
      ∀ i ∈ addrs addr c, i ∉ addrs addr s := by
  rw [addrs_node, List.nodup_cons, List.nodup_append] at hd
  obtain ⟨h1, h2, h3, h4⟩ := hd
  rw [List.mem_append, not_or] at h1
  exact ⟨h1.1, h1.2, h2, h3, fun i hi hs => h4 i hi i hs rfl⟩

/-- A child is no root. -/
theorem nodup_child_root (hd : (addrs addr t).Nodup) {a b : α} {c : Forest α} (hc : (a, c) ∈ t.cells) (hb : b ∈ c.roots) :
    b ∉ t.roots := by
  have hin : ∀ {u : Forest α}, (a, c) ∈ u.cells → addr b ∈ addrs addr u := fun hu => mem_addrs_of_mem (Forest.roots_of_cell hu hb)
  induction t with
  | nil => cases hc
  | node e d s ihd ihs =>
    obtain ⟨hed, hes, hdd, hds, hdis⟩ := nodup_node hd
    rw [Forest.roots, List.mem_cons, not_or]
    rw [Forest.cells, List.mem_cons, List.mem_append] at hc
    have hroots : ∀ {u : Forest α}, b ∈ u.roots → addr b ∈ addrs addr u := fun hu =>
      mem_addrs_of_mem ((Forest.roots_sublist_nodes _).subset hu)
    rcases hc with hc | hc | hc
    · cases hc
      exact ⟨fun he => hed (he ▸ hroots hb), fun hs => hdis _ (hroots hb) (hroots hs)⟩
    · exact ⟨fun he => hed (he ▸ hin hc), fun hs => hdis _ (hin hc) (hroots hs)⟩
    · exact ⟨fun he => hes (he ▸ hin hc), ihs hds hc⟩

namespace Linked

/-! ## Reading the pointers -/

/-- Only the cells of the forest matter. -/
theorem congr (hl : Linked addr h par left t) (hh : ∀ i ∈ addrs addr t, h' i = h i) : Linked addr h' par left t := by
  induction t generalizing par left with
  | nil => trivial
  | node a c s ihc ihs =>
    obtain ⟨h1, h2, h3⟩ := hl
    refine ⟨(hh _ (by simp)).trans h1, ihc h2 fun i hi => hh i (by simp [hi]), ihs h3 fun i hi => hh i (by simp [hi])⟩

/-- A node of the forest has its cell, with the children it lists. -/
theorem of_cell (hl : Linked addr h par left t) {a : α} {c : Forest α} (ha : (a, c) ∈ t.cells) :
    (∃ p l r, h (addr a) = some ⟨a, p, first addr c, l, r⟩) ∧ Linked addr h (some (addr a)) none c := by
  induction t generalizing par left with
  | nil => cases ha
  | node b d s ihd ihs =>
    obtain ⟨h1, h2, h3⟩ := hl
    rw [Forest.cells, List.mem_cons, List.mem_append] at ha
    rcases ha with ha | ha | ha
    · cases ha
      exact ⟨⟨_, _, _, h1⟩, h2⟩
    · exact ihd h2 ha
    · exact ihs h3 ha

theorem cell_of_mem (hl : Linked addr h par left t) {a : α} (ha : a ∈ t.nodes) :
    ∃ c, h (addr a) = some c ∧ c.val = a := by
  obtain ⟨c, hc⟩ := Forest.mem_nodes_iff.mp ha
  obtain ⟨⟨p, l, r, he⟩, -⟩ := hl.of_cell hc
  exact ⟨_, he, rfl⟩

theorem isSome_of_mem (hl : Linked addr h par left t) {i : Nat} (hi : i ∈ addrs addr t) : ∃ c, h i = some c := by
  obtain ⟨a, ha, rfl⟩ := List.mem_map.mp hi
  obtain ⟨c, hc, -⟩ := hl.cell_of_mem ha
  exact ⟨c, hc⟩

/-- The cell the pointer to a list of siblings leads to. -/
theorem of_first (hl : Linked addr h par left t) {m : Nat} (hm : first addr t = some m) :
    ∃ c, h m = some c ∧ c.parent = par ∧ c.left = left := by
  cases t with
  | nil => cases hm
  | node a c s =>
    cases hm
    exact ⟨_, hl.1, rfl, rfl⟩

/-- The child a node points to points back. -/
theorem parent_of_child (hl : Linked addr h par left t) {i m : Nat} {c : Cell α} (hi : i ∈ addrs addr t)
    (hc : h i = some c) (hm : c.child = some m) : ∃ d, h m = some d ∧ d.parent = some i ∧ d.left = none := by
  obtain ⟨a, ha, rfl⟩ := List.mem_map.mp hi
  obtain ⟨k, hk⟩ := Forest.mem_nodes_iff.mp ha
  obtain ⟨⟨p, l, r, he⟩, hkids⟩ := hl.of_cell hk
  cases Option.some.inj (hc.symm.trans he)
  exact hkids.of_first hm

/-- The right neighbour of a node points back. -/
theorem left_of_right (hl : Linked addr h par left t) {i m : Nat} {c : Cell α} (hi : i ∈ addrs addr t)
    (hc : h i = some c) (hm : c.right = some m) : ∃ d, h m = some d ∧ d.left = some i ∧ d.parent = c.parent := by
  induction t generalizing par left with
  | nil => cases hi
  | node a k s ihk ihs =>
    obtain ⟨h1, h2, h3⟩ := hl
    rw [addrs_node, List.mem_cons, List.mem_append] at hi
    rcases hi with rfl | hi | hi
    · cases Option.some.inj (hc.symm.trans h1)
      obtain ⟨d, hd, hp, hl⟩ := h3.of_first hm
      exact ⟨d, hd, hl, hp⟩
    · exact ihk h2 hi
    · exact ihs h3 hi

/-- The left neighbour of a node points back; that of the first sibling is outside. -/
theorem right_of_left (hl : Linked addr h par left t) {i m : Nat} {c : Cell α} (hi : i ∈ addrs addr t)
    (hc : h i = some c) (hm : c.left = some m) :
    (first addr t = some i ∧ left = some m) ∨ ∃ d, h m = some d ∧ d.right = some i ∧ d.parent = c.parent := by
  induction t generalizing par left with
  | nil => cases hi
  | node a k s ihk ihs =>
    obtain ⟨h1, h2, h3⟩ := hl
    rw [addrs_node, List.mem_cons, List.mem_append] at hi
    rcases hi with rfl | hi | hi
    · cases Option.some.inj (hc.symm.trans h1)
      exact .inl ⟨rfl, hm⟩
    · rcases ihk h2 hi with ⟨-, h0⟩ | hd
      · cases h0
      · exact .inr hd
    · rcases ihs h3 hi with ⟨hf, h0⟩ | hd
      · cases h0
        obtain ⟨d, hd, hp, -⟩ := h3.of_first hf
        cases Option.some.inj (hc.symm.trans hd)
        exact .inr ⟨_, h1, hf, hp.symm⟩
      · exact .inr hd

/-- The pointers of a cell lead to other cells of the forest or out of it. -/
theorem pointers (hl : Linked addr h par left t) (hd : (addrs addr t).Nodup) {i : Nat} {c : Cell α}
    (hi : i ∈ addrs addr t) (hc : h i = some c) :
    (∀ m, c.parent = some m → par = some m ∨ m ≠ i ∧ m ∈ addrs addr t) ∧
      (∀ m, c.left = some m → left = some m ∨ m ≠ i ∧ m ∈ addrs addr t) ∧
      ∀ m, c.right = some m → m ≠ i ∧ m ∈ addrs addr t := by
  induction t generalizing par left with
  | nil => cases hi
  | node a k s ihk ihs =>
    obtain ⟨h1, h2, h3⟩ := hl
    obtain ⟨hak, has, hdk, hds, -⟩ := nodup_node hd
    rw [addrs_node, List.mem_cons, List.mem_append] at hi
    rcases hi with rfl | hi | hi
    · cases Option.some.inj (hc.symm.trans h1)
      refine ⟨fun m hm => .inl hm, fun m hm => .inl hm, fun m hm => ⟨?_, mem_addrs_sib (first_mem hm)⟩⟩
      rintro rfl
      exact has (first_mem hm)
    · obtain ⟨hp, hlft, hr⟩ := ihk h2 hdk hi
      refine ⟨fun m hm => .inr ?_, fun m hm => ?_, fun m hm => ⟨(hr m hm).1, mem_addrs_child (hr m hm).2⟩⟩
      · rcases hp m hm with ⟨⟨⟩⟩ | ⟨hne, hin⟩
        · exact ⟨fun he => hak (he ▸ hi), by simp⟩
        · exact ⟨hne, mem_addrs_child hin⟩
      · rcases hlft m hm with ⟨⟨⟩⟩ | ⟨hne, hin⟩
        exact .inr ⟨hne, mem_addrs_child hin⟩
    · obtain ⟨hp, hlft, hr⟩ := ihs h3 hds hi
      refine ⟨fun m hm => ?_, fun m hm => .inr ?_, fun m hm => ⟨(hr m hm).1, mem_addrs_sib (hr m hm).2⟩⟩
      · exact (hp m hm).imp_right fun h => ⟨h.1, mem_addrs_sib h.2⟩
      · rcases hlft m hm with ⟨⟨⟩⟩ | ⟨hne, hin⟩
        · exact ⟨fun he => has (he ▸ hi), by simp⟩
        · exact ⟨hne, mem_addrs_sib hin⟩

/-! ## Changing the forest -/

/-- The first sibling gets another left neighbour. -/
theorem relink (hl : Linked addr h par left t) {left' : Option Nat} (hd : (addrs addr t).Nodup)
    (hhead : ∀ i, first addr t = some i → h' i = (h i).map fun c => { c with left := left' })
    (hh : ∀ i ∈ addrs addr t, first addr t ≠ some i → h' i = h i) : Linked addr h' par left' t := by
  cases t with
  | nil => trivial
  | node a c s =>
    obtain ⟨h1, h2, h3⟩ := hl
    obtain ⟨hac, has, -, -, -⟩ := nodup_node hd
    have hne : ∀ i, i ∈ addrs addr c ∨ i ∈ addrs addr s → h' i = h i := by
      intro i hi
      refine hh i (by simp [hi]) ?_
      rintro ⟨rfl⟩
      exact hi.elim hac has
    refine ⟨?_, h2.congr fun i hi => hne i (.inl hi), h3.congr fun i hi => hne i (.inr hi)⟩
    rw [hhead _ rfl, h1]
    rfl

/-- Relabelling a node is an assignment to the contents of its cell. -/
theorem modify (hl : Linked addr h par left t) {n : Nat} {f : α → α} (hf : ∀ a, addr (f a) = addr a)
    (hn : ∀ i ∈ addrs addr t, h' i = if i = n then (h i).map fun c => { c with val := f c.val } else h i) :
    Linked addr h' par left (t.modify (fun a => addr a == n) f) := by
  have hfirst : ∀ u : Forest α, first addr (u.modify (fun a => addr a == n) f) = first addr u := by
    intro u
    cases u with
    | nil => rfl
    | node a c s =>
      simp only [Forest.modify, first]
      split <;> simp [hf]
  induction t generalizing par left with
  | nil => trivial
  | node a c s ihc ihs =>
    obtain ⟨h1, h2, h3⟩ := hl
    have haddr : addr (if (addr a == n) = true then f a else a) = addr a := by split <;> simp [hf]
    simp only [Forest.modify, Linked, haddr, hfirst]
    refine ⟨?_, ihc h2 fun i hi => hn i (by simp [hi]), ihs h3 fun i hi => hn i (by simp [hi])⟩
    rw [hn _ (by simp), h1]
    by_cases ha : addr a = n
    · rw [if_pos ha, if_pos (by simpa using ha)]
      rfl
    · rw [if_neg ha, if_neg (by simpa using ha)]

/-- The children of a node are replaced: its pointer to the first child and the cells of the children
change, nothing else does. -/
theorem graft (hl : Linked addr h par left t) {n : Nat} {g : Forest α → Forest α} (hd : (addrs addr t).Nodup)
    {a : α} {k : Forest α} (ha : (a, k) ∈ t.cells) (hn : addr a = n)
    (hcell : h' n = (h n).map fun c => { c with child := first addr (g k) })
    (hkids : Linked addr h' (some n) none (g k))
    (hh : ∀ i ∈ addrs addr t, i ≠ n → i ∉ addrs addr k → h' i = h i) :
    Linked addr h' par left (t.graft (fun a => addr a == n) g) := by
  have hstay : ∀ u : Forest α, n ∉ addrs addr u → u.graft (fun a => addr a == n) g = u := by
    intro u hu
    refine Forest.graft_eq_self fun b hb => ?_
    simp only [beq_eq_false_iff_ne]
    rintro rfl
    exact hu (mem_addrs_of_mem hb)
  have hfirst : ∀ u : Forest α, first addr (u.graft (fun a => addr a == n) g) = first addr u :=
    fun u => first_congr (Forest.roots_graft _ _ u)
  induction t generalizing par left with
  | nil => cases ha
  | node b c s ihc ihs =>
    obtain ⟨h1, h2, h3⟩ := hl
    obtain ⟨hbc, hbs, hdc, hds, hcs⟩ := nodup_node hd
    have hsub : ∀ u : Forest α, (a, k) ∈ u.cells → n ∈ addrs addr u ∧ addrs addr k ⊆ addrs addr u := by
      intro u hu
      rw [← hn]
      refine ⟨mem_addrs_of_mem (Forest.mem_nodes_of_cell hu), fun i hi => ?_⟩
      obtain ⟨m, hm, rfl⟩ := List.mem_map.mp hi
      exact mem_addrs_of_mem ((Forest.nodes_of_cell hu).subset (List.mem_cons_of_mem _ hm))
    rw [Forest.cells, List.mem_cons, List.mem_append] at ha
    simp only [Forest.graft, Linked, hfirst]
    rcases ha with ha | ha | ha
    · -- the node itself
      cases ha
      subst hn
      rw [hstay _ hbc, hstay _ hbs]
      simp only [beq_self_eq_true, if_true]
      refine ⟨by rw [hcell, h1]; rfl, hkids, h3.congr fun i hi => hh i (by simp [hi]) ?_ fun hk => hcs i hk hi⟩
      rintro rfl
      exact hbs hi
    · -- below the first sibling
      obtain ⟨hnc, hkc⟩ := hsub c ha
      have hne : addr b ≠ n := fun he => hbc (he ▸ hnc)
      rw [if_neg (by simpa using hne), hfirst, hstay _ (hcs n hnc)]
      refine ⟨?_, ihc h2 hdc ha fun i hi => hh i (by simp [hi]), h3.congr fun i hi => hh i (by simp [hi]) ?_ ?_⟩
      · rw [hh _ (by simp) hne fun hk => hbc (hkc hk), h1]
      · rintro rfl
        exact hcs i hnc hi
      · exact fun hk => hcs i (hkc hk) hi
    · -- among the other siblings
      obtain ⟨hns, hks⟩ := hsub s ha
      have hne : addr b ≠ n := fun he => hbs (he ▸ hns)
      have hnc : n ∉ addrs addr c := fun hc => hcs n hc hns
      rw [if_neg (by simpa using hne), hstay _ hnc]
      refine ⟨?_, h2.congr fun i hi => hh i (by simp [hi]) ?_ ?_, ihs h3 hds ha fun i hi => hh i (by simp [hi])⟩
      · rw [hh _ (by simp) hne fun hk => hbs (hks hk), h1]
      · rintro rfl
        exact hnc hi
      · exact fun hk => hcs i hi (hks hk)

end Linked

/-! ## Cutting out a subtree -/

/-- The pointers to `n` go past it. -/
def redirect (n : Nat) (l r : Option Nat) (c : Cell α) : Cell α :=
  { c with
    child := if c.child = some n then r else c.child
    left := if c.left = some n then l else c.left
    right := if c.right = some n then r else c.right }

theorem remove_of_not_mem {n : Nat} (hn : n ∉ addrs addr t) : (t.remove fun a => addr a == n) = t := by
  refine Forest.remove_eq_self fun b hb => ?_
  simp only [beq_eq_false_iff_ne]
  rintro rfl
  exact hn (mem_addrs_of_mem hb)

/-- The addresses of a forest: a node, what is below it, and the rest. -/
theorem addrs_perm_remove {a : α} {k : Forest α} (hd : (addrs addr t).Nodup) (ha : (a, k) ∈ t.cells) :
    (addrs addr t).Perm (addr a :: (addrs addr k ++ addrs addr (t.remove fun b => addr b == addr a))) := by
  induction t with
  | nil => cases ha
  | node b c s ihc ihs =>
    obtain ⟨hbc, hbs, hdc, hds, hcs⟩ := nodup_node hd
    rw [Forest.cells, List.mem_cons, List.mem_append] at ha
    rcases ha with ha | ha | ha
    · cases ha
      simp only [Forest.remove, beq_self_eq_true, if_true, remove_of_not_mem hbs, addrs_node]
      exact List.Perm.refl _
    · have hin : addr a ∈ addrs addr c := mem_addrs_of_mem (Forest.mem_nodes_of_cell ha)
      have hne : addr b ≠ addr a := fun he => hbc (he ▸ hin)
      simp only [Forest.remove, beq_iff_eq, hne, if_false, remove_of_not_mem (hcs _ hin), addrs_node]
      refine ((List.Perm.append_right _ (ihc hdc ha)).cons (addr b)).trans ?_
      simp only [List.cons_append, List.append_assoc]
      exact (List.Perm.swap _ _ _).trans (List.perm_middle.symm.cons _)
    · have hin : addr a ∈ addrs addr s := mem_addrs_of_mem (Forest.mem_nodes_of_cell ha)
      have hne : addr b ≠ addr a := fun he => hbs (he ▸ hin)
      have hnc : addr a ∉ addrs addr c := fun hc => hcs _ hc hin
      simp only [Forest.remove, beq_iff_eq, hne, if_false, remove_of_not_mem hnc, addrs_node]
      refine ((List.Perm.append_left _ (ihs hds ha)).cons (addr b)).trans ?_
      refine (List.perm_middle.cons _).trans ((List.Perm.swap _ _ _).trans (List.Perm.cons _ ?_))
      refine (List.Perm.cons _ ?_).trans List.perm_middle.symm
      rw [← List.append_assoc, ← List.append_assoc]
      exact List.Perm.append_right _ List.perm_append_comm

namespace Linked

/-- In a forest, only the parent and the siblings of a node point to it. -/
theorem redirect_eq (hl : Linked addr h none none t) {n i : Nat} {c d : Cell α} (hn : n ∈ addrs addr t) (hc : h n = some c)
    (hi : i ∈ addrs addr t) (hd : h i = some d) :
    redirect n c.left c.right d =
      { d with
        child := if c.parent = some i ∧ d.child = some n then c.right else d.child
        left := if c.right = some i then c.left else d.left
        right := if c.left = some i then c.right else d.right } := by
  have h1 : (c.parent = some i ∧ d.child = some n) ↔ d.child = some n := by
    refine ⟨And.right, fun he => ⟨?_, he⟩⟩
    obtain ⟨e, hen, hep, -⟩ := hl.parent_of_child hi hd he
    rwa [Option.some.inj (hc.symm.trans hen)]
  have h2 : c.left = some i ↔ d.right = some n := by
    constructor
    · intro he
      rcases hl.right_of_left hn hc he with ⟨-, h0⟩ | ⟨e, hei, her, -⟩
      · cases h0
      · rwa [Option.some.inj (hd.symm.trans hei)]
    · intro he
      obtain ⟨e, hen, hel, -⟩ := hl.left_of_right hi hd he
      rwa [Option.some.inj (hc.symm.trans hen)]
  have h3 : c.right = some i ↔ d.left = some n := by
    constructor
    · intro he
      obtain ⟨e, hei, hel, -⟩ := hl.left_of_right hn hc he
      rwa [Option.some.inj (hd.symm.trans hei)]
    · intro he
      rcases hl.right_of_left hi hd he with ⟨-, h0⟩ | ⟨e, hen, her, -⟩
      · cases h0
      · rwa [Option.some.inj (hc.symm.trans hen)]
  simp only [redirect, h1, h2, h3]

variable {n : Nat} {l r : Option Nat}

theorem redirect_of_not_mem (hl : Linked addr h par left t) (hn : n ∉ addrs addr t)
    (hh : ∀ i ∈ addrs addr t, h' i = (h i).map (redirect n l r)) :
    Linked addr h' par (if left = some n then l else left) t := by
  have hfirst : ∀ u : Forest α, n ∉ addrs addr u → first addr u ≠ some n := fun u hu hf => hu (first_mem hf)
  induction t generalizing par left with
  | nil => trivial
  | node a c s ihc ihs =>
    obtain ⟨h1, h2, h3⟩ := hl
    rw [addrs_node, List.mem_cons, List.mem_append, not_or, not_or] at hn
    obtain ⟨hna, hnc, hns⟩ := hn
    have h2' := ihc h2 hnc fun i hi => hh i (by simp [hi])
    have h3' := ihs h3 hns fun i hi => hh i (by simp [hi])
    rw [if_neg (by simp)] at h2'
    rw [if_neg (by simpa using Ne.symm hna)] at h3'
    refine ⟨?_, h2', h3'⟩
    rw [hh _ (by simp), h1]
    simp only [Option.map_some, redirect, if_neg (hfirst c hnc), if_neg (hfirst s hns)]

/-- The forest without the node `n` and what is below it. -/
theorem remove (hl : Linked addr h par left t) (hd : (addrs addr t).Nodup) (hleft : left ≠ some n)
    {c : Cell α} (hc : h n = some c) (hn : n ∈ addrs addr t)
    (hh : ∀ i ∈ addrs addr (t.remove fun a => addr a == n), h' i = (h i).map (redirect n c.left c.right)) :
    Linked addr h' par left (t.remove fun a => addr a == n) ∧
      first addr (t.remove fun a => addr a == n) = if first addr t = some n then c.right else first addr t := by
  induction t generalizing par left with
  | nil => cases hn
  | node a k s ihk ihs =>
    obtain ⟨h1, h2, h3⟩ := hl
    obtain ⟨hak, has, hdk, hds, hks⟩ := nodup_node hd
    rw [addrs_node, List.mem_cons, List.mem_append] at hn
    rcases hn with rfl | hn | hn
    · -- the first sibling goes
      cases Option.some.inj (hc.symm.trans h1)
      simp only [Forest.remove, beq_self_eq_true, if_true, first] at hh ⊢
      rw [remove_of_not_mem has] at hh ⊢
      refine ⟨?_, rfl⟩
      have := h3.redirect_of_not_mem has hh
      rwa [if_pos rfl] at this
    · -- a node below it goes
      have hne : addr a ≠ n := fun he => hak (he ▸ hn)
      have hns := hks n hn
      simp only [Forest.remove, beq_iff_eq, hne, if_false, remove_of_not_mem hns, first] at hh ⊢
      obtain ⟨h2', hf⟩ := ihk h2 hdk (by simp) hn fun i hi => hh i (by simp [hi])
      have h3' := h3.redirect_of_not_mem hns fun i hi => hh i (by simp [hi])
      rw [if_neg (by simpa using hne)] at h3'
      refine ⟨⟨?_, h2', h3'⟩, (if_neg (by simpa using hne)).symm⟩
      rw [hh _ (by simp), h1, hf]
      have hfs : first addr s ≠ some n := fun hf => hns (first_mem hf)
      simp only [Option.map_some, redirect, if_neg hleft, if_neg hfs]
    · -- another sibling, or a node below one, goes
      have hne : addr a ≠ n := fun he => has (he ▸ hn)
      have hnk : n ∉ addrs addr k := fun hk => hks n hk hn
      simp only [Forest.remove, beq_iff_eq, hne, if_false, remove_of_not_mem hnk, first] at hh ⊢
      obtain ⟨h3', hf⟩ := ihs h3 hds (by simpa using hne) hn fun i hi => hh i (by simp [hi])
      have h2' := h2.redirect_of_not_mem hnk fun i hi => hh i (by simp [hi])
      rw [if_neg (by simp)] at h2'
      refine ⟨⟨?_, h2', h3'⟩, (if_neg (by simpa using hne)).symm⟩
      rw [hh _ (by simp), h1, hf]
      have hfk : first addr k ≠ some n := fun hf => hnk (first_mem hf)
      simp only [Option.map_some, redirect, if_neg hleft, if_neg hfk]

end Linked

end Links
