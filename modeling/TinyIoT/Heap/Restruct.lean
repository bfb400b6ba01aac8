/-
Rebuilding the tree at a restart: `restruct_resource_tree` takes the nodes made from the rows of the
database, linked as a list of siblings in any order, moves those that belong below a node from the list
to its children, and does the same for each child with what is left of the list. It ends, attaches every
node whose chain of `pi` references reaches the CSEBase under its parent, and returns the others.
-/
import TinyIoT.Heap.Order

namespace TinyIoT

open Links

/-- `get_pi_rtnode`: the empty string when there is none. -/
def RTNode.pi (n : RTNode) : Option CStr :=
  match n.obj.get .pi with
  | none => some []
  | some j => j.valuestring

namespace Mem

/-! ## The code -/

/-- A node is taken out of the list. -/
def detach (h : Heap RTNode) (n : Nat) : Option (Heap RTNode) := do
  let c ← h n
  let h ← h.assignOpt c.left fun d => { d with right := c.right }
  let h ← h.assignOpt c.right fun d => { d with left := c.left }
  h.assign n fun d => { d with left := none, right := none }

/-- The first loop of `restruct_resource_tree`: the nodes of the list that belong below `parent` move
there. It leaves the head of the list. -/
def attach (fuel parent : Nat) : (passes : Nat) → Mem → (list rtnode : Option Nat) → Option (Mem × Option Nat)
  | 0, _, _, _ => none
  | _ + 1, m, list, none => some (m, list)
  | passes + 1, m, list, some n => do
    let c ← m.heap n
    let p ← m.heap parent
    let ri ← p.val.ri
    let pi ← c.val.pi
    if ri = pi then
      let h ← detach m.heap n
      let m ← { m with heap := h }.addChildResourceTree fuel parent n
      attach fuel parent passes m (if c.left = none then c.right else list) c.right
    else attach fuel parent passes m list c.right

/-- The second loop: one child after the other, each with what is left of the list. -/
def restructChildren (restruct : Mem → Nat → Option Nat → Option (Mem × Option Nat)) :
    (passes : Nat) → Mem → (list child : Option Nat) → Option (Mem × Option Nat)
  | 0, _, _, _ => none
  | _ + 1, m, list, none => some (m, list)
  | passes + 1, m, list, some n => do
    let (m, list) ← restruct m n list
    let c ← m.heap n
    restructChildren restruct passes m list c.right

/-- `restruct_resource_tree`. -/
def restructResourceTree : (fuel : Nat) → Mem → (parent : Nat) → (list : Option Nat) → Option (Mem × Option Nat)
  | 0, _, _, _ => none
  | fuel + 1, m, parent, list => do
    let (m, list) ← attach fuel parent fuel m list list
    let p ← m.heap parent
    restructChildren (restructResourceTree fuel) fuel m list p.child

end Mem

/-! ## Nodes in a list -/

/-- A node without what its place in the tree decides. -/
def RTNode.core (n : RTNode) : RTNode := { n with uri := [], subs := [], subCnt := 0 }

theorem RTNode.eq_of_core {n m : RTNode} (h : n.core = m.core) : n.id = m.id ∧ n.ri = m.ri ∧ n.pi = m.pi ∧ n.rn = m.rn := by
  unfold core at h
  injection h with h1 h2 h3 h4 h5
  unfold ri pi
  rw [h5]
  exact ⟨h1, rfl, rfl, h3⟩

theorem core_adopt (p x : RTNode) : (Mem.adopt p x).core = p.core ∧ (Mem.adopt p x).uri = p.uri := by
  unfold Mem.adopt
  split <;> exact ⟨rfl, rfl⟩

/-- The memory holds the nodes as a list of siblings without parent and children. -/
def Chain (h : Heap RTNode) (l : List RTNode) : Prop := Linked RTNode.id h none none (.ofList l)

/-- The head of a list. -/
def headId (l : List RTNode) : Option Nat := l.head?.map RTNode.id

theorem first_ofList (l : List RTNode) : first RTNode.id (.ofList l) = headId l := by
  cases l <;> rfl

theorem addrs_ofList (l : List RTNode) : addrs RTNode.id (.ofList l) = l.map RTNode.id := by
  unfold addrs
  rw [Forest.nodes_ofList]

/-- The cell of a node of the list. -/
theorem cell_ofList {h : Heap RTNode} {pre post : List RTNode} {x : RTNode} {left : Option Nat}
    (hl : Linked RTNode.id h none left (.ofList (pre ++ x :: post))) :
    h x.id = some ⟨x, none, none, (pre.getLast?.map RTNode.id).or left, headId post⟩ := by
  induction pre generalizing left with
  | nil =>
    rw [← first_ofList]
    exact hl.1
  | cons y pre ih =>
    rw [ih hl.2.2, List.getLast?_cons]
    cases pre.getLast? <;> rfl

theorem filter_id_ne {pre post : List RTNode} {x : RTNode} (hd : ((pre ++ x :: post).map RTNode.id).Nodup) :
    ((pre ++ x :: post).filter fun a => !(a.id == x.id)) = pre ++ post := by
  rw [List.map_append, List.map_cons, List.nodup_append] at hd
  obtain ⟨-, h2, h3⟩ := hd
  rw [List.filter_append, List.filter_cons_of_neg (by simp), List.filter_eq_self.mpr, List.filter_eq_self.mpr]
  · intro a ha
    have : a.id ≠ x.id := fun he => (List.nodup_cons.mp h2).1 (he ▸ List.mem_map_of_mem ha)
    simpa using this
  · intro a ha
    have : a.id ≠ x.id := h3 _ (List.mem_map_of_mem ha) _ List.mem_cons_self
    simpa using this

/-- Taking a node out of the list. -/
theorem detach_chain {h : Heap RTNode} {pre post : List RTNode} {x : RTNode} (hl : Chain h (pre ++ x :: post))
    (hd : ((pre ++ x :: post).map RTNode.id).Nodup) :
    ∃ h', Mem.detach h x.id = some h' ∧ h' x.id = some { val := x } ∧ Chain h' (pre ++ post) ∧
      ∀ i ∉ (pre ++ x :: post).map RTNode.id, h' i = h i := by
  have hc := cell_ofList hl
  generalize (pre.getLast?.map RTNode.id).or none = l at hc
  generalize headId post = r at hc
  have hx : x.id ∈ addrs RTNode.id (.ofList (pre ++ x :: post)) := by rw [addrs_ofList]; simp
  have hd' : (addrs RTNode.id (.ofList (pre ++ x :: post))).Nodup := by rwa [addrs_ofList]
  obtain ⟨-, hpl, hpr⟩ := hl.pointers hd' hx hc
  have hl' : ∀ i, l = some i → i ≠ x.id ∧ i ∈ addrs RTNode.id (.ofList (pre ++ x :: post)) := fun i hi =>
    (hpl i hi).resolve_left (by simp)
  let h₁ : Heap RTNode := fun i => if l = some i then (h i).map fun d => { d with right := r } else h i
  let h₂ : Heap RTNode := fun i => if r = some i then (h₁ i).map fun d => { d with left := l } else h₁ i
  have hone : h.assignOpt l (fun d => { d with right := r }) = some h₁ :=
    Heap.assignOpt_eq (fun i hi => hl.isSome_of_mem (hl' i hi).2) _
  have htwo : h₁.assignOpt r (fun d => { d with left := l }) = some h₂ :=
    Heap.assignOpt_eq (fun i hi => Mem.exists_ite_map (hl.isSome_of_mem (hpr i hi).2) _) _
  have hx₂ : h₂ x.id = some ⟨x, none, none, l, r⟩ :=
    (if_neg fun he => (hpr _ he).1 rfl).trans ((if_neg fun he => (hl' _ he).1 rfl).trans hc)
  refine ⟨h₂.set x.id { val := x }, ?_, Heap.set_self _ _ _, ?_, fun i hi => ?_⟩
  · simp only [Mem.detach, hc, Option.bind_eq_bind, Option.bind_some, hone, htwo]
    exact Heap.assign_eq hx₂ _
  · unfold Chain
    rw [← filter_id_ne hd, ← Forest.remove_ofList]
    refine (hl.remove hd' (by simp) hc hx fun i hi => ?_).1
    have hit : i ∈ addrs RTNode.id (.ofList (pre ++ x :: post)) := ((Forest.nodes_remove_sublist _ _).map RTNode.id).subset hi
    have hix : i ≠ x.id := by
      rintro rfl
      obtain ⟨a, ha, he⟩ := List.mem_map.mp hi
      have := Forest.not_mem_nodes_remove ha
      simp [he] at this
    obtain ⟨d, hdi⟩ := hl.isSome_of_mem hit
    rw [Heap.set_ne hix, hdi, Option.map_some, hl.redirect_eq hx hc hit hdi]
    simp only [h₂, h₁, hdi]
    split_ifs <;> simp_all
  · rw [← addrs_ofList] at hi
    have hix : i ≠ x.id := fun he => hi (he ▸ hx)
    rw [Heap.set_ne hix]
    have h1 : l ≠ some i := fun he => hi (hl' i he).2
    have h2 : r ≠ some i := fun he => hi (hpr i he).2
    simp only [h₂, h₁, if_neg h1, if_neg h2]

/-! ## The children of a node -/

/-- A node at its place below `p`. -/
def RTNode.below (p x : RTNode) : RTNode := { x with uri := p.uri ++ '/' :: x.rn }

/-- The addresses of a node, its children and the list. -/
def siteAddrs (p : RTNode) (k : Forest RTNode) (l : List RTNode) : List Nat :=
  p.id :: (addrs RTNode.id k ++ l.map RTNode.id)

/-- In memory: the node `p` with its children, and the list of the nodes that have no place yet. -/
structure Site (m : Mem) (p : RTNode) (pp pl pr : Option Nat) (k : Forest RTNode) (l : List RTNode) : Prop where
  node : m.heap p.id = some ⟨p, pp, first RTNode.id k, pl, pr⟩
  kids : Linked RTNode.id m.heap (some p.id) none k
  list : Chain m.heap l
  nodup : (siteAddrs p k l).Nodup

section Attach

variable {m : Mem} {p : RTNode} {pp pl pr : Option Nat} {k : Forest RTNode} {pre cur post : List RTNode} {x : RTNode}

/-- One node moves from the list to the children. -/
theorem Site.move (hs : Site m p pp pl pr k (pre ++ x :: post)) :
    ∃ m' h, Mem.detach m.heap x.id = some h ∧
      (∀ fuel ≥ k.roots.length, Mem.addChildResourceTree fuel { m with heap := h } p.id x.id = some m') ∧
      Site m' (Mem.adopt p x) pp pl pr (insertChild (p.below x) k) (pre ++ post) ∧
      (siteAddrs (Mem.adopt p x) (insertChild (p.below x) k) (pre ++ post)).Perm (siteAddrs p k (pre ++ x :: post)) ∧
      ∀ i ∉ siteAddrs p k (pre ++ x :: post), m'.heap i = m.heap i := by
  have hnd := hs.nodup
  rw [siteAddrs, List.nodup_cons, List.nodup_append, List.mem_append, not_or] at hnd
  obtain ⟨⟨hpk, hpl⟩, hdk, hdl, hdis⟩ := hnd
  obtain ⟨h, hdet, hx, hchain, hkeep⟩ := detach_chain hs.list hdl
  have hxl : x.id ∈ (pre ++ x :: post).map RTNode.id := by simp
  have hoff : ∀ i ∈ p.id :: addrs RTNode.id k, i ∉ (pre ++ x :: post).map RTNode.id := by
    intro i hi hil
    rcases List.mem_cons.mp hi with rfl | hi
    · exact hpl hil
    · exact hdis i hi i hil rfl
  have hxk : x.id ∉ p.id :: addrs RTNode.id k := fun hi => hoff _ hi hxl
  obtain ⟨m', hadd, hp', hk', -, hkeep'⟩ := Mem.addChildResourceTree_spec (m := { m with heap := h })
    ((hkeep _ (hoff _ List.mem_cons_self)).trans hs.node)
    (hs.kids.congr fun i hi => hkeep i (hoff i (List.mem_cons_of_mem _ hi))) (List.nodup_cons.mpr ⟨hpk, hdk⟩) hx hxk
  have hids := (nodes_insertChild (p.below x) k).map RTNode.id
  have hsub : (pre ++ post).Sublist (pre ++ x :: post) := List.Sublist.append (List.Sublist.refl _) (List.sublist_cons_self _ _)
  have hrest : ∀ i ∈ (pre ++ post).map RTNode.id, i ≠ x.id ∧ i ∉ p.id :: addrs RTNode.id k := by
    intro i hi
    refine ⟨?_, fun hik => hoff i hik ((hsub.map _).subset hi)⟩
    rintro rfl
    rw [List.map_append, List.map_cons] at hdl
    have := (List.nodup_middle.mp hdl)
    rw [List.nodup_cons, ← List.map_append] at this
    exact this.1 hi
  have hperm : (siteAddrs (Mem.adopt p x) (insertChild (p.below x) k) (pre ++ post)).Perm (siteAddrs p k (pre ++ x :: post)) := by
    unfold siteAddrs
    rw [Mem.adopt_id]
    refine List.Perm.cons _ ((List.Perm.append_right _ hids).trans ?_)
    rw [List.map_cons, List.map_append, List.map_append, List.map_cons]
    exact List.perm_middle.symm.trans (List.Perm.append_left _ List.perm_middle.symm)
  refine ⟨m', h, hdet, hadd, ⟨by rw [Mem.adopt_id]; exact hp', by rw [Mem.adopt_id]; exact hk', ?_,
    hperm.nodup_iff.mpr hs.nodup⟩, hperm, fun i hi => ?_⟩
  · refine hchain.congr fun i hi => ?_
    rw [addrs_ofList] at hi
    exact hkeep' i (hrest i hi).1 (hrest i hi).2
  · unfold siteAddrs at hi
    rw [← List.cons_append, List.mem_append, not_or] at hi
    exact (hkeep' i (fun he => hi.2 (he ▸ hxl)) hi.1).trans (hkeep i hi.2)

/-- Every child is a leaf. -/
def Flat (t : Forest RTNode) : Prop := ∀ a c, (a, c) ∈ t.cells → c = .nil

theorem Flat.insertChild (hk : Flat k) (x : RTNode) : Flat (insertChild x k) := by
  intro a c hc
  rcases (mem_cells_insertChild x k (a, c)).mp hc with he | he
  · cases he
    rfl
  · exact hk a c he

/-- The first loop: the nodes of the list that belong below `p` move there. -/
theorem attach_spec {ri : CStr} (hs : Site m p pp pl pr k (pre ++ cur)) (hri : p.ri = some ri)
    (hpi : ∀ x ∈ cur, x.pi.isSome) (hflat : Flat k) :
    ∃ m' p' k', (∃ N, ∀ fuel ≥ N, ∀ passes ≥ N, Mem.attach fuel p.id passes m (headId (pre ++ cur)) (headId cur) =
        some (m', headId (pre ++ cur.filter fun x => x.pi ≠ some ri))) ∧
      Site m' p' pp pl pr k' (pre ++ cur.filter fun x => x.pi ≠ some ri) ∧ p'.core = p.core ∧ p'.uri = p.uri ∧ Flat k' ∧
      k'.nodes.Perm (k.nodes ++ (cur.filter fun x => x.pi = some ri).map p.below) ∧
      ∀ i ∉ siteAddrs p k (pre ++ cur), m'.heap i = m.heap i := by
  induction cur generalizing m p k pre with
  | nil =>
    refine ⟨m, p, k, ⟨1, fun fuel _ passes hp => ?_⟩, hs, rfl, rfl, hflat, by simp, fun _ _ => rfl⟩
    obtain ⟨passes, rfl⟩ : ∃ j, passes = j + 1 := ⟨passes - 1, by omega⟩
    rfl
  | cons x cur ih =>
    obtain ⟨pi, hpx⟩ := Option.isSome_iff_exists.mp (hpi x List.mem_cons_self)
    have hpi' : ∀ y ∈ cur, y.pi.isSome := fun y hy => hpi y (List.mem_cons_of_mem _ hy)
    have hc := cell_ofList hs.list
    by_cases hm : ri = pi
    · -- the node belongs here
      subst hm
      obtain ⟨m₁, h, hdet, hadd, hs₁, haddrs, hkeep₁⟩ := hs.move
      obtain ⟨hcore, huri⟩ := core_adopt p x
      have hri₁ : (Mem.adopt p x).ri = some ri := (RTNode.eq_of_core hcore).2.1.trans hri
      obtain ⟨m', p', k', ⟨N, hN⟩, hs', hcore', huri', hflat', hperm', hkeep'⟩ := ih hs₁ hri₁ hpi' (hflat.insertChild _)
      rw [List.filter_cons_of_neg (by simp [hpx])]
      refine ⟨m', p', k', ⟨max N k.roots.length + 1, fun fuel hf passes hp => ?_⟩, hs', hcore'.trans hcore, huri'.trans huri,
        hflat', ?_, fun i hi => (hkeep' i fun hi' => hi (haddrs.mem_iff.mp hi')).trans (hkeep₁ i hi)⟩
      · obtain ⟨passes, rfl⟩ : ∃ j, passes = j + 1 := ⟨passes - 1, by omega⟩
        have hhead : (if (pre.getLast?.map RTNode.id).or none = none then headId cur else headId (pre ++ x :: cur)) =
            headId (pre ++ cur) := by
          cases pre with
          | nil => rfl
          | cons y pre => simp [headId, List.getLast?_cons]
        have hnext := hN fuel (by omega) passes (by omega)
        rw [Mem.adopt_id, ← hhead] at hnext
        rw [← hnext]
        show Mem.attach fuel p.id (passes + 1) m _ (some x.id) = _
        simp only [Mem.attach, hc, hs.node, hri, hpx, Option.bind_eq_bind, Option.bind_some, if_true, hdet,
          hadd fuel (by omega)]
      · rw [List.filter_cons_of_pos (by simp [hpx]), List.map_cons]
        have hbelow : (Mem.adopt p x).below = p.below := by
          funext y
          unfold RTNode.below
          rw [huri]
        rw [hbelow] at hperm'
        refine hperm'.trans ((List.Perm.append_right _ (nodes_insertChild _ k)).trans ?_)
        exact List.perm_middle.symm
    · -- the node stays in the list
      have hs₀ : Site m p pp pl pr k ((pre ++ [x]) ++ cur) := by rwa [List.append_assoc]
      obtain ⟨m', p', k', ⟨N, hN⟩, hs', hcore', huri', hflat', hperm', hkeep'⟩ := ih hs₀ hri hpi' hflat
      have hne : x.pi ≠ some ri := by
        rw [hpx]
        exact fun he => hm (Option.some.inj he).symm
      rw [List.filter_cons_of_pos (by simpa using hne), List.filter_cons_of_neg (by simpa using hne)]
      rw [List.append_assoc] at hs' hkeep'
      refine ⟨m', p', k', ⟨N + 1, fun fuel hf passes hp => ?_⟩, hs', hcore', huri', hflat', hperm', hkeep'⟩
      obtain ⟨passes, rfl⟩ : ∃ j, passes = j + 1 := ⟨passes - 1, by omega⟩
      have hnext := hN fuel (by omega) passes (by omega)
      rw [List.append_assoc, List.append_assoc] at hnext
      refine Eq.trans ?_ hnext
      show Mem.attach fuel p.id (passes + 1) m _ (some x.id) = _
      simp only [Mem.attach, hc, hs.node, hri, hpx, Option.bind_eq_bind, Option.bind_some, if_neg hm]
      rfl

end Attach

/-! ## The recursion -/

/-- `b` stands below the node its `pi` names, with the address that follows. -/
def Edge (a b : RTNode) : Prop := b.pi = a.ri ∧ b.uri = a.uri ++ '/' :: b.rn

/-- Nodes that differ in their subscriptions only. -/
def Alike (a b : RTNode) : Prop := a.core = b.core ∧ a.uri = b.uri

theorem Edge.alike {a a' b b' : RTNode} (h : Edge a b) (ha : Alike a' a) (hb : Alike b' b) : Edge a' b' := by
  obtain ⟨-, hri, -, -⟩ := RTNode.eq_of_core ha.1
  obtain ⟨-, -, hpi, hrn⟩ := RTNode.eq_of_core hb.1
  unfold Edge
  rw [hri, hpi, hrn, ha.2, hb.2]
  exact h

/-- What `restruct_resource_tree` does with every list of at most `n` nodes: a node without children gets
all that belongs below it, each at its place, and the list keeps the rest. -/
def Restructs (n : Nat) : Prop :=
  ∀ {m : Mem} {p : RTNode} {pp pl pr : Option Nat} {l : List RTNode}, l.length ≤ n → Site m p pp pl pr .nil l →
    p.ri.isSome → (∀ x ∈ l, x.ri.isSome ∧ x.pi.isSome) →
    ∃ m' p' k rest, Returns (fun fuel => Mem.restructResourceTree fuel m p.id (headId l)) (m', headId rest) ∧
      Site m' p' pp pl pr k rest ∧ Alike p' p ∧ (∀ b ∈ k.roots, Edge p b) ∧
      (∀ a c, (a, c) ∈ k.cells → ∀ b ∈ c.roots, Edge a b) ∧ (∀ x ∈ rest, x.pi ≠ p.ri ∧ ∀ a ∈ k.nodes, x.pi ≠ a.ri) ∧
      ((k.nodes ++ rest).map RTNode.core).Perm (l.map RTNode.core) ∧ rest.Sublist l ∧
      ∀ i ∉ siteAddrs p .nil l, m'.heap i = m.heap i

theorem ids_of_core {l l' : List RTNode} (h : (l.map RTNode.core).Perm (l'.map RTNode.core)) :
    (l.map RTNode.id).Perm (l'.map RTNode.id) := by
  have := h.map RTNode.id
  rwa [List.map_map, List.map_map] at this

theorem exists_alike {l l' : List RTNode} (h : List.Forall₂ Alike l l') {a : RTNode} (ha : a ∈ l) : ∃ b ∈ l', Alike a b := by
  induction h with
  | nil => cases ha
  | cons hab _ ih =>
    rcases List.mem_cons.mp ha with rfl | ha
    · exact ⟨_, List.mem_cons_self, hab⟩
    · obtain ⟨b, hb, h⟩ := ih ha
      exact ⟨b, List.mem_cons_of_mem _ hb, h⟩

theorem first_of_alike {f f' : Forest RTNode} (h : List.Forall₂ Alike f'.roots f.roots) :
    first RTNode.id f = first RTNode.id f' := by
  cases f with
  | nil =>
    cases f' with
    | nil => rfl
    | node a c s => cases h
  | node a c s =>
    cases f' with
    | nil => cases h
    | node a' c' s' =>
      obtain ⟨ha, -⟩ := List.forall₂_cons.mp h
      rw [first_node, first_node, (RTNode.eq_of_core ha.1).1]

/-- The second loop, over children that are leaves. -/
theorem restructChildren_spec {n : Nat} {f : Forest RTNode} (hrec : f ≠ .nil → Restructs n) (hflat : Flat f) {m : Mem}
    {par left : Option Nat} {l : List RTNode} (hlen : l.length ≤ n) (hf : Linked RTNode.id m.heap par left f)
    (hl : Chain m.heap l) (hd : (addrs RTNode.id f ++ l.map RTNode.id).Nodup) (hri : ∀ a ∈ f.nodes, a.ri.isSome)
    (hpi : ∀ x ∈ l, x.ri.isSome ∧ x.pi.isSome) :
    ∃ m' f' rest, (∃ N, ∀ fuel ≥ N, ∀ passes ≥ N, Mem.restructChildren (Mem.restructResourceTree fuel) passes m (headId l)
        (first RTNode.id f) = some (m', headId rest)) ∧
      Linked RTNode.id m'.heap par left f' ∧ Chain m'.heap rest ∧ List.Forall₂ Alike f'.roots f.roots ∧
      (∀ a c, (a, c) ∈ f'.cells → ∀ b ∈ c.roots, Edge a b) ∧ (∀ x ∈ rest, ∀ a ∈ f'.nodes, x.pi ≠ a.ri) ∧
      ((f'.nodes ++ rest).map RTNode.core).Perm ((f.nodes ++ l).map RTNode.core) ∧ rest.Sublist l ∧
      ∀ i ∉ addrs RTNode.id f ++ l.map RTNode.id, m'.heap i = m.heap i := by
  induction f generalizing m left l with
  | nil =>
    refine ⟨m, .nil, l, ⟨1, fun fuel _ passes hp => ?_⟩, trivial, hl, List.Forall₂.nil, by simp [Forest.cells], by simp [Forest.nodes],
      List.Perm.refl _, List.Sublist.refl _, fun _ _ => rfl⟩
    obtain ⟨passes, rfl⟩ : ∃ j, passes = j + 1 := ⟨passes - 1, by omega⟩
    rfl
  | node b d s _ ih =>
    obtain rfl : d = .nil := hflat b d (by simp [Forest.cells])
    obtain ⟨h1, -, h3⟩ := hf
    simp only [addrs_node, addrs_nil, List.nil_append, List.cons_append, List.nodup_cons, List.mem_append, not_or] at hd
    obtain ⟨⟨hbs, hbl⟩, hd⟩ := hd
    have hdis := List.nodup_append.mp hd
    have hsite : Site m b par left (first RTNode.id s) .nil l :=
      ⟨h1, trivial, hl, List.nodup_cons.mpr ⟨by simpa using hbl, hdis.2.1⟩⟩
    obtain ⟨m₁, b', k, rest₁, hret, hs₁, halike, hroots, hcells, hrest₁, hperm₁, hsub₁, hkeep₁⟩ :=
      hrec (by simp) hlen hsite (hri b (by simp [Forest.nodes])) hpi
    have hids := ids_of_core hperm₁
    rw [List.map_append] at hids
    have hb := (RTNode.eq_of_core halike.1).1
    have hrest : ∀ i ∈ rest₁.map RTNode.id, i ∈ l.map RTNode.id := fun i hi => (hsub₁.map _).subset hi
    have hkl : ∀ i ∈ addrs RTNode.id k, i ∈ l.map RTNode.id := fun i hi => hids.mem_iff.mp (List.mem_append_left _ hi)
    have hsl : ∀ i ∈ addrs RTNode.id s, i ∉ l.map RTNode.id := fun i hi hil => hdis.2.2 i hi i hil rfl
    have hs₁' := List.nodup_cons.mp hs₁.nodup
    have hkr : ∀ i ∈ addrs RTNode.id k, i ∉ rest₁.map RTNode.id := fun i hi hir =>
      (List.nodup_append.mp hs₁'.2).2.2 i hi i hir rfl
    -- the other children, with what is left
    have h3₁ : Linked RTNode.id m₁.heap par (some b.id) s := by
      refine h3.congr fun i hi => hkeep₁ i fun hi' => ?_
      rcases List.mem_cons.mp hi' with rfl | hi'
      · exact hbs hi
      · exact hsl i hi (by simpa using hi')
    obtain ⟨m', s', rest, ⟨N, hN⟩, hs', hl', halikes, hcells', hrest', hperm', hsub', hkeep'⟩ :=
      ih (fun _ => hrec (by simp)) (fun a c hc => hflat a c (by simp [Forest.cells, hc])) (hsub₁.length_le.trans hlen) h3₁ hs₁.list
        (hd.sublist (List.Sublist.append (List.Sublist.refl _) (hsub₁.map _))) (fun a ha => hri a (by simp [Forest.nodes, ha]))
        (fun x hx => hpi x (hsub₁.subset hx))
    have hfirst := first_of_alike halikes
    refine ⟨m', .node b' k s', rest, ?_, ⟨?_, ?_, ?_⟩, hl', ?_, ?_, ?_, ?_, hsub'.trans hsub₁, ?_⟩
    · obtain ⟨N₁, hN₁⟩ := hret
      refine ⟨max N N₁ + 1, fun fuel hf passes hp => ?_⟩
      obtain ⟨passes, rfl⟩ : ∃ j, passes = j + 1 := ⟨passes - 1, by omega⟩
      have hnode := hs₁.node
      rw [hb] at hnode
      rw [first_node]
      simp only [Mem.restructChildren, hN₁ fuel (by omega), Option.bind_eq_bind, Option.bind_some, hnode]
      exact hN fuel (by omega) passes (by omega)
    · rw [hkeep' b'.id (by rw [hb, List.mem_append, not_or]; exact ⟨hbs, fun hi => hbl (hrest _ hi)⟩), hs₁.node, hfirst]
    · refine hs₁.kids.congr fun i hi => hkeep' i fun hi' => ?_
      rcases List.mem_append.mp hi' with hi' | hi'
      · exact hsl i hi' (hkl i hi)
      · exact hkr i hi hi'
    · rw [hb]
      exact hs'
    · exact List.Forall₂.cons halike halikes
    · intro a c hc x hx
      rw [Forest.cells, List.mem_cons, List.mem_append] at hc
      rcases hc with hc | hc | hc
      · cases hc
        exact (hroots x hx).alike halike ⟨rfl, rfl⟩
      · exact hcells a c hc x hx
      · exact hcells' a c hc x hx
    · intro x hx a ha
      have hx₁ := hrest₁ x (hsub'.subset hx)
      rw [Forest.nodes, List.mem_cons, List.mem_append] at ha
      rcases ha with rfl | ha | ha
      · rw [(RTNode.eq_of_core halike.1).2.1]
        exact hx₁.1
      · exact hx₁.2 a ha
      · exact hrest' x hx a ha
    · simp only [Forest.nodes, List.map_append, List.map_cons, List.append_assoc, List.nil_append, List.cons_append,
        halike.1] at hperm₁ hperm' ⊢
      refine List.Perm.cons _ ((List.Perm.append_left _ hperm').trans ?_)
      rw [← List.append_assoc]
      refine (List.Perm.append_right _ List.perm_append_comm).trans ?_
      rw [List.append_assoc]
      exact List.Perm.append_left _ hperm₁
    · intro i hi
      simp only [addrs_node, addrs_nil, List.nil_append, List.cons_append, List.mem_cons, List.mem_append, not_or] at hi
      obtain ⟨hib, his, hil⟩ := hi
      rw [hkeep' i (by rw [List.mem_append, not_or]; exact ⟨his, fun h => hil (hrest i h)⟩)]
      exact hkeep₁ i (by unfold siteAddrs; simpa using ⟨hib, by simpa using hil⟩)

/-- The recursion ends because every level takes at least one node from the list. -/
theorem restructs (n : Nat) : Restructs n := by
  induction n using Nat.strong_induction_on with
  | _ n ih =>
    intro m p pp pl pr l hlen hs hri hl
    obtain ⟨ri, hri⟩ := Option.isSome_iff_exists.mp hri
    have hs₀ : Site m p pp pl pr .nil ([] ++ l) := hs
    obtain ⟨m₁, p₁, k₁, ⟨N₁, hN₁⟩, hs₁, hcore, huri, hflat, hperm, hkeep⟩ := attach_spec hs₀ hri (fun x hx => (hl x hx).2)
      (by intro a c hc; cases hc)
    simp only [List.nil_append] at hN₁ hs₁ hperm hkeep
    have hid := (RTNode.eq_of_core hcore).1
    have hmoved : ∀ a ∈ k₁.nodes, ∃ x ∈ l, x.pi = some ri ∧ a = p.below x := by
      intro a ha
      obtain ⟨x, hx, rfl⟩ := List.mem_map.mp (hperm.mem_iff.mp ha)
      exact ⟨x, List.mem_of_mem_filter hx, by simpa using List.of_mem_filter hx, rfl⟩
    -- a child means one node less in the list
    have hrec : k₁ ≠ .nil → Restructs (l.filter fun x => x.pi ≠ some ri).length := by
      intro hk
      refine ih _ (lt_of_lt_of_le ?_ hlen)
      cases k₁ with
      | nil => exact absurd rfl hk
      | node a c s =>
        obtain ⟨x, hx, hpx, -⟩ := hmoved a (by simp [Forest.nodes])
        exact List.length_filter_lt_length_iff_exists.mpr ⟨x, hx, by simpa using hpx⟩
    have hnd := List.nodup_cons.mp hs₁.nodup
    obtain ⟨m', f', rest, ⟨N, hN⟩, hf', hrest, halikes, hcells, hdone, hperm', hsub, hkeep'⟩ :=
      restructChildren_spec hrec hflat (Nat.le_refl _) hs₁.kids hs₁.list hnd.2
        (fun a ha => by obtain ⟨x, hx, -, rfl⟩ := hmoved a ha; exact (hl x hx).1)
        (fun x hx => hl x (List.mem_of_mem_filter hx))
    have hids := ids_of_core hperm'
    rw [List.map_append, List.map_append] at hids
    have hk₁ : ∀ i ∈ addrs RTNode.id k₁ ++ (l.filter fun x => x.pi ≠ some ri).map RTNode.id, i ∈ l.map RTNode.id := by
      intro i hi
      rcases List.mem_append.mp hi with hi | hi
      · obtain ⟨a, ha, rfl⟩ := List.mem_map.mp hi
        obtain ⟨x, hx, -, rfl⟩ := hmoved a ha
        exact List.mem_map.mpr ⟨x, hx, rfl⟩
      · exact (List.filter_sublist.map _).subset hi
    refine ⟨m', p₁, f', rest, ⟨max N N₁ + 1, fun fuel hf => ?_⟩, ⟨?_, hf', hrest, ?_⟩, ⟨hcore, huri⟩, fun b hb => ?_, hcells,
      fun x hx => ⟨?_, hdone x hx⟩, ?_, hsub.trans List.filter_sublist, fun i hi => ?_⟩
    · obtain ⟨fuel, rfl⟩ : ∃ j, fuel = j + 1 := ⟨fuel - 1, by omega⟩
      have hnode := hs₁.node
      rw [hid] at hnode
      simp only [Mem.restructResourceTree, hN₁ fuel (by omega) fuel (by omega), Option.bind_eq_bind, Option.bind_some, hnode]
      exact hN fuel (by omega) fuel (by omega)
    · rw [hkeep' _ hnd.1, hs₁.node, first_of_alike halikes]
    · exact List.nodup_cons.mpr ⟨fun hi => hnd.1 (hids.mem_iff.mp hi), hids.nodup_iff.mpr hnd.2⟩
    · obtain ⟨b₀, hb₀, hab⟩ := exists_alike halikes hb
      obtain ⟨x, -, hpx, rfl⟩ := hmoved b₀ ((Forest.roots_sublist_nodes _).subset hb₀)
      have hedge : Edge p (p.below x) := ⟨hpx.trans hri.symm, rfl⟩
      exact hedge.alike ⟨rfl, rfl⟩ hab
    · rw [hri]
      simpa using List.of_mem_filter (hsub.subset hx)
    · refine hperm'.trans ?_
      rw [List.map_append]
      refine (List.Perm.append_right _ (hperm.map _)).trans ?_
      rw [Forest.nodes, List.nil_append, List.map_map, show RTNode.core ∘ p.below = RTNode.core from rfl, ← List.map_append]
      refine List.Perm.map _ ?_
      have := List.filter_append_perm (fun x : RTNode => decide (x.pi = some ri)) l
      simpa using this
    · have hi' : i ∉ l.map RTNode.id := fun h => hi (by unfold siteAddrs; simpa using Or.inr (by simpa using h))
      exact (hkeep' i fun h => hi' (hk₁ i h)).trans (hkeep i hi)

/-! ## The whole tree -/

/-- What the server starts from: the CSEBase alone, and the stored nodes as a list, each with an `ri` of
its own and a `pi`. -/
structure StoredList (m : Mem) (cb : RTNode) (l : List RTNode) : Prop where
  base : m.heap cb.id = some { val := cb }
  list : Chain m.heap l
  nodup : ((cb :: l).map RTNode.id).Nodup
  ris : ∀ x ∈ cb :: l, x.ri.isSome
  pis : ∀ x ∈ l, x.pi.isSome
  distinct : ((cb :: l).map RTNode.ri).Nodup

/-- The chain of `pi` references of a stored node reaches the CSEBase. -/
inductive Reaches (cb : RTNode) (l : List RTNode) : RTNode → Prop where
  | direct {x : RTNode} : x ∈ l → x.pi = cb.ri → Reaches cb l x
  | through {x y : RTNode} : x ∈ l → Reaches cb l y → x.pi = y.ri → Reaches cb l x

theorem Reaches.mem {cb x : RTNode} {l : List RTNode} (h : Reaches cb l x) : x ∈ l := by
  cases h <;> assumption

theorem Reaches.mono {cb x : RTNode} {l l' : List RTNode} (h : Reaches cb l x) (hl : ∀ y ∈ l, y ∈ l') : Reaches cb l' x := by
  induction h with
  | direct hx hp => exact .direct (hl _ hx) hp
  | through hx _ hp ih => exact .through (hl _ hx) ih hp

/-- The parent relation of a tree, by address. -/
def ParentOf (t : Forest RTNode) (i j : Nat) : Prop := ∃ a k b, (a, k) ∈ t.cells ∧ b ∈ k.roots ∧ a.id = i ∧ b.id = j

/-- The parent relation the `pi` attributes give. -/
def Owns (cb : RTNode) (l : List RTNode) (i j : Nat) : Prop :=
  ∃ a ∈ cb :: l, ∃ b, Reaches cb l b ∧ b.pi = a.ri ∧ a.id = i ∧ b.id = j

/-- The tree that holds the nodes that reach the CSEBase, each below its parent. -/
structure Rebuilt (m : Mem) (cb : RTNode) (l : List RTNode) (t : Forest RTNode) (rest : List RTNode) : Prop where
  linked : Linked RTNode.id m.heap none none t
  root : ∃ cb', t.roots = [cb'] ∧ Alike cb' cb
  list : Chain m.heap rest
  sublist : rest.Sublist l
  left : ∀ x ∈ l, x ∈ rest ↔ ¬ Reaches cb l x
  nodup : (addrs RTNode.id t).Nodup
  nodes : ∀ b ∈ t.nodes, Alike b cb ∨ ∃ x, Reaches cb l x ∧ b.core = x.core
  all : ∀ x, Reaches cb l x → ∃ b ∈ t.nodes, b.core = x.core
  edges : ∀ a k, (a, k) ∈ t.cells → ∀ b ∈ k.roots, Edge a b

theorem StoredList.rebuilt {m : Mem} {cb : RTNode} {l : List RTNode} (h : StoredList m cb l) :
    ∃ m' t rest, Returns (fun fuel => Mem.restructResourceTree fuel m cb.id (headId l)) (m', headId rest) ∧
      Rebuilt m' cb l t rest := by
  have hnd : (siteAddrs cb .nil l).Nodup := h.nodup
  obtain ⟨m', cb', k, rest, hret, hs, hcb, hroots, hcells, hrest, hperm, hsub, -⟩ := restructs l.length (Nat.le_refl _)
    ⟨h.base, trivial, h.list, hnd⟩ (h.ris cb List.mem_cons_self) (fun x hx => ⟨h.ris x (List.mem_cons_of_mem _ hx), h.pis x hx⟩)
  have hid := List.nodup_cons.mp (show (cb.id :: l.map RTNode.id).Nodup from h.nodup)
  -- a node of the list is attached or left over
  have hback : ∀ a ∈ k.nodes, ∃ x ∈ l, a.core = x.core := by
    intro a ha
    have : a.core ∈ l.map RTNode.core := hperm.mem_iff.mp (List.mem_map_of_mem (List.mem_append_left _ ha))
    obtain ⟨x, hx, he⟩ := List.mem_map.mp this
    exact ⟨x, hx, he.symm⟩
  have hput : ∀ x ∈ l, x ∉ rest → ∃ a ∈ k.nodes, a.core = x.core := by
    intro x hx hxr
    have : x.core ∈ (k.nodes ++ rest).map RTNode.core := hperm.mem_iff.mpr (List.mem_map_of_mem hx)
    obtain ⟨a, ha, he⟩ := List.mem_map.mp this
    rcases List.mem_append.mp ha with ha | ha
    · exact ⟨a, ha, he⟩
    · have := List.inj_on_of_nodup_map hid.2 (hsub.subset ha) hx (RTNode.eq_of_core he).1
      exact absurd (this ▸ ha) hxr
  have hreach : ∀ a ∈ k.nodes, ∃ x, Reaches cb l x ∧ a.core = x.core := by
    intro a ha
    refine Forest.forall_nodes (P := fun a => a ∈ k.nodes → ∃ x, Reaches cb l x ∧ a.core = x.core) ?_ ?_ ha ha
    · intro b hb hbk
      obtain ⟨x, hx, he⟩ := hback b hbk
      exact ⟨x, .direct hx ((RTNode.eq_of_core he).2.2.1.symm.trans (hroots b hb).1), he⟩
    · intro a c hac iha b hb hbk
      obtain ⟨y, hy, hay⟩ := iha (Forest.mem_nodes_of_cell hac)
      obtain ⟨x, hx, he⟩ := hback b hbk
      refine ⟨x, .through hx hy ?_, he⟩
      rw [← (RTNode.eq_of_core he).2.2.1, (hcells a c hac b hb).1, (RTNode.eq_of_core hay).2.1]
  have hleft : ∀ x, Reaches cb l x → x ∉ rest := by
    intro x hx
    induction hx with
    | direct _ hp => exact fun hr => (hrest _ hr).1 hp
    | @through x y _ hy hp ih =>
      intro hr
      obtain ⟨a, ha, he⟩ := hput y hy.mem ih
      exact (hrest x hr).2 a ha (hp.trans (RTNode.eq_of_core he).2.1.symm)
  refine ⟨m', .node cb' k .nil, rest, hret, ⟨hs.node, hs.kids, trivial⟩, ⟨cb', rfl, hcb⟩, hs.list, hsub, fun x hx => ?_, ?_, ?_, ?_,
    ?_⟩
  · constructor
    · exact fun hr hx => hleft x hx hr
    · intro hn
      by_contra hr
      obtain ⟨a, ha, he⟩ := hput x hx hr
      obtain ⟨y, hy, hay⟩ := hreach a ha
      have := List.inj_on_of_nodup_map hid.2 hy.mem hx (RTNode.eq_of_core (hay.symm.trans he)).1
      exact hn (this ▸ hy)
  · have := hs.nodup
    rw [siteAddrs, ← List.cons_append] at this
    simpa using (List.nodup_append.mp this).1
  · intro b hb
    simp only [Forest.nodes, List.append_nil, List.mem_cons] at hb
    rcases hb with rfl | hb
    · exact .inl hcb
    · exact .inr (hreach b hb)
  · intro x hx
    obtain ⟨a, ha, he⟩ := hput x hx.mem (hleft x hx)
    exact ⟨a, by simp [Forest.nodes, ha], he⟩
  · intro a c hac b hb
    simp only [Forest.cells, List.append_nil, List.mem_cons] at hac
    rcases hac with hac | hac
    · cases hac
      exact (hroots b hb).alike hcb ⟨rfl, rfl⟩
    · exact hcells a c hac b hb

/-- The parent relation of the tree that is built follows from the `pi` attributes. -/
theorem Rebuilt.parentOf_iff {m m' : Mem} {cb : RTNode} {l rest : List RTNode} {t : Forest RTNode} (h : StoredList m cb l)
    (hr : Rebuilt m' cb l t rest) (i j : Nat) : ParentOf t i j ↔ Owns cb l i j := by
  have hid := List.nodup_cons.mp (show (cb.id :: l.map RTNode.id).Nodup from h.nodup)
  have hcb : ∀ x, Reaches cb l x → x.id ≠ cb.id := fun x hx he => hid.1 (he ▸ List.mem_map_of_mem hx.mem)
  -- every node comes from one that was stored
  have hfrom : ∀ b ∈ t.nodes, ∃ x ∈ cb :: l, b.core = x.core := by
    intro b hb
    rcases hr.nodes b hb with hb | ⟨x, hx, he⟩
    · exact ⟨cb, List.mem_cons_self, hb.1⟩
    · exact ⟨x, List.mem_cons_of_mem _ hx.mem, he⟩
  have hone : ∀ b ∈ t.nodes, ∀ n ∈ t.nodes, b.id = n.id → b = n := fun b hb n hn he =>
    List.inj_on_of_nodup_map hr.nodup hb hn he
  obtain ⟨cb', hroot, hcb'⟩ := hr.root
  have hroot' : cb' ∈ t.nodes := (Forest.roots_sublist_nodes t).subset (by rw [hroot]; exact List.mem_singleton_self _)
  constructor
  · rintro ⟨a, k, b, hac, hb, rfl, rfl⟩
    obtain ⟨x, hx, hax⟩ := hfrom a (Forest.mem_nodes_of_cell hac)
    have hbt := Forest.roots_of_cell hac hb
    obtain ⟨hpi, huri⟩ := hr.edges a k hac b hb
    rcases hr.nodes b hbt with hbc | ⟨y, hy, he⟩
    · -- the CSEBase has no parent
      have hbcb : b = cb' := hone b hbt cb' hroot' (by
        rw [(RTNode.eq_of_core hbc.1).1, (RTNode.eq_of_core hcb'.1).1])
      have huse := nodup_child_root hr.nodup hac hb
      rw [hroot] at huse
      exact absurd (by rw [hbcb]; exact List.mem_singleton_self _) huse
    · refine ⟨x, hx, y, hy, ?_, (RTNode.eq_of_core hax).1.symm, (RTNode.eq_of_core he).1.symm⟩
      rw [← (RTNode.eq_of_core he).2.2.1, hpi, (RTNode.eq_of_core hax).2.1]
  · rintro ⟨a, ha, b, hb, hpi, rfl, rfl⟩
    obtain ⟨n, hn, hnb⟩ := hr.all b hb
    rcases Forest.exists_parent hn with hroots | ⟨c, k, hck, hnk⟩
    · rw [hroot, List.mem_singleton] at hroots
      subst hroots
      exact absurd ((RTNode.eq_of_core hnb).1.symm.trans (RTNode.eq_of_core hcb'.1).1) (hcb b hb)
    · refine ⟨c, k, n, hck, hnk, ?_, (RTNode.eq_of_core hnb).1⟩
      obtain ⟨x, hx, hcx⟩ := hfrom c (Forest.mem_nodes_of_cell hck)
      have hri : x.ri = a.ri := by
        rw [← (RTNode.eq_of_core hcx).2.1, ← (hr.edges c k hck n hnk).1, (RTNode.eq_of_core hnb).2.2.1, hpi]
      have := List.inj_on_of_nodup_map h.distinct hx ha hri
      rw [← this, (RTNode.eq_of_core hcx).1]

/-- `restruct_resource_tree` ends, puts every stored node whose `pi` references reach the CSEBase once into
the tree below the node they name, returns the others, and the order of the list does not matter for who
is the parent of whom. -/
theorem restruct_stored {m : Mem} {cb : RTNode} {l : List RTNode} (h : StoredList m cb l) :
    ∃ m' t rest, Returns (fun fuel => Mem.restructResourceTree fuel m cb.id (headId l)) (m', headId rest) ∧
      Rebuilt m' cb l t rest ∧
      ∀ m₂ l₂, StoredList m₂ cb l₂ → l₂.Perm l → ∃ m₂' t₂ rest₂,
        Returns (fun fuel => Mem.restructResourceTree fuel m₂ cb.id (headId l₂)) (m₂', headId rest₂) ∧
        Rebuilt m₂' cb l₂ t₂ rest₂ ∧ rest₂.Perm rest ∧ ∀ i j, ParentOf t₂ i j ↔ ParentOf t i j := by
  obtain ⟨m', t, rest, hret, hr⟩ := h.rebuilt
  refine ⟨m', t, rest, hret, hr, fun m₂ l₂ h₂ hperm => ?_⟩
  obtain ⟨m₂', t₂, rest₂, hret₂, hr₂⟩ := h₂.rebuilt
  have hreach : ∀ x, Reaches cb l₂ x ↔ Reaches cb l x := fun x =>
    ⟨fun hx => hx.mono fun y => hperm.mem_iff.mp, fun hx => hx.mono fun y => hperm.mem_iff.mpr⟩
  refine ⟨m₂', t₂, rest₂, hret₂, hr₂, ?_, fun i j => ?_⟩
  · have hnd : ∀ {l : List RTNode}, ((cb :: l).map RTNode.id).Nodup → l.Nodup := fun hd =>
      (List.nodup_cons.mp (List.Nodup.of_map _ hd)).2
    refine (List.perm_ext_iff_of_nodup ((hnd h₂.nodup).sublist hr₂.sublist) ((hnd h.nodup).sublist hr.sublist)).mpr fun x => ?_
    constructor
    · intro hx
      have hl := hr₂.sublist.subset hx
      rw [hr.left x (hperm.mem_iff.mp hl), ← hreach, ← hr₂.left x hl]
      exact hx
    · intro hx
      have hl := hr.sublist.subset hx
      rw [hr₂.left x (hperm.mem_iff.mpr hl), hreach, ← hr.left x hl]
      exact hx
  · rw [hr.parentOf_iff h, hr₂.parentOf_iff h₂]
    unfold Owns
    simp only [hreach, List.mem_cons, hperm.mem_iff]

/-- A container and its subscription, stored in the order child before parent. -/
theorem restruct_stored_two : ∃ m cb x y, StoredList m cb [x, y] ∧ x.pi = y.ri ∧ y.pi = cb.ri ∧
    ∃ m' t rest, Returns (fun fuel => Mem.restructResourceTree fuel m cb.id (some x.id)) (m', headId rest) ∧
      Rebuilt m' cb [x, y] t rest := by
  let cb : RTNode := { id := 0, ty := .cse, rn := cseBaseName, uri := cseBaseName, obj := [(.ri, .str cseBaseRi)] }
  let x : RTNode := ⟨1, .sub, "s".toList, [], [(.ri, .str "23-2".toList), (.pi, .str "3-1".toList)], [], [], 0⟩
  let y : RTNode := ⟨2, .cnt, "c".toList, [], [(.ri, .str "3-1".toList), (.pi, .str cseBaseRi)], [], [], 0⟩
  let m : Mem := ⟨fun i => match i with
    | 0 => some { val := cb }
    | 1 => some { val := x, right := some 2 }
    | 2 => some { val := y, left := some 1 }
    | _ => none, []⟩
  have hs : StoredList m cb [x, y] := {
    base := rfl
    list := ⟨rfl, trivial, rfl, trivial, trivial⟩
    nodup := by decide
    ris := by simp only [List.forall_mem_cons]; exact ⟨rfl, rfl, rfl, by simp⟩
    pis := by simp only [List.forall_mem_cons]; exact ⟨rfl, rfl, by simp⟩
    distinct := by decide }
  obtain ⟨m', t, rest, hret, hr, -⟩ := restruct_stored hs
  exact ⟨m, cb, x, y, hs, rfl, rfl, m', t, rest, hret, hr⟩

end TinyIoT
