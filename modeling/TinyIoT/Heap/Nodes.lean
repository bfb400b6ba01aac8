/-
The resource tree as it lies in memory: nodes with pointers to their parent, their first child and their
two siblings. `add_child_resource_tree` and `free_rtnode` are modelled here pointer by pointer, with `none`
for a dereference of NULL or of freed memory and a bound on the passes of each loop; on a heap that holds
the tree of a server they end, and do to it what the server's model says.
-/
import TinyIoT.Lib.Links
import TinyIoT.Server.Tree

namespace TinyIoT

open Links

/-- The nodes in memory and `rt->csr_list`. -/
structure Mem where
  heap : Heap RTNode
  csrList : List Nat

namespace Mem

/-! ## The code -/

/-- The loop of `add_child_resource_tree`: to the last of the siblings before one of a higher type. -/
def walk (h : Heap RTNode) (ty : ResourceType) : (fuel : Nat) → Nat → Option Nat
  | 0, _ => none
  | fuel + 1, n => do
    let c ← h n
    match c.right with
    | none => some n
    | some r => do
      let d ← h r
      if d.val.ty.code ≤ ty.code then walk h ty fuel r else some n

/-- The new node `x` becomes the first child, before `n`. -/
def linkFirst (h : Heap RTNode) (p n x : Nat) : Option (Heap RTNode) := do
  let h ← h.assign p fun c => { c with child := some x }
  let h ← h.assign x fun c => { c with parent := some p }
  let h ← h.assign x fun c => { c with right := some n }
  h.assign n fun c => { c with left := some x }

/-- The new node `x` goes in after `n`. -/
def linkAfter (h : Heap RTNode) (n x : Nat) : Option (Heap RTNode) := do
  let c ← h n
  let h ← match c.right with
    | none => some h
    | some r => do
      let h ← h.assign r fun c => { c with left := some x }
      h.assign x fun c => { c with right := some r }
  let h ← h.assign n fun c => { c with right := some x }
  h.assign x fun c => { c with left := some n }

/-- The part of `add_child_resource_tree` that links the new node among the children. -/
def linkChild (fuel : Nat) (h : Heap RTNode) (p x : Nat) (ty : ResourceType) :
    (node : Option Nat) → Option (Heap RTNode)
  | none => h.assign p fun c => { c with child := some x }
  | some n => do
    let n ← walk h ty fuel n
    let c ← h n
    let parent ← h p
    if parent.child = some n ∧ ty.code < c.val.ty.code then linkFirst h p n x else linkAfter h n x

/-- `add_child_resource_tree`. -/
def addChildResourceTree (fuel : Nat) (m : Mem) (p x : Nat) : Option Mem := do
  let parent ← m.heap p
  let h ← m.heap.assign x fun c => { c with parent := some p }
  let h ← h.assign x fun c => { c with val := { c.val with uri := parent.val.uri ++ '/' :: c.val.rn } }
  let child ← h x
  let h ← linkChild fuel h p x child.val.ty parent.child
  let csrList := if child.val.ty = .csr then m.csrList ++ [x] else m.csrList
  let h ← if child.val.ty = .sub then
      h.assign p fun c => { c with val := { c.val with subs := c.val.subs ++ [x], subCnt := c.val.subCnt + 1 } }
    else some h
  return ⟨h, csrList⟩

/-- `while (rtnode->child) free_rtnode(rtnode->child)`. -/
def freeChildren (free : Heap RTNode → Nat → Option (Heap RTNode)) (n : Nat) :
    (fuel : Nat) → Heap RTNode → Option (Heap RTNode)
  | 0, _ => none
  | fuel + 1, h => do
    let c ← h n
    match c.child with
    | none => some h
    | some m => do
      let h ← free h m
      freeChildren free n fuel h

/-- The pointers of the parent and the siblings go past the node; the parent's only if it is to this node. -/
def unlink (h : Heap RTNode) (n : Nat) : Option (Heap RTNode) := do
  let c ← h n
  let h ← h.assignOpt c.parent fun d => { d with child := if d.child = some n then c.right else d.child }
  let c ← h n
  let h ← h.assignOpt c.left fun d => { d with right := c.right }
  let c ← h n
  h.assignOpt c.right fun d => { d with left := c.left }

/-- `free_rtnode`. -/
def freeRtnode : (fuel : Nat) → Heap RTNode → Nat → Option (Heap RTNode)
  | 0, _, _ => none
  | fuel + 1, h, n => do
    let h ← unlink h n
    let h ← freeChildren (freeRtnode fuel) n fuel h
    let _ ← h n
    return h.del n

/-! ## Linking a new child -/

section Link

variable {h : Heap RTNode} {par left : Option Nat} {x : RTNode}

/-- What linking after `n` leaves in memory. -/
theorem linkAfter_spec {n i : Nat} {c d : Cell RTNode} (hc : h n = some c) (hd : h i = some d) (hin : i ≠ n)
    (hr : ∀ r, c.right = some r → r ≠ n ∧ r ≠ i ∧ (h r).isSome) (hd0 : d.right = none) :
    ∃ h', linkAfter h n i = some h' ∧ h' n = some { c with right := some i } ∧
      h' i = some { d with left := some n, right := c.right } ∧
      (∀ r, c.right = some r → h' r = (h r).map fun e => { e with left := some i }) ∧
      ∀ j, j ≠ n → j ≠ i → c.right ≠ some j → h' j = h j := by
  cases hcr : c.right with
  | none =>
    have hd₁ : (h.set n { c with right := some i }) i = some d := (Heap.set_ne hin).trans hd
    refine ⟨(h.set n { c with right := some i }).set i { d with left := some n }, ?_, ?_, ?_, ?_, ?_⟩
    · simp only [linkAfter, hc, hcr, Option.bind_eq_bind, Option.bind_some, Heap.assign_eq hc, Heap.assign_eq hd₁]
    · rw [Heap.set_ne (Ne.symm hin), Heap.set_self]
    · rw [Heap.set_self, ← hd0]
    · intro r hr'
      cases hr'
    · intro j hjn hji _
      rw [Heap.set_ne hji, Heap.set_ne hjn]
  | some r =>
    obtain ⟨hrn, hri, hrs⟩ := hr r hcr
    obtain ⟨e, he⟩ := Option.isSome_iff_exists.mp hrs
    have h1 : (h.set r { e with left := some i }) i = some d := (Heap.set_ne (Ne.symm hri)).trans hd
    have h2 : ((h.set r { e with left := some i }).set i { d with right := some r }) n = some c :=
      (Heap.set_ne (Ne.symm hin)).trans ((Heap.set_ne (Ne.symm hrn)).trans hc)
    have h3 : (((h.set r { e with left := some i }).set i { d with right := some r }).set n { c with right := some i }) i =
        some { d with right := some r } := (Heap.set_ne hin).trans (Heap.set_self _ _ _)
    refine ⟨(((h.set r { e with left := some i }).set i { d with right := some r }).set n { c with right := some i }).set i
      { d with left := some n, right := some r }, ?_, ?_, ?_, ?_, ?_⟩
    · simp only [linkAfter, hc, hcr, Option.bind_eq_bind, Option.bind_some, Heap.assign_eq he, Heap.assign_eq h1,
        Heap.assign_eq h2, Heap.assign_eq h3]
    · rw [Heap.set_ne (Ne.symm hin), Heap.set_self]
    · rw [Heap.set_self]
    · rintro r' ⟨rfl⟩
      rw [Heap.set_ne hri, Heap.set_ne hrn, Heap.set_ne hri, Heap.set_self, he]
      rfl
    · intro j hjn hji hjr
      have hjr : j ≠ r := fun hj => hjr (by rw [hj])
      rw [Heap.set_ne hji, Heap.set_ne hjn, Heap.set_ne hji, Heap.set_ne hjr]

/-- Linking after the node the walk reaches. -/
theorem linkAfter_walk {a : RTNode} {c s : Forest RTNode} (hl : Linked RTNode.id h par left (.node a c s))
    (hd : (addrs RTNode.id (.node a c s)).Nodup) (hx : h x.id = some { val := x, parent := par })
    (hxt : x.id ∉ addrs RTNode.id (.node a c s)) :
    ∃ n h', (∀ fuel > s.roots.length, walk h x.ty fuel a.id = some n) ∧ n ∈ (Forest.node a c s).roots.map RTNode.id ∧
      linkAfter h n x.id = some h' ∧ Linked RTNode.id h' par left (insertAfter x (.node a c s)) ∧
      ∀ i, i ∉ addrs RTNode.id (.node a c s) → i ≠ x.id → h' i = h i := by
  induction s generalizing a c left with
  | nil =>
    obtain ⟨h1, h2, -⟩ := hl
    obtain ⟨hac, -, -, -, -⟩ := nodup_node hd
    have hxa : x.id ≠ a.id := fun he => hxt (by simp [he])
    obtain ⟨h', he, hn, hi, -, hkeep⟩ := linkAfter_spec h1 hx hxa (by rintro r ⟨⟩) rfl
    refine ⟨a.id, h', fun fuel hf => ?_, by simp [Forest.roots], he, ⟨hn, h2.congr fun i hi => hkeep i ?_ ?_ (by simp), hi,
      trivial, trivial⟩, fun i hi hix => hkeep i ?_ hix (by simp)⟩
    · obtain ⟨fuel, rfl⟩ : ∃ k, fuel = k + 1 := ⟨fuel - 1, by omega⟩
      simp [walk, h1]
    · rintro rfl
      exact hac hi
    · rintro rfl
      exact hxt (by simp [hi])
    · rintro rfl
      exact hi (by simp)
  | node b d s ihd ihs =>
    obtain ⟨h1, h2, h3⟩ := hl
    obtain ⟨hac, has, -, hds, hcs⟩ := nodup_node hd
    have hxa : x.id ≠ a.id := fun he => hxt (by simp [he])
    have hxs : x.id ∉ addrs RTNode.id (.node b d s) := fun hi => hxt (mem_addrs_sib hi)
    have hwalk : ∀ fuel, walk h x.ty (fuel + 1) a.id =
        if b.ty.code ≤ x.ty.code then walk h x.ty fuel b.id else some a.id := by
      intro fuel
      simp only [walk, h1, first_node, Option.bind_eq_bind, Option.bind_some, h3.1]
    rw [insertAfter]
    by_cases hb : b.ty.code ≤ x.ty.code
    · -- the walk goes on
      rw [if_pos hb]
      obtain ⟨n, h', hw, hn, he, hlink, hkeep⟩ := ihs h3 hds hxs
      have hw' : ∀ fuel > (Forest.node b d s).roots.length, walk h x.ty fuel a.id = some n := by
        intro fuel hf
        obtain ⟨fuel, rfl⟩ : ∃ k, fuel = k + 1 := ⟨fuel - 1, by omega⟩
        rw [hwalk, if_pos hb]
        exact hw fuel (by simp only [Forest.roots, List.length_cons] at hf; omega)
      have hc : ∀ i ∈ addrs RTNode.id c, h' i = h i := fun i hi => hkeep i (hcs i hi) fun he => hxt (by simp [← he, hi])
      refine ⟨n, h', hw', by rw [Forest.roots]; exact List.mem_cons_of_mem _ hn, he, ⟨?_, h2.congr hc, hlink⟩, fun i hi hix =>
        hkeep i (fun hi' => hi (mem_addrs_sib hi')) hix⟩
      rw [hkeep _ has (Ne.symm hxa), h1]
      cases s with
      | nil => rfl
      | node e f s =>
        simp only [insertAfter]
        split <;> rfl
    · -- here
      rw [if_neg hb]
      have hw' : ∀ fuel > (Forest.node b d s).roots.length, walk h x.ty fuel a.id = some a.id := by
        intro fuel hf
        obtain ⟨fuel, rfl⟩ : ∃ k, fuel = k + 1 := ⟨fuel - 1, by omega⟩
        rw [hwalk, if_neg hb]
      have hba : b.id ≠ a.id := fun he => has (by simp [he])
      have hbx : b.id ≠ x.id := fun he => hxs (by simp [he])
      obtain ⟨h', he, hn, hi, hr, hkeep⟩ := linkAfter_spec h1 hx hxa
        (by rintro r ⟨rfl⟩; exact ⟨hba, hbx, by rw [h3.1]; rfl⟩) rfl
      refine ⟨a.id, h', hw', by simp [Forest.roots], he, ⟨hn, h2.congr fun i hi => hkeep i ?_ ?_ ?_, hi, trivial,
        h3.relink hds (fun i hi => hr i hi) fun i hi hne => hkeep i ?_ ?_ hne⟩, fun i hi hix => hkeep i ?_ hix ?_⟩
      · rintro rfl
        exact hac hi
      · rintro rfl
        exact hxt (by simp [hi])
      · rintro ⟨rfl⟩
        exact hcs _ hi (by simp)
      · rintro rfl
        exact has hi
      · rintro rfl
        exact hxs hi
      · rintro rfl
        exact hi (by simp)
      · rintro ⟨rfl⟩
        exact hi (by simp)

/-- Where the walk from the first sibling ends tells where the new node goes. -/
theorem insertChild_walk {a : RTNode} {c s : Forest RTNode} (hl : Linked RTNode.id h par left (.node a c s))
    (hd : (addrs RTNode.id (.node a c s)).Nodup) (hx : h x.id = some { val := x, parent := par })
    (hxt : x.id ∉ addrs RTNode.id (.node a c s)) {fuel n : Nat} (hf : s.roots.length < fuel)
    (hw : walk h x.ty fuel a.id = some n) :
    insertChild x (.node a c s) = if n = a.id ∧ x.ty.code < a.ty.code then .node x .nil (.node a c s)
      else insertAfter x (.node a c s) := by
  obtain ⟨h1, -, h3⟩ := hl
  obtain ⟨fuel, rfl⟩ : ∃ k, fuel = k + 1 := ⟨fuel - 1, by omega⟩
  cases s with
  | nil =>
    have hn : n = a.id := by simpa [walk, h1, first] using hw.symm
    simp [insertChild, hn]
  | node b d s =>
    obtain ⟨-, has, -, hds, -⟩ := nodup_node hd
    have hxs : x.id ∉ addrs RTNode.id (.node b d s) := fun hi => hxt (mem_addrs_sib hi)
    simp only [walk, h1, first, Option.bind_eq_bind, Option.bind_some, h3.1] at hw
    simp only [insertChild]
    by_cases hb : b.ty.code ≤ x.ty.code
    · -- past the first sibling, so not before it
      rw [if_pos hb] at hw
      have hlen : s.roots.length < fuel := by
        simp only [Forest.roots, List.length_cons] at hf
        omega
      obtain ⟨n', h', hw', hn', -⟩ := linkAfter_walk h3 hds hx hxs
      obtain rfl := Option.some.inj (hw.symm.trans (hw' fuel hlen))
      have hna : n ≠ a.id := by
        rintro rfl
        obtain ⟨m, hm, he⟩ := List.mem_map.mp hn'
        exact has (he ▸ mem_addrs_of_mem ((Forest.roots_sublist_nodes _).subset hm))
      simp [hb, hna]
    · rw [if_neg hb] at hw
      have hn : n = a.id := (Option.some.inj hw).symm
      simp [hb, hn]

/-- What linking before the first child `n` leaves in memory. -/
theorem linkFirst_spec {p n i : Nat} {b c d : Cell RTNode} (hb : h p = some b) (hc : h n = some c) (hd : h i = some d)
    (hip : i ≠ p) (hin : i ≠ n) (hnp : n ≠ p) :
    ∃ h', linkFirst h p n i = some h' ∧ h' p = some { b with child := some i } ∧
      h' n = some { c with left := some i } ∧ h' i = some { d with parent := some p, right := some n } ∧
      ∀ j, j ≠ p → j ≠ n → j ≠ i → h' j = h j := by
  have h1 : (h.set p { b with child := some i }) i = some d := (Heap.set_ne hip).trans hd
  have h2 : ((h.set p { b with child := some i }).set i { d with parent := some p }) i = some { d with parent := some p } :=
    Heap.set_self _ _ _
  have h3 : (((h.set p { b with child := some i }).set i { d with parent := some p }).set i
      { d with parent := some p, right := some n }) n = some c := by
    rw [Heap.set_ne (Ne.symm hin), Heap.set_ne (Ne.symm hin), Heap.set_ne hnp, hc]
  refine ⟨(((h.set p { b with child := some i }).set i { d with parent := some p }).set i
    { d with parent := some p, right := some n }).set n { c with left := some i }, ?_, ?_, ?_, ?_, ?_⟩
  · simp only [linkFirst, Option.bind_eq_bind, Option.bind_some, Heap.assign_eq hb, Heap.assign_eq h1, Heap.assign_eq h2,
      Heap.assign_eq h3]
  · rw [Heap.set_ne (Ne.symm hnp), Heap.set_ne (Ne.symm hip), Heap.set_ne (Ne.symm hip), Heap.set_self]
  · rw [Heap.set_self]
  · rw [Heap.set_ne hin, Heap.set_self]
  · intro j hjp hjn hji
    rw [Heap.set_ne hjn, Heap.set_ne hji, Heap.set_ne hji, Heap.set_ne hjp]

/-- The new node among the children: what memory spells after the link. -/
theorem linkChild_spec {k : Forest RTNode} {p : Nat} {b : Cell RTNode} (hb : h p = some b)
    (hbk : b.child = first RTNode.id k) (hl : Linked RTNode.id h (some p) none k) (hd : (addrs RTNode.id k).Nodup)
    (hpk : p ∉ addrs RTNode.id k) (hx : h x.id = some { val := x, parent := some p }) (hxk : x.id ∉ addrs RTNode.id k)
    (hxp : x.id ≠ p) :
    ∃ h', (∀ fuel ≥ k.roots.length, linkChild fuel h p x.id x.ty b.child = some h') ∧
      h' p = some { b with child := first RTNode.id (insertChild x k) } ∧
      Linked RTNode.id h' (some p) none (insertChild x k) ∧
      ∀ i, i ≠ p → i ≠ x.id → i ∉ addrs RTNode.id k → h' i = h i := by
  cases k with
  | nil =>
    refine ⟨h.set p { b with child := some x.id }, fun fuel _ => ?_, Heap.set_self _ _ _,
      ⟨(Heap.set_ne hxp).trans hx, trivial, trivial⟩, fun i hi _ _ => Heap.set_ne hi⟩
    rw [hbk]
    exact Heap.assign_eq hb _
  | node a c s =>
    obtain ⟨n, h', hw, hn, he, hlink, hkeep⟩ := linkAfter_walk hl hd hx hxk
    have hns : n ∈ addrs RTNode.id (.node a c s) := by
      obtain ⟨m, hm, rfl⟩ := List.mem_map.mp hn
      exact mem_addrs_of_mem ((Forest.roots_sublist_nodes _).subset hm)
    obtain ⟨e, hcell⟩ := hl.isSome_of_mem hns
    have hcode : ∀ fuel ≥ (Forest.node a c s).roots.length, linkChild fuel h p x.id x.ty b.child =
        if some a.id = some n ∧ x.ty.code < e.val.ty.code then linkFirst h p n x.id else linkAfter h n x.id := by
      intro fuel hf
      simp only [linkChild, hbk, first_node, hw fuel hf, Option.bind_eq_bind, Option.bind_some, hcell, hb]
    have hcond : (some a.id = some n ∧ x.ty.code < e.val.ty.code) ↔ n = a.id ∧ x.ty.code < a.ty.code := by
      rw [Option.some.injEq, eq_comm]
      refine and_congr_right fun hna => ?_
      subst hna
      rw [← Option.some.inj (hl.1.symm.trans hcell)]
    rw [insertChild_walk hl hd hx hxk (Nat.lt_succ_self _) (hw _ (Nat.lt_succ_self _))]
    simp only [hcond] at hcode
    by_cases hfirst : n = a.id ∧ x.ty.code < a.ty.code
    · -- before the first child
      simp only [if_pos hfirst] at hcode ⊢
      obtain ⟨rfl, -⟩ := hfirst
      have hpa : a.id ≠ p := fun he => hpk (by simp [← he])
      have hxa : x.id ≠ a.id := fun he => hxk (by simp [he])
      obtain ⟨h', he, h1, h2, h3, hkeep⟩ := linkFirst_spec hb hcell hx hxp hxa hpa
      refine ⟨h', fun fuel hf => (hcode fuel hf).trans he, h1, ⟨h3, trivial, hl.relink hd ?_ fun i hi hne => hkeep i ?_ ?_ ?_⟩, fun i hip hix hi => hkeep i hip ?_ hix⟩
      · rintro i ⟨rfl⟩
        rw [h2, hcell]
        rfl
      · rintro rfl
        exact hpk hi
      · rintro rfl
        exact hne rfl
      · rintro rfl
        exact hxk hi
      · rintro rfl
        exact hi (by simp)
    · -- after a child; the first one stays the first
      simp only [if_neg hfirst] at hcode ⊢
      refine ⟨h', fun fuel hf => (hcode fuel hf).trans he, ?_, hlink, fun i hip hix hi => hkeep i hi hix⟩
      have hhead : first RTNode.id (insertAfter x (.node a c s)) = some a.id := by
        cases s with
        | nil => rfl
        | node b d s =>
          simp only [insertAfter]
          split <;> rfl
      rw [hkeep p hpk (Ne.symm hxp), hb, hhead]
      rw [first] at hbk
      rw [← hbk]

end Link

/-- The memory holds the tree of the server and its list of CSRs. -/
structure Holds (m : Mem) (s : Server) : Prop where
  tree : Linked RTNode.id m.heap none none s.tree
  nodup : (addrs RTNode.id s.tree).Nodup
  csrList : m.csrList = s.csrList

/-- A node that is made but not linked. -/
def Loose (m : Mem) (s : Server) (x : RTNode) : Prop :=
  (∃ q, m.heap x.id = some { val := x, parent := q }) ∧ x.id ∉ addrs RTNode.id s.tree

/-- The parent after a child came in: a subscription goes on its list. -/
def adopt (p x : RTNode) : RTNode :=
  if x.ty = .sub then { p with subs := p.subs ++ [x.id], subCnt := p.subCnt + 1 } else p

@[simp] theorem adopt_id (p x : RTNode) : (adopt p x).id = p.id := by
  unfold adopt
  split <;> rfl

@[simp] theorem adopt_ty (p x : RTNode) : (adopt p x).ty = p.ty := by
  unfold adopt
  split <;> rfl

/-- `add_child_resource_tree` changes the parent, its children and the new node. -/
theorem addChildResourceTree_spec {m : Mem} {p x : RTNode} {k : Forest RTNode} {pp pl pr q : Option Nat}
    (hp : m.heap p.id = some ⟨p, pp, first RTNode.id k, pl, pr⟩) (hk : Linked RTNode.id m.heap (some p.id) none k)
    (hd : (p.id :: addrs RTNode.id k).Nodup) (hx : m.heap x.id = some { val := x, parent := q })
    (hxk : x.id ∉ p.id :: addrs RTNode.id k) :
    ∃ m', (∀ fuel ≥ k.roots.length, m.addChildResourceTree fuel p.id x.id = some m') ∧
      m'.heap p.id = some ⟨adopt p x, pp, first RTNode.id (insertChild { x with uri := p.uri ++ '/' :: x.rn } k), pl, pr⟩ ∧
      Linked RTNode.id m'.heap (some p.id) none (insertChild { x with uri := p.uri ++ '/' :: x.rn } k) ∧
      m'.csrList = (if x.ty = .csr then m.csrList ++ [x.id] else m.csrList) ∧
      ∀ i, i ≠ x.id → i ∉ p.id :: addrs RTNode.id k → m'.heap i = m.heap i := by
  rw [List.nodup_cons] at hd
  rw [List.mem_cons, not_or] at hxk
  let x' : RTNode := { x with uri := p.uri ++ '/' :: x.rn }
  let h₂ := (m.heap.set x.id { val := x, parent := some p.id }).set x.id { val := x', parent := some p.id }
  have hstay : ∀ i, i ≠ x.id → h₂ i = m.heap i := fun i hi => (Heap.set_ne hi).trans (Heap.set_ne hi)
  obtain ⟨h₃, hlink, hpar, hl₃, hkeep⟩ := linkChild_spec (x := x') ((hstay _ (Ne.symm hxk.1)).trans hp) rfl
    (hk.congr fun i hi => hstay i fun he => hxk.2 (he ▸ hi)) hd.2 hd.1 (Heap.set_self _ _ _) hxk.2 hxk.1
  have hcode : ∀ fuel ≥ k.roots.length, m.addChildResourceTree fuel p.id x.id = (if x.ty = .sub then
      h₃.assign p.id fun c => { c with val := { c.val with subs := c.val.subs ++ [x.id], subCnt := c.val.subCnt + 1 } }
      else some h₃).bind fun h => some ⟨h, if x.ty = .csr then m.csrList ++ [x.id] else m.csrList⟩ := by
    intro fuel hf
    have h1 : (m.heap.set x.id { val := x, parent := some p.id }) x.id = some { val := x, parent := some p.id } :=
      Heap.set_self _ _ _
    have h2 : h₂ x.id = some { val := x', parent := some p.id } := Heap.set_self _ _ _
    simp only [Mem.addChildResourceTree, hp, Option.bind_eq_bind, Option.bind_some, Heap.assign_eq hx, Heap.assign_eq h1]
    show (h₂ x.id).bind _ = _
    rw [h2, Option.bind_some]
    show (linkChild fuel h₂ p.id x'.id x'.ty _).bind _ = _
    rw [hlink fuel hf, Option.bind_some]
    by_cases hsub : x.ty = .sub
    · rw [if_pos hsub, if_pos hsub]
      rfl
    · rw [if_neg hsub, if_neg hsub]
      rfl
  have hfar : ∀ i, i ≠ x.id → i ∉ p.id :: addrs RTNode.id k → h₃ i = m.heap i := by
    intro i hix hi
    rw [List.mem_cons, not_or] at hi
    exact (hkeep i hi.1 hix hi.2).trans (hstay i hix)
  by_cases hsub : x.ty = .sub
  · -- the parent's list of subscriptions grows
    simp only [if_pos hsub, Heap.assign_eq hpar, Option.bind_some] at hcode
    refine ⟨_, hcode, ?_, hl₃.congr fun i hi => Heap.set_ne ?_, rfl, fun i hix hi => ?_⟩
    · rw [adopt, if_pos hsub]
      exact Heap.set_self _ _ _
    · rintro rfl
      have hperm := (nodes_insertChild x' k).map RTNode.id
      rcases List.mem_cons.mp (hperm.mem_iff.mp hi) with he | hi
      · exact hxk.1 he.symm
      · exact hd.1 hi
    · have hip : i ≠ p.id := fun he => hi (he ▸ List.mem_cons_self)
      exact (Heap.set_ne hip).trans (hfar i hix hi)
  · simp only [if_neg hsub, Option.bind_some] at hcode
    refine ⟨_, hcode, ?_, hl₃, rfl, hfar⟩
    rw [adopt, if_neg hsub]
    exact hpar

theorem tree_addChildResourceTree (s : Server) (p x : RTNode) :
    (s.addChildResourceTree p x).tree =
      (s.tree.graft (RTNode.hasId p.id) (insertChild { x with uri := p.uri ++ '/' :: x.rn })).modify (RTNode.hasId p.id)
        fun n => adopt n x := by
  have hid : ∀ t : Forest RTNode, t.modify (RTNode.hasId p.id) (fun n => n) = t := by
    intro t
    induction t with
    | nil => rfl
    | node a c s ihc ihs => simp only [Forest.modify, ihc, ihs, ite_self]
  unfold Server.addChildResourceTree adopt
  by_cases h1 : x.ty = .csr <;> by_cases h2 : x.ty = .sub <;> simp only [h1, h2, if_true, if_false] <;>
    first | rfl | exact (hid _).symm

theorem csrList_addChildResourceTree (s : Server) (p x : RTNode) :
    (s.addChildResourceTree p x).csrList = if x.ty = .csr then s.csrList ++ [x.id] else s.csrList := by
  unfold Server.addChildResourceTree
  by_cases h1 : x.ty = .csr <;> by_cases h2 : x.ty = .sub <;> simp only [h1, h2, if_true, if_false] <;> rfl

/-- `add_child_resource_tree` in memory does what the server's model says. -/
theorem Holds.addChildResourceTree {m : Mem} {s : Server} (hm : m.Holds s) {p x : RTNode} (hp : p ∈ s.tree.nodes)
    (hx : m.Loose s x) :
    ∃ m', (∀ fuel ≥ s.tree.nodes.length, m.addChildResourceTree fuel p.id x.id = some m') ∧
      m'.Holds (s.addChildResourceTree p x) ∧ ∀ i, i ≠ x.id → i ∉ addrs RTNode.id s.tree → m'.heap i = m.heap i := by
  obtain ⟨⟨q, hxq⟩, hxs⟩ := hx
  obtain ⟨k, hk⟩ := Forest.mem_nodes_iff.mp hp
  obtain ⟨⟨pp, pl, pr, hpc⟩, hkids⟩ := hm.tree.of_cell hk
  have hsub := Forest.nodes_of_cell hk
  have hksub : ∀ i ∈ p.id :: addrs RTNode.id k, i ∈ addrs RTNode.id s.tree := fun i hi =>
    (hsub.map RTNode.id).subset hi
  have hpk : (p.id :: addrs RTNode.id k).Nodup := hm.nodup.sublist (hsub.map RTNode.id)
  have hlen : k.roots.length ≤ s.tree.nodes.length := by
    have h1 := (Forest.roots_sublist_nodes k).length_le
    have h2 := hsub.length_le
    rw [List.length_cons] at h2
    omega
  obtain ⟨m', hret, hpar, hkids', hcsr, hkeep⟩ := addChildResourceTree_spec hpc hkids hpk hxq fun hi => hxs (hksub _ hi)
  have hperm := Server.nodes_graft hm.nodup hp rfl (x := { x with uri := p.uri ++ '/' :: x.rn })
  -- the tree before the parent's own contents change
  have htree : Linked RTNode.id (m'.heap.set p.id
      ⟨p, pp, first RTNode.id (insertChild { x with uri := p.uri ++ '/' :: x.rn } k), pl, pr⟩) none none
      (s.tree.graft (RTNode.hasId p.id) (insertChild { x with uri := p.uri ++ '/' :: x.rn })) := by
    refine hm.tree.graft hm.nodup hk rfl ?_ (hkids'.congr fun i hi => Heap.set_ne ?_) fun i hi hip hik => ?_
    · rw [Heap.set_self, hpc]
      rfl
    · rintro rfl
      have hin := ((nodes_insertChild _ k).map RTNode.id).mem_iff.mp hi
      rcases List.mem_cons.mp hin with he | hin
      · exact hxs (he ▸ hksub _ List.mem_cons_self)
      · exact (List.nodup_cons.mp hpk).1 hin
    · rw [Heap.set_ne hip]
      exact hkeep i (fun he => hxs (he ▸ hi)) fun hi' => (List.mem_cons.mp hi').elim hip hik
  refine ⟨m', fun fuel hf => hret fuel (by omega), ⟨?_, ?_, ?_⟩, fun i hix hi => hkeep i hix fun hi' => hi (hksub i hi')⟩
  · rw [tree_addChildResourceTree]
    refine htree.modify (fun n => adopt_id n x) fun i _ => ?_
    by_cases hi : i = p.id
    · subst hi
      rw [if_pos rfl, Heap.set_self, hpar]
      rfl
    · rw [if_neg hi, Heap.set_ne hi]
  · rw [tree_addChildResourceTree, addrs_modify fun n => adopt_id n x]
    exact ((hperm.map RTNode.id).nodup_iff).mpr (List.nodup_cons.mpr ⟨hxs, hm.nodup⟩)
  · rw [csrList_addChildResourceTree, hcsr, hm.csrList]

/-! ## Freeing a node -/

section Free

variable {h : Heap RTNode}

theorem exists_ite_map {β : Type} {o : Option β} {q : Prop} [Decidable q] (ho : ∃ d, o = some d) (f : β → β) :
    ∃ d, (if q then o.map f else o) = some d := by
  obtain ⟨d, rfl⟩ := ho
  split
  · exact ⟨_, rfl⟩
  · exact ⟨_, rfl⟩

/-- What going past a node changes: the parent's pointer if it is to this node, and the siblings'. -/
theorem unlink_spec {n : Nat} {c : Cell RTNode} (hc : h n = some c)
    (hp : ∀ p, c.parent = some p → p ≠ n ∧ ∃ d, h p = some d) (hl : ∀ l, c.left = some l → l ≠ n ∧ ∃ d, h l = some d)
    (hr : ∀ r, c.right = some r → r ≠ n ∧ ∃ d, h r = some d) :
    ∃ h', unlink h n = some h' ∧ h' n = some c ∧ ∀ i, h' i = (h i).map fun d =>
      { d with
        child := if c.parent = some i ∧ d.child = some n then c.right else d.child
        right := if c.left = some i then c.right else d.right
        left := if c.right = some i then c.left else d.left } := by
  let h₁ : Heap RTNode := fun i => if c.parent = some i then
    (h i).map fun d => { d with child := if d.child = some n then c.right else d.child } else h i
  let h₂ : Heap RTNode := fun i => if c.left = some i then (h₁ i).map fun d => { d with right := c.right } else h₁ i
  have hn₁ : h₁ n = some c := (if_neg fun he => (hp n he).1 rfl).trans hc
  have hn₂ : h₂ n = some c := (if_neg fun he => (hl n he).1 rfl).trans hn₁
  have hone : h.assignOpt c.parent (fun d => { d with child := if d.child = some n then c.right else d.child }) = some h₁ :=
    Heap.assignOpt_eq (fun p hp' => (hp p hp').2) _
  have htwo : h₁.assignOpt c.left (fun d => { d with right := c.right }) = some h₂ :=
    Heap.assignOpt_eq (fun l hl' => exists_ite_map (hl l hl').2 _) _
  let h₃ : Heap RTNode := fun i => if c.right = some i then (h₂ i).map fun d => { d with left := c.left } else h₂ i
  have hthree : h₂.assignOpt c.right (fun d => { d with left := c.left }) = some h₃ :=
    Heap.assignOpt_eq (fun r hr' => exists_ite_map (exists_ite_map (hr r hr').2 _) _) _
  refine ⟨h₃, ?_, (if_neg fun he => (hr n he).1 rfl).trans hn₂, fun i => ?_⟩
  · unfold unlink
    simp only [hc, Option.bind_eq_bind, Option.bind_some, hone, hn₁, htwo, hn₂, hthree]
  · simp only [h₃, h₂, h₁]
    cases h i with
    | none => simp
    | some d => split_ifs <;> simp_all

/-- Freeing the children of `n` one after the other frees all that is below it. -/
theorem freeChildren_spec {k : Forest RTNode} {n : Nat} {c : Cell RTNode} (hn : h n = some c)
    (hck : c.child = first RTNode.id k) (hl : Linked RTNode.id h (some n) none k) (hd : (addrs RTNode.id k).Nodup)
    (hnk : n ∉ addrs RTNode.id k) :
    ∃ h', (∀ fuel > k.nodes.length, ∀ passes > k.roots.length, freeChildren (freeRtnode fuel) n passes h = some h') ∧
      h' n = some { c with child := none } ∧
      (∀ i ∈ addrs RTNode.id k, h' i = none) ∧ ∀ i, i ≠ n → i ∉ addrs RTNode.id k → h' i = h i := by
  induction k generalizing h n c with
  | nil =>
    refine ⟨h, fun fuel _ passes hp => ?_, ?_, by simp, fun _ _ _ => rfl⟩
    · obtain ⟨passes, rfl⟩ : ∃ j, passes = j + 1 := ⟨passes - 1, by omega⟩
      simp only [freeChildren, hn, Option.bind_eq_bind, Option.bind_some, hck, first]
    · rw [hn, ← show c.child = none from hck]
  | node b d s ihd ihs =>
    obtain ⟨h1, h2, h3⟩ := hl
    obtain ⟨hbd, hbs, hdd, hds, hdis⟩ := nodup_node hd
    have hnb : n ≠ b.id := fun he => hnk (by simp [he])
    have hnd : n ∉ addrs RTNode.id d := fun hi => hnk (mem_addrs_child hi)
    have hns : n ∉ addrs RTNode.id s := fun hi => hnk (mem_addrs_sib hi)
    -- the first child is cut off
    obtain ⟨g₁, hun, hb₁, hg₁⟩ := unlink_spec h1 (by rintro p ⟨rfl⟩; exact ⟨hnb, c, hn⟩) (by rintro l ⟨⟩)
      (fun r hr => ⟨fun he => hbs (he ▸ first_mem hr), h3.isSome_of_mem (first_mem hr)⟩)
    have hn₁ : g₁ n = some { c with child := first RTNode.id s } := by
      rw [hg₁, hn]
      have : first RTNode.id s ≠ some n := fun he => hns (first_mem he)
      simp [hck, this]
    have hstay : ∀ i, i ≠ n → first RTNode.id s ≠ some i → g₁ i = h i := by
      intro i hin his
      rw [hg₁]
      cases h i with
      | none => rfl
      | some e => simp [Ne.symm hin, his]
    -- what is below it goes, then it goes itself
    obtain ⟨g₂, hfree, hb₂, hgone₂, hkeep₂⟩ := ihd hb₁ rfl
      (h2.congr fun i hi => hstay i (fun he => hnd (he ▸ hi)) fun he => hdis i hi (first_mem he)) hdd hbd
    have hstep : ∀ fuel > d.nodes.length + 1, freeRtnode fuel h b.id = some (g₂.del b.id) := by
      intro fuel hf
      obtain ⟨fuel, rfl⟩ : ∃ j, fuel = j + 1 := ⟨fuel - 1, by omega⟩
      have hroots := (Forest.roots_sublist_nodes d).length_le
      simp only [freeRtnode, hun, Option.bind_eq_bind, Option.bind_some, hfree fuel (by omega) fuel (by omega), hb₂]
      rfl
    have hn₃ : (g₂.del b.id) n = some { c with child := first RTNode.id s } :=
      (Heap.del_ne hnb).trans ((hkeep₂ n hnb hnd).trans hn₁)
    -- the other children
    have hs₃ : Linked RTNode.id (g₂.del b.id) (some n) none s := by
      refine h3.relink hds (fun i hi => ?_) fun i hi hne => ?_
      · have his := first_mem hi
        have hib : i ≠ b.id := fun he => hbs (he ▸ his)
        have hin : n ≠ i := fun he => hns (he ▸ his)
        rw [Heap.del_ne hib, hkeep₂ i hib fun hid => hdis i hid his, hg₁]
        simp [hi, hin]
      · have hib : i ≠ b.id := fun he => hbs (he ▸ hi)
        rw [Heap.del_ne hib, hkeep₂ i hib fun hid => hdis i hid hi, hstay i (fun he => hns (he ▸ hi)) hne]
    obtain ⟨h', hrest, hn', hgone', hkeep'⟩ := ihs hn₃ rfl hs₃ hds hns
    refine ⟨h', fun fuel hf passes hp => ?_, hn', fun i hi => ?_, fun i hin hi => ?_⟩
    · obtain ⟨passes, rfl⟩ : ∃ j, passes = j + 1 := ⟨passes - 1, by omega⟩
      simp only [Forest.nodes, Forest.roots, List.length_cons, List.length_append] at hf hp
      simp only [freeChildren, hn, Option.bind_eq_bind, Option.bind_some, hck, first_node, hstep fuel (by omega),
        hrest fuel (by omega) passes (by omega)]
    · rw [addrs_node, List.mem_cons, List.mem_append] at hi
      rcases hi with rfl | hi | hi
      · rw [hkeep' _ (Ne.symm hnb) hbs, Heap.del_self]
      · have hib : i ≠ b.id := fun he => hbd (he ▸ hi)
        rw [hkeep' i (fun he => hnd (he ▸ hi)) (hdis i hi), Heap.del_ne hib, hgone₂ i hi]
      · exact hgone' i hi
    · rw [addrs_node, List.mem_cons, List.mem_append, not_or, not_or] at hi
      rw [hkeep' i hin hi.2.2, Heap.del_ne hi.1, hkeep₂ i hi.1 hi.2.1, hstay i hin fun he => hi.2.2 (first_mem he)]

end Free

/-- `free_rtnode` in memory does what the server's model says, and frees the node and what is below it. -/
theorem Holds.freeRtnode {m : Mem} {s : Server} (hm : m.Holds s) {x : RTNode} {k : Forest RTNode}
    (hx : (x, k) ∈ s.tree.cells) :
    ∃ h', (∀ fuel > s.tree.nodes.length, freeRtnode fuel m.heap x.id = some h') ∧ (⟨h', m.csrList⟩ : Mem).Holds (s.freeRtnode x.id) ∧
      (∀ i ∈ x.id :: addrs RTNode.id k, h' i = none) ∧ ∀ i ∉ addrs RTNode.id s.tree, h' i = m.heap i := by
  have hin : x.id ∈ addrs RTNode.id s.tree := mem_addrs_of_mem (Forest.mem_nodes_of_cell hx)
  obtain ⟨⟨p, l, r, hc⟩, hkids⟩ := hm.tree.of_cell hx
  have hlen := (Forest.nodes_of_cell hx).length_le
  rw [List.length_cons] at hlen
  have hroots := (Forest.roots_sublist_nodes k).length_le
  have hperm := addrs_perm_remove hm.nodup hx
  have hnd := hperm.nodup_iff.mp hm.nodup
  rw [List.nodup_cons, List.nodup_append, List.mem_append, not_or] at hnd
  obtain ⟨⟨hxk, hxr⟩, hdk, hdr, hdis⟩ := hnd
  obtain ⟨hpp, hpl, hpr⟩ := hm.tree.pointers hm.nodup hin hc
  obtain ⟨g₁, hun, hx₁, hg₁⟩ := unlink_spec hc
    (fun q hq => (hpp q hq).elim (fun h => by cases h) fun h => ⟨h.1, hm.tree.isSome_of_mem h.2⟩)
    (fun q hq => (hpl q hq).elim (fun h => by cases h) fun h => ⟨h.1, hm.tree.isSome_of_mem h.2⟩)
    (fun q hq => ⟨(hpr q hq).1, hm.tree.isSome_of_mem (hpr q hq).2⟩)
  have hred : ∀ i ∈ addrs RTNode.id s.tree, g₁ i = (m.heap i).map (redirect x.id l r) := by
    intro i hi
    obtain ⟨d, hdi⟩ := hm.tree.isSome_of_mem hi
    have := hm.tree.redirect_eq hin hc hi hdi
    rw [hg₁, hdi, Option.map_some, Option.map_some, this]
  have hk₁ : Linked RTNode.id g₁ (some x.id) none k := by
    have := hkids.redirect_of_not_mem hxk fun i hi =>
      hred i (hperm.mem_iff.mpr (List.mem_cons_of_mem _ (List.mem_append_left _ hi)))
    rwa [if_neg (by simp)] at this
  obtain ⟨g₂, hfree, hx₂, hgone, hkeep⟩ := freeChildren_spec hx₁ rfl hk₁ hdk hxk
  have hrest : ∀ i, i ≠ x.id → i ∉ addrs RTNode.id k → (g₂.del x.id) i = g₁ i := fun i hix hik =>
    (Heap.del_ne hix).trans (hkeep i hix hik)
  refine ⟨g₂.del x.id, fun fuel hf => ?_, ⟨?_, ?_, hm.csrList⟩, fun i hi => ?_, fun i hi => ?_⟩
  · obtain ⟨fuel, rfl⟩ : ∃ j, fuel = j + 1 := ⟨fuel - 1, by omega⟩
    simp only [Mem.freeRtnode, hun, Option.bind_eq_bind, Option.bind_some, hfree fuel (by omega) fuel (by omega), hx₂]
    rfl
  · refine (hm.tree.remove hm.nodup (by simp) hc hin fun i hi => ?_).1
    have hit : i ∈ addrs RTNode.id s.tree := hperm.mem_iff.mpr (List.mem_cons_of_mem _ (List.mem_append_right _ hi))
    exact (hrest i (fun he => hxr (he ▸ hi)) fun hik => hdis i hik i hi rfl).trans (hred i hit)
  · exact hdr
  · rcases List.mem_cons.mp hi with rfl | hi
    · exact Heap.del_self _ _
    · have hix : i ≠ x.id := fun he => hxk (he ▸ hi)
      exact (Heap.del_ne hix).trans (hgone i hi)
  · have hno : ∀ {q : Option Nat}, (∀ j, q = some j → j ∈ addrs RTNode.id s.tree) → q ≠ some i := fun hq he => hi (hq i he)
    rw [hperm.mem_iff, List.mem_cons, List.mem_append, not_or, not_or] at hi
    rw [hrest i hi.1 hi.2.1, hg₁]
    cases m.heap i with
    | none => rfl
    | some d =>
      have h1 : p ≠ some i := hno fun j hj => (hpp j hj).elim (fun h => by cases h) And.right
      have h2 : l ≠ some i := hno fun j hj => (hpl j hj).elim (fun h => by cases h) And.right
      have h3 : r ≠ some i := hno fun j hj => (hpr j hj).2
      simp [h1, h2, h3]

end Mem

end TinyIoT
