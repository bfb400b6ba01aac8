/-
The latest instance of a container in memory: the child named `la` is to be there exactly when an instance is
stored, and to stand for the newest one. A creation gives it the new instance, and the deletion of the cached
node fills it again from the rows; the other ways an instance goes leave it as it is.
-/
import TinyIoT.Container.Age
import TinyIoT.Container.InStep

namespace TinyIoT

/-! ## Lists -/

section

variable {α : Type} {lt : α → α → Bool} {l : List α}

theorem lastMax_of_ordered (h : l.Pairwise fun a b => lt b a = false) : lastMax lt l = l.getLast? := by
  induction l with
  | nil => rfl
  | cons a l ih =>
    obtain ⟨ha, hl⟩ := List.pairwise_cons.mp h
    unfold lastMax
    rw [ih hl]
    cases hlast : l.getLast? with
    | none =>
      rw [List.getLast?_eq_none_iff.mp hlast]
      rfl
    | some b =>
      dsimp only
      rw [ha b (List.mem_of_getLast? hlast), List.getLast?_cons, hlast]
      rfl

theorem firstMin_of_ordered (h : l.Pairwise fun a b => lt b a = false) : firstMin lt l = l.head? := by
  cases l with
  | nil => rfl
  | cons a l =>
    obtain ⟨ha, -⟩ := List.pairwise_cons.mp h
    unfold firstMin
    cases hmin : firstMin lt l with
    | none => rfl
    | some b =>
      dsimp only
      rw [ha b (firstMin_mem hmin)]
      rfl

theorem getLast?_filter_of_last {p : α → Bool} (h : ∀ a ∈ l.getLast?, p a = true) :
    (l.filter p).getLast? = l.getLast? := by
  cases hlast : l.getLast? with
  | none =>
    rw [List.getLast?_eq_none_iff.mp hlast]
    rfl
  | some a =>
    obtain ⟨k, rfl⟩ := List.getLast?_eq_some_iff.mp hlast
    have ha := h a hlast
    rw [List.filter_append, List.filter_cons_of_pos ha, List.filter_nil, List.getLast?_concat]

theorem find?_filter_of_imp {p q : α → Bool} (h : ∀ a ∈ l, q a = true → p a = true) : (l.filter p).find? q = l.find? q := by
  rw [← List.head?_filter, ← List.head?_filter, List.filter_filter]
  congr 1
  refine List.filter_congr fun a ha => ?_
  cases hq : q a with
  | false => exact Bool.false_and _
  | true => rw [h a ha hq, Bool.and_self]

/-- The only element of a kind is found wherever it stands. -/
theorem find?_perm {l' : List α} {p : α → Bool} (h : l.Perm l') (hone : l.countP p ≤ 1) : l'.find? p = l.find? p := by
  rw [← List.head?_filter, ← List.head?_filter]
  have hp := h.filter p
  rw [List.countP_eq_length_filter] at hone
  cases hl : l.filter p with
  | nil =>
    rw [hl] at hp
    rw [hp.nil_eq]
  | cons a k =>
    rw [hl, List.length_cons] at hone
    obtain rfl : k = [] := List.eq_nil_of_length_eq_zero (by omega)
    rw [hl] at hp
    rw [List.perm_singleton.mp hp.symm]

end

/-! ## What the cache is for -/

/-- The DELETE statement for a node meets a row. -/
def RTNode.hits (n : RTNode) (r : Row) : Bool := n.ri.any fun ri => Db.deleteMatches n.uri ri r

theorem dbDelete_eq_filter {db : Db} (n : RTNode) : db.dbDeleteOnem2mResource n = db.filter fun r => !n.hits r := by
  unfold Db.dbDeleteOnem2mResource RTNode.hits
  cases n.ri with
  | none => exact (List.filter_eq_self.mpr fun _ _ => rfl).symm
  | some ri => rfl

/-- A node stands for a row: it has its identifier and the attributes the row keeps. -/
structure Shows (m : RTNode) (r : Row) : Prop where
  ri : m.ri = r.ri
  attrs : ∀ k ∉ rewritten, r.obj.get k = (m.obj.get k).bind column

namespace Server

variable (s : Server)

/-- The content instances. -/
def cins : List Row := s.db.filter fun r => r.ty = .cin

/-- The child `la` of a container. -/
def latestChild (c : RTNode) : Option RTNode := (s.children c.id).roots.find? fun m => m.rn = "la".toList

/-- The content instance of a container that was stored last. -/
def newest (c : RTNode) : Option Row := (s.storedCins c).getLast?

/-- Every container has a child `la` exactly when it has a stored instance, and that child stands for the newest. -/
def LatestServed : Prop :=
  ∀ c ∈ s.tree.nodes, c.ty = .cnt → ((s.latestChild c).isSome ↔ s.storedCins c ≠ []) ∧
    ∀ m ∈ s.latestChild c, ∃ r ∈ s.newest c, Shows m r

end Server

/-- A row of an instance: it has an identifier and a name, no counter of a container, and only values a column gives
back. -/
structure Row.Instance (r : Row) : Prop where
  ri : r.ri ≠ none
  rn : r.obj.str .rn ≠ none
  bare : r.obj.get .cni = none
  column : ∀ k, (r.obj.get k).bind column = r.obj.get k

/-- An instance that comes after another has its own identifier and no earlier `lt`. -/
def Row.Before (q r : Row) : Prop := rowLt .lt r q = false ∧ r.ri ≠ q.ri

/-- The caches agree with the rows, but for the container `e`, which a request is at work on. -/
structure Recent (e : Option Nat) (s : Server) : Prop where
  shape : Shape s
  home : ∀ c k, (c, k) ∈ s.tree.cells → ∀ m ∈ k.roots, m.ty = .cin → c.ty = .cnt
  keyed : ∀ c ∈ s.tree.nodes, c.ty = .cnt → ∃ ri, c.obj.get .ri = some (.str ri) ∧ ri ≠ []
  single : ∀ c ∈ s.tree.nodes, ∀ d ∈ s.tree.nodes, c.ty = .cnt → d.ty = .cnt → c.ri = d.ri → c.id = d.id
  apart : ∀ r ∈ s.db, r.ty = .cin → ∀ n ∈ s.tree.nodes, n.ty ≠ .cin → r.ri ≠ n.ri
  bare : ∀ n ∈ s.tree.nodes, n.ty = .cin → n.obj.get .cni = none
  rows : ∀ r ∈ s.db, r.ty = .cin → r.Instance
  ordered : ∀ c ∈ s.tree.nodes, c.ty = .cnt → (s.storedCins c).Pairwise Row.Before
  latest : ∀ c ∈ s.tree.nodes, c.ty = .cnt → e ≠ some c.id → Option.Rel Shows (s.latestChild c) (s.newest c)

section

variable {s s' : Server} {e : Option Nat} {c n : RTNode} {o : Obj}

theorem storedCins_eq (s : Server) (c : RTNode) : s.storedCins c = s.cins.filter fun r => r.pi = c.ri := by
  unfold Server.storedCins Server.cins
  rw [List.filter_filter]
  exact List.filter_congr fun r _ => Bool.and_comm _ _

theorem mem_cins {r : Row} : r ∈ s.cins ↔ r ∈ s.db ∧ r.ty = .cin := by
  unfold Server.cins
  rw [List.mem_filter, decide_eq_true_eq]

theorem Recent.latestServed (h : Recent none s) : s.LatestServed := by
  intro c hc hty
  have hrel := h.latest c hc hty nofun
  have hne : s.storedCins c ≠ [] ↔ (s.newest c).isSome := by
    unfold Server.newest
    rw [Option.isSome_iff_ne_none, Ne, Ne, List.getLast?_eq_none_iff]
  rw [hne]
  cases hl : s.latestChild c with
  | none =>
    rw [hl] at hrel
    cases hn : s.newest c with
    | none => exact ⟨Iff.rfl, fun m hm => by cases hm⟩
    | some r =>
      rw [hn] at hrel
      cases hrel
  | some m =>
    rw [hl] at hrel
    cases hn : s.newest c with
    | none =>
      rw [hn] at hrel
      cases hrel
    | some r =>
      rw [hn] at hrel
      cases hrel with
      | some hshow => exact ⟨Iff.rfl, fun m' hm' => by cases hm'; exact ⟨r, rfl, hshow⟩⟩

/-! ## The child named `la` -/

/-- The child `la` is an instance of the tree. -/
theorem latestChild_mem (h : Shape s) {m : RTNode} (hm : s.latestChild c = some m) :
    m ∈ s.tree.nodes ∧ m.ty = .cin ∧ m ∈ (s.children c.id).roots := by
  have hroot := List.mem_of_find?_eq_some hm
  have hmem := Server.mem_of_mem_children hroot
  have hrn := List.find?_some hm
  exact ⟨hmem, (h.named m hmem).mpr (of_decide_eq_true hrn), hroot⟩

theorem latestChild_setObj (s : Server) (i : Nat) (o : Obj) (c : RTNode) :
    (s.setObj i o).latestChild c = (s.latestChild c).map fun m => if m.id = i then { m with obj := o } else m := by
  unfold Server.latestChild Server.setObj
  rw [Server.children_modifyNode (by intro n; rfl), Forest.roots_modify, List.find?_map]
  have hp : ((fun m : RTNode => decide (m.rn = "la".toList)) ∘ fun a : RTNode =>
      if RTNode.hasId i a = true then { a with obj := o } else a) = fun m => decide (m.rn = "la".toList) := by
    funext m
    dsimp only [Function.comp]
    split <;> rfl
  rw [hp]
  congr 1
  funext m
  simp only [hasId_iff]

/-- A write to a node that is no instance leaves the children `la` alone. -/
theorem latestChild_write (h : Shape s) (hn : n ∈ s.tree.nodes) (hty : n.ty ≠ .cin) :
    (s.setObj n.id o).latestChild c = s.latestChild c := by
  rw [latestChild_setObj]
  cases hl : s.latestChild c with
  | none => rfl
  | some m =>
    obtain ⟨hm, hmty, -⟩ := latestChild_mem h hl
    rw [Option.map_some, if_neg fun hid => hty (h.ids.eq hm hn hid ▸ hmty)]

theorem latestChild_congr (ht : s'.tree = s.tree) : s'.latestChild c = s.latestChild c := by
  unfold Server.latestChild Server.children
  rw [ht]

/-- A node that is freed is no instance below the container. -/
theorem latestChild_free (h : Shape s) {i : Nat} (hc : c ∈ (s.freeRtnode i).tree.nodes)
    (hne : ∀ m ∈ (s.children c.id).roots, m.ty = .cin → m.id ≠ i) :
    (s.freeRtnode i).latestChild c = s.latestChild c := by
  unfold Server.latestChild
  rw [Server.children_freeRtnode h.ids hc]
  refine find?_filter_of_imp fun m hm hrn => ?_
  have hty := (h.named m (Server.mem_of_mem_children hm)).mpr (of_decide_eq_true hrn)
  exact decide_eq_true (hne m hm hty)

/-- An instance is below one container only. -/
theorem eq_of_shared_child (hs : s.NodupIds) {d m m' : RTNode} (hc : c ∈ s.tree.nodes) (hd : d ∈ s.tree.nodes)
    (hm : m ∈ (s.children c.id).roots) (hm' : m' ∈ (s.children d.id).roots) (hid : m.id = m'.id) : c = d := by
  obtain ⟨k, hk⟩ := Forest.mem_nodes_iff.mp hc
  obtain ⟨l, hl⟩ := Forest.mem_nodes_iff.mp hd
  rw [Server.children_eq hs hk] at hm
  rw [Server.children_eq hs hl] at hm'
  exact congrArg Prod.fst (Forest.cell_of_child hs hk hl hm hm' hid)

/-- The children of a container have one instance at most. -/
theorem countP_la (h : Shape s) (hc : c ∈ s.tree.nodes) :
    (s.children c.id).roots.countP (fun m => m.rn = "la".toList) ≤ 1 := by
  obtain ⟨k, hk⟩ := Forest.mem_nodes_iff.mp hc
  have hone := h.single c k hk
  rw [Server.children_eq h.ids hk]
  refine (List.countP_congr fun m hm => ?_).trans_le hone
  have := h.named m (Forest.roots_of_cell hk hm)
  simp only [decide_eq_true_eq]
  exact this.symm

/-! ## What a request may change -/

theorem newest_eq (hcins : s'.cins = s.cins) {d : RTNode} (hri : d.ri = c.ri) : s'.newest d = s.newest c := by
  unfold Server.newest
  rw [storedCins_eq, storedCins_eq, hcins, hri]

namespace Recent

/-- Less is left out. -/
theorem but (h : Recent none s) (e : Option Nat) : Recent e s :=
  ⟨h.shape, h.home, h.keyed, h.single, h.apart, h.bare, h.rows, h.ordered, fun c hc hty _ => h.latest c hc hty nofun⟩

/-- The container that was left out has its instance again. -/
theorem all {i : Nat} (h : Recent (some i) s)
    (hi : ∀ c ∈ s.tree.nodes, c.ty = .cnt → c.id = i → Option.Rel Shows (s.latestChild c) (s.newest c)) : Recent none s := by
  refine ⟨h.shape, h.home, h.keyed, h.single, h.apart, h.bare, h.rows, h.ordered, fun c hc hty _ => ?_⟩
  by_cases hid : c.id = i
  · exact hi c hc hty hid
  · exact h.latest c hc hty fun he => hid (Option.some.inj he).symm

/-- No new node and no new row. -/
theorem carry (h : Recent e s) (hs : Shape s')
    (hcells : ∀ c k, (c, k) ∈ s'.tree.cells → ∃ c₀ k₀, (c₀, k₀) ∈ s.tree.cells ∧ c₀.ty = c.ty ∧
      ∀ m ∈ k.roots, ∃ m₀ ∈ k₀.roots, m₀.ty = m.ty)
    (hnodes : ∀ m ∈ s'.tree.nodes, ∃ n ∈ s.tree.nodes, n.id = m.id ∧ n.ty = m.ty ∧
      (m.ty ≠ .cin → m.obj.get .ri = n.obj.get .ri) ∧ (m.ty = .cin → m.obj.get .cni = none))
    (hdb : s'.cins.Sublist s.cins)
    (hlatest : ∀ c ∈ s'.tree.nodes, c.ty = .cnt → e ≠ some c.id → Option.Rel Shows (s'.latestChild c) (s'.newest c)) :
    Recent e s' := by
  have hrow : ∀ r ∈ s'.db, r.ty = .cin → r ∈ s.db := fun r hr hty => (mem_cins.mp (hdb.subset (mem_cins.mpr ⟨hr, hty⟩))).1
  have hri : ∀ {m n : RTNode}, m.obj.get .ri = n.obj.get .ri → m.ri = n.ri := fun h => Obj.str_congr h
  have hcnt : ∀ {m : RTNode}, m.ty = .cnt → m.ty ≠ .cin := fun h h' => by
    rw [h] at h'
    cases h'
  refine ⟨hs, ?_, ?_, ?_, ?_, ?_, fun r hr hty => h.rows r (hrow r hr hty) hty, ?_, hlatest⟩
  · intro c k hk m hm hty
    obtain ⟨c₀, k₀, hk₀, hc, hm₀⟩ := hcells c k hk
    obtain ⟨m₀, hm₀, hty₀⟩ := hm₀ m hm
    exact hc ▸ h.home c₀ k₀ hk₀ m₀ hm₀ (hty₀.trans hty)
  · intro c hc hty
    obtain ⟨n, hn, -, hty₀, hget, -⟩ := hnodes c hc
    rw [hget (hcnt hty)]
    exact h.keyed n hn (hty₀.trans hty)
  · intro c hc d hd hty hty' heq
    obtain ⟨n, hn, hid, hty₀, hget, -⟩ := hnodes c hc
    obtain ⟨n', hn', hid', hty₀', hget', -⟩ := hnodes d hd
    rw [← hid, ← hid']
    refine h.single n hn n' hn' (hty₀.trans hty) (hty₀'.trans hty') ?_
    rw [← hri (hget (hcnt hty)), ← hri (hget' (hcnt hty')), heq]
  · intro r hr hty m hm hmty
    obtain ⟨n, hn, -, hty₀, hget, -⟩ := hnodes m hm
    rw [hri (hget hmty)]
    exact h.apart r (hrow r hr hty) hty n hn (hty₀ ▸ hmty)
  · intro m hm hty
    obtain ⟨-, -, -, -, -, hbare⟩ := hnodes m hm
    exact hbare hty
  · intro c hc hty
    obtain ⟨n, hn, -, hty₀, hget, -⟩ := hnodes c hc
    have hord := h.ordered n hn (hty₀.trans hty)
    rw [storedCins_eq] at hord ⊢
    rw [hri (hget (hcnt hty))]
    exact hord.sublist (hdb.filter _)

/-- A write to a node that is no instance and keeps its identifier. -/
theorem write (h : Recent e s) (hn : n ∈ s.tree.nodes) (hty : n.ty ≠ .cin) (hri : o.get .ri = n.obj.get .ri)
    (ht : s'.tree = (s.setObj n.id o).tree) (hdb : s'.cins = s.cins) (hid : s'.nextId = s.nextId) : Recent e s' := by
  have hs : Shape s' := h.shape.modify (f := fun m => { m with obj := o }) ht (fun m _ _ => ⟨rfl, rfl, rfl, rfl⟩) hid
  have hnodes : ∀ m ∈ s'.tree.nodes, m = { n with obj := o } ∨ m ∈ s.tree.nodes ∧ m ≠ n := by
    intro m hm
    rw [ht] at hm
    exact Server.mem_nodes_setObj h.shape.ids hn hm
  refine h.carry hs ?_ ?_ (by rw [hdb]) ?_
  · intro c k hk
    rw [ht, Server.setObj, Server.cells_modifyNode] at hk
    obtain ⟨⟨c₀, k₀⟩, hk₀, heq⟩ := List.mem_map.mp hk
    cases heq
    refine ⟨c₀, k₀, hk₀, by dsimp only; split <;> rfl, fun m hm => ?_⟩
    dsimp only at hm
    rw [Forest.roots_modify] at hm
    obtain ⟨m₀, hm₀, rfl⟩ := List.mem_map.mp hm
    exact ⟨m₀, hm₀, by split <;> rfl⟩
  · intro m hm
    rcases hnodes m hm with rfl | ⟨hm, -⟩
    · exact ⟨n, hn, rfl, rfl, fun _ => hri, fun hcin => absurd hcin hty⟩
    · exact ⟨m, hm, rfl, rfl, fun _ => rfl, h.bare m hm⟩
  · intro c hc hcty he
    have hl : s'.latestChild c = s.latestChild c := (latestChild_congr ht).trans (latestChild_write h.shape hn hty)
    rw [hl]
    rcases hnodes c hc with rfl | ⟨hc, -⟩
    · rw [newest_eq hdb (c := n) (Obj.str_congr hri)]
      exact h.latest n hn hcty he
    · rw [newest_eq hdb rfl]
      exact h.latest c hc hcty he

/-- Rows that go leave the newest instance of every container. -/
theorem dropRows {p : Row → Bool} (h : Recent e s) (ht : s'.tree = s.tree) (hdb : s'.db = s.db.filter p)
    (hid : s'.nextId = s.nextId)
    (hp : ∀ c ∈ s.tree.nodes, c.ty = .cnt → e ≠ some c.id → ∀ r ∈ s.newest c, p r = true) : Recent e s' := by
  have hcins : s'.cins = s.cins.filter p := by
    unfold Server.cins
    rw [hdb, List.filter_filter, List.filter_filter]
    exact List.filter_congr fun r _ => Bool.and_comm _ _
  refine h.carry (h.shape.congr ht (by rw [hid])) ?_ ?_ (by rw [hcins]; exact List.filter_sublist) ?_
  · rw [ht]
    exact fun c k hk => ⟨c, k, hk, rfl, fun m hm => ⟨m, hm, rfl⟩⟩
  · rw [ht]
    exact fun m hm => ⟨m, hm, rfl, rfl, fun _ => rfl, h.bare m hm⟩
  · rw [ht]
    intro c hc hty he
    have hstored : s'.storedCins c = (s.storedCins c).filter p := by
      rw [storedCins_eq, storedCins_eq, hcins, List.filter_filter, List.filter_filter]
      exact List.filter_congr fun r _ => Bool.and_comm _ _
    have hnew : s'.newest c = s.newest c := by
      unfold Server.newest
      rw [hstored]
      exact getLast?_filter_of_last (hp c hc hty he)
    rw [latestChild_congr ht, hnew]
    exact h.latest c hc hty he

/-- A node that is freed is no instance of the containers that count. -/
theorem free (h : Recent e s) (i : Nat)
    (hne : ∀ c ∈ s.tree.nodes, c.ty = .cnt → e ≠ some c.id → ∀ m ∈ (s.children c.id).roots, m.ty = .cin → m.id ≠ i) :
    Recent e (s.freeRtnode i) := by
  have hsub : ∀ m ∈ (s.freeRtnode i).tree.nodes, m ∈ s.tree.nodes := (Forest.nodes_remove_sublist _ _).subset
  refine h.carry (h.shape.remove rfl rfl) ?_ ?_ (List.Sublist.refl _) ?_
  · intro c k hk
    obtain ⟨k₀, hk₀, rfl, -⟩ := Forest.mem_cells_remove hk
    refine ⟨c, k₀, hk₀, rfl, fun m hm => ⟨m, ?_, rfl⟩⟩
    rw [Forest.roots_remove] at hm
    exact List.mem_of_mem_filter hm
  · exact fun m hm => ⟨m, hsub m hm, rfl, rfl, fun _ => rfl, h.bare m (hsub m hm)⟩
  · intro c hc hty he
    rw [latestChild_free h.shape hc (hne c (hsub c hc) hty he)]
    exact h.latest c (hsub c hc) hty he

/-- The instance of the container at work takes another object. -/
theorem recache {m : RTNode} (h : Recent (some c.id) s) (hc : c ∈ s.tree.nodes) (hm : m ∈ (s.children c.id).roots)
    (hty : m.ty = .cin) (ho : o.get .cni = none) : Recent (some c.id) (s.setObj m.id o) := by
  have hmem := Server.mem_of_mem_children hm
  refine h.carry (h.shape.modify (f := fun m => { m with obj := o }) rfl (fun _ _ _ => ⟨rfl, rfl, rfl, rfl⟩) rfl)
    ?_ ?_ (List.Sublist.refl _) ?_
  · intro d k hk
    rw [Server.setObj, Server.cells_modifyNode] at hk
    obtain ⟨⟨d₀, k₀⟩, hk₀, heq⟩ := List.mem_map.mp hk
    cases heq
    refine ⟨d₀, k₀, hk₀, by dsimp only; split <;> rfl, fun x hx => ?_⟩
    dsimp only at hx
    rw [Forest.roots_modify] at hx
    obtain ⟨x₀, hx₀, rfl⟩ := List.mem_map.mp hx
    exact ⟨x₀, hx₀, by split <;> rfl⟩
  · intro x hx
    rcases Server.mem_nodes_setObj h.shape.ids hmem hx with rfl | ⟨hx, -⟩
    · exact ⟨m, hmem, rfl, rfl, fun hne => absurd hty hne, fun _ => ho⟩
    · exact ⟨x, hx, rfl, rfl, fun _ => rfl, h.bare x hx⟩
  · intro d hd hdty he
    have hd' : d ∈ s.tree.nodes := by
      rcases Server.mem_nodes_setObj h.shape.ids hmem hd with rfl | ⟨hd, -⟩
      · rw [hty] at hdty
        cases hdty
      · exact hd
    have hl : (s.setObj m.id o).latestChild d = s.latestChild d := by
      rw [latestChild_setObj]
      cases hla : s.latestChild d with
      | none => rfl
      | some la =>
        obtain ⟨-, -, hroot⟩ := latestChild_mem h.shape hla
        have hne : la.id ≠ m.id := fun hid =>
          he (congrArg (fun x : RTNode => some x.id) (eq_of_shared_child h.shape.ids hd' hc hroot hm hid)).symm
        rw [Option.map_some, if_neg hne]
    rw [hl]
    exact h.latest d hd' hdty he

/-- A new row of the container at work, not before the others. -/
theorem snoc {r : Row} (h : Recent (some c.id) s) (hc : c ∈ s.tree.nodes) (hty : c.ty = .cnt) (hrty : r.ty = .cin)
    (hpi : r.pi = c.ri) (hr : r.Instance) (hnew : ∀ n ∈ s.tree.nodes, n.ri ≠ r.ri)
    (hlast : ∀ q ∈ s.storedCins c, q.Before r) (ht : s'.tree = s.tree) (hdb : s'.db = s.db ++ [r])
    (hid : s.nextId ≤ s'.nextId) : Recent (some c.id) s' := by
  have hcins : s'.cins = s.cins ++ [r] := by
    unfold Server.cins
    rw [hdb, List.filter_append, List.filter_cons_of_pos (by simpa using hrty)]
    rfl
  -- the containers have different identifiers, so the row is one of `c` only
  have hstored : ∀ d ∈ s.tree.nodes, d.ty = .cnt →
      (d = c ∧ s'.storedCins d = s.storedCins d ++ [r]) ∨ (d.id ≠ c.id ∧ s'.storedCins d = s.storedCins d) := by
    intro d hd hdty
    rw [storedCins_eq, storedCins_eq, hcins, List.filter_append]
    by_cases hid : d.id = c.id
    · obtain rfl := h.shape.ids.eq hd hc hid
      rw [List.filter_cons_of_pos (by simpa using hpi)]
      exact .inl ⟨rfl, rfl⟩
    · refine .inr ⟨hid, ?_⟩
      have hne : r.pi ≠ d.ri := by
        rw [hpi]
        exact fun hri => hid (h.single c hc d hd hty hdty hri).symm
      rw [List.filter_cons_of_neg (by simpa using hne), List.filter_nil, List.append_nil]
  have hmem : ∀ q ∈ s'.db, q = r ∨ q ∈ s.db := by
    intro q hq
    rw [hdb] at hq
    rcases List.mem_append.mp hq with hq | hq
    · exact .inr hq
    · exact .inl (List.mem_singleton.mp hq)
  refine ⟨h.shape.congr ht hid, by rw [ht]; exact h.home, by rw [ht]; exact h.keyed, by rw [ht]; exact h.single, ?_,
    by rw [ht]; exact h.bare, ?_, ?_, ?_⟩
  · rw [ht]
    intro q hq hqty n hn hnty
    rcases hmem q hq with rfl | hq
    · exact (hnew n hn).symm
    · exact h.apart q hq hqty n hn hnty
  · intro q hq hqty
    rcases hmem q hq with rfl | hq
    · exact hr
    · exact h.rows q hq hqty
  · rw [ht]
    intro d hd hdty
    rcases hstored d hd hdty with ⟨rfl, heq⟩ | ⟨-, heq⟩
    · rw [heq, List.pairwise_append]
      refine ⟨h.ordered d hd hdty, List.pairwise_singleton _ _, fun q hq x hx => ?_⟩
      rw [List.mem_singleton.mp hx]
      exact hlast q hq
    · rw [heq]
      exact h.ordered d hd hdty
  · rw [ht]
    intro d hd hdty he
    rcases hstored d hd hdty with ⟨rfl, -⟩ | ⟨-, heq⟩
    · exact absurd rfl he
    · unfold Server.newest
      rw [latestChild_congr ht, heq]
      exact h.latest d hd hdty he

/-- A new container, with no instance. -/
theorem graftCnt {p x : RTNode} {ri : CStr} (h : Recent e s) (hp : p ∈ s.tree.nodes) (hcin : p.ty ≠ .cin)
    (hid : x.id = s.nextId) (hty : x.ty = .cnt) (hsubs : x.subs = []) (hrn : x.rn ≠ "la".toList)
    (hri : x.obj.get .ri = some (.str ri)) (hri0 : ri ≠ []) (hnew : Unused s ri)
    (ht : s'.tree = s.tree.graft (RTNode.hasId p.id) (insertChild x)) (hdb : s'.cins = s.cins)
    (hnext : s'.nextId = s.nextId + 1) : Recent e s' := by
  obtain ⟨k, hk⟩ := Forest.mem_nodes_iff.mp hp
  have hfresh : ∀ n ∈ s.tree.nodes, n.id ≠ x.id := fun n hn => by
    rw [hid]
    exact Nat.ne_of_lt (h.shape.below n hn)
  have hxri : x.ri = some ri := Obj.str_of_get hri
  have hnocin : x.ty ≠ .cin := by rw [hty]; decide
  have hshape : Shape s' := h.shape.insert hk hcin hid hsubs (by rw [hty]; decide)
    ⟨fun hx => absurd hx hnocin, fun hx => absurd hx hrn⟩ (fun hx => absurd hx hnocin) ht hnext
  obtain ⟨-, hxk, hchildren⟩ := Server.children_graft h.shape.ids hp hfresh ht
  have hperm := Server.nodes_graft (x := x) h.shape.ids hp rfl
  rw [← ht] at hperm
  have hmem : ∀ n ∈ s'.tree.nodes, n = x ∨ n ∈ s.tree.nodes := fun n hn => by simpa using hperm.subset hn
  have hrows : ∀ {r : Row}, r ∈ s'.db → r.ty = .cin → r ∈ s.db := fun hr hrty =>
    (mem_cins.mp (hdb ▸ mem_cins.mpr ⟨hr, hrty⟩)).1
  have hxstored : s'.storedCins x = [] := by
    rw [storedCins_eq, hdb, List.filter_eq_nil_iff]
    intro r hr
    rw [decide_eq_true_eq, hxri]
    exact (hnew.2 r (mem_cins.mp hr).1).2
  -- the children `la` are where they were
  have hlatest : ∀ c ∈ s.tree.nodes, s'.latestChild c = s.latestChild c := by
    intro c hc
    unfold Server.latestChild
    rcases (hchildren c hc).2 with ⟨-, heq⟩ | ⟨rfl, l, hl, heq⟩
    · rw [heq]
    · rw [heq, ← hl]
      have hroots := roots_insertChild x l
      have hcount : (x :: l.roots).countP (fun m => decide (m.rn = "la".toList)) ≤ 1 := by
        rw [List.countP_cons_of_neg (by rw [decide_eq_true_eq]; exact hrn), hl]
        exact countP_la h.shape hc
      rw [find?_perm hroots.symm hcount, List.find?_cons, decide_eq_false hrn]
  refine ⟨hshape, ?_, ?_, ?_, ?_, ?_, fun r hr hrty => h.rows r (hrows hr hrty) hrty, ?_, ?_⟩
  · intro c l hl m hm hmty
    have hc := Forest.mem_nodes_of_cell hl
    rcases hmem c hc with rfl | hc
    · rw [← Server.children_eq hshape.ids hl, hxk] at hm
      cases hm
    · rw [← Server.children_eq hshape.ids hl] at hm
      obtain ⟨l₀, hl₀⟩ := Forest.mem_nodes_iff.mp hc
      rcases (hchildren c hc).2 with ⟨-, heq⟩ | ⟨rfl, l₁, hl₁, heq⟩
      · rw [heq, Server.children_eq h.shape.ids hl₀] at hm
        exact h.home c l₀ hl₀ m hm hmty
      · rw [heq] at hm
        rcases List.mem_cons.mp ((roots_insertChild x l₁).subset hm) with rfl | hm
        · rw [hty] at hmty
          cases hmty
        · rw [hl₁, Server.children_eq h.shape.ids hl₀] at hm
          exact h.home c l₀ hl₀ m hm hmty
  · intro c hc hcty
    rcases hmem c hc with rfl | hc
    · exact ⟨ri, hri, hri0⟩
    · exact h.keyed c hc hcty
  · intro c hc d hd hcty hdty heq
    rcases hmem c hc with rfl | hc <;> rcases hmem d hd with rfl | hd
    · rfl
    · exact absurd (heq.symm.trans hxri) (hnew.1 d hd)
    · exact absurd (heq.trans hxri) (hnew.1 c hc)
    · exact h.single c hc d hd hcty hdty heq
  · intro r hr hrty n hn hnty
    rcases hmem n hn with rfl | hn
    · rw [hxri]
      exact (hnew.2 r (hrows hr hrty)).1
    · exact h.apart r (hrows hr hrty) hrty n hn hnty
  · intro n hn hnty
    rcases hmem n hn with rfl | hn
    · rw [hty] at hnty
      cases hnty
    · exact h.bare n hn hnty
  · intro c hc hcty
    rcases hmem c hc with rfl | hc
    · rw [hxstored]
      exact List.Pairwise.nil
    · rw [storedCins_eq, hdb, ← storedCins_eq]
      exact h.ordered c hc hcty
  · intro c hc hcty he
    rcases hmem c hc with rfl | hc
    · have hnone : s'.latestChild c = none := by
        unfold Server.latestChild
        rw [hxk]
        rfl
      have hnil : s'.newest c = none := by
        unfold Server.newest
        rw [hxstored]
        rfl
      rw [hnone, hnil]
      exact .none
    · rw [hlatest c hc, newest_eq hdb rfl]
      exact h.latest c hc hcty he

/-- The first instance of the container at work comes into memory. -/
theorem graftLa {x : RTNode} (h : Recent (some c.id) s) (hc : c ∈ s.tree.nodes) (hcty : c.ty = .cnt)
    (hid : x.id = s.nextId) (hty : x.ty = .cin) (hsubs : x.subs = []) (hrn : x.rn = "la".toList)
    (hbare : x.obj.get .cni = none) (hnone : ∀ m ∈ (s.children c.id).roots, m.rn ≠ "la".toList)
    (ht : s'.tree = s.tree.graft (RTNode.hasId c.id) (insertChild x)) (hdb : s'.db = s.db)
    (hnext : s'.nextId = s.nextId + 1) : Recent (some c.id) s' ∧ c ∈ s'.tree.nodes ∧ s'.latestChild c = some x := by
  obtain ⟨k, hk⟩ := Forest.mem_nodes_iff.mp hc
  have hfresh : ∀ n ∈ s.tree.nodes, n.id ≠ x.id := fun n hn => by
    rw [hid]
    exact Nat.ne_of_lt (h.shape.below n hn)
  have hkids := Server.children_eq h.shape.ids hk
  have hzero : (s.children c.id).roots.countP (fun m => decide (m.rn = "la".toList)) = 0 := by
    rw [List.countP_eq_zero]
    exact fun m hm hrn => hnone m hm (of_decide_eq_true hrn)
  have hshape : Shape s' := by
    refine h.shape.insert hk (by rw [hcty]; decide) hid hsubs (by rw [hty]; decide) ⟨fun _ => hrn, fun _ => hty⟩
      (fun _ => ?_) ht hnext
    rw [List.countP_eq_zero]
    intro m hm hmty
    rw [← hkids] at hm
    exact hnone m hm ((h.shape.named m (Server.mem_of_mem_children hm)).mp (by simpa using hmty))
  obtain ⟨-, hxk, hchildren⟩ := Server.children_graft h.shape.ids hc hfresh ht
  have hmem : ∀ n ∈ s'.tree.nodes, n = x ∨ n ∈ s.tree.nodes := by
    intro n hn
    rw [ht] at hn
    exact List.mem_cons.mp ((Server.nodes_graft h.shape.ids hc rfl).subset hn)
  have hold : ∀ n ∈ s'.tree.nodes, n.ty ≠ .cin → n ∈ s.tree.nodes := by
    intro n hn hne
    rcases hmem n hn with rfl | hn
    · exact absurd hty hne
    · exact hn
  have hcnt : ∀ n ∈ s'.tree.nodes, n.ty = .cnt → n ∈ s.tree.nodes := fun n hn hn' => hold n hn (by rw [hn']; decide)
  have hcins : s'.cins = s.cins := by
    unfold Server.cins
    rw [hdb]
  refine ⟨⟨hshape, ?_, fun d hd hdty => h.keyed d (hcnt d hd hdty) hdty,
    fun d hd d' hd' hdty hdty' => h.single d (hcnt d hd hdty) d' (hcnt d' hd' hdty') hdty hdty',
    fun r hr hrty n hn hnty => h.apart r (hdb ▸ hr) hrty n (hold n hn hnty) hnty, ?_,
    fun r hr hrty => h.rows r (hdb ▸ hr) hrty, ?_, ?_⟩, (hchildren c hc).1, ?_⟩
  · intro d l hl m hm hmty
    rw [← Server.children_eq hshape.ids hl] at hm
    rcases hmem d (Forest.mem_nodes_of_cell hl) with rfl | hd
    · rw [hxk] at hm
      cases hm
    · obtain ⟨l₀, hl₀⟩ := Forest.mem_nodes_iff.mp hd
      rcases (hchildren d hd).2 with ⟨-, heq⟩ | ⟨rfl, -⟩
      · rw [heq, Server.children_eq h.shape.ids hl₀] at hm
        exact h.home d l₀ hl₀ m hm hmty
      · exact hcty
  · intro n hn hnty
    rcases hmem n hn with rfl | hn
    · exact hbare
    · exact h.bare n hn hnty
  · intro d hd hdty
    rw [storedCins_eq, hcins, ← storedCins_eq]
    exact h.ordered d (hcnt d hd hdty) hdty
  · intro d hd hdty he
    have hd' := hcnt d hd hdty
    have hl : s'.latestChild d = s.latestChild d := by
      unfold Server.latestChild
      rcases (hchildren d hd').2 with ⟨-, heq⟩ | ⟨rfl, -⟩
      · rw [heq]
      · exact absurd rfl he
    rw [hl, newest_eq hcins rfl]
    exact h.latest d hd' hdty he
  · unfold Server.latestChild
    rcases (hchildren c hc).2 with ⟨hne, -⟩ | ⟨-, l, hl, heq⟩
    · exact absurd rfl hne
    · have hpos : decide (x.rn = "la".toList) = true := decide_eq_true hrn
      have hcount : (x :: l.roots).countP (fun m => decide (m.rn = "la".toList)) ≤ 1 := by
        rw [List.countP_cons, hl, hzero]
        split <;> omega
      rw [heq, find?_perm (roots_insertChild x l).symm hcount, List.find?_cons, hpos]

end Recent

end

end TinyIoT
