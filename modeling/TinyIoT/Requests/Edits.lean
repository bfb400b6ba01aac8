/-
Runs of elementary changes to the server that leave chosen attributes of every resource alone: an object or a row is
changed in other attributes, a row is written from the object of its resource, nodes and rows go. The objects that
are stored on the way are listed. Such a run keeps every node in step with its row, and what was there before shows
the same under the chosen attributes.
-/
import TinyIoT.Requests.Stamps
import TinyIoT.Maintained.Creates

namespace TinyIoT

/-- The object of a node is in step with the row `o` under these attributes. -/
def InStepOn (l : List Attr) (x o : Obj) : Prop := ∀ k ∈ l, ∀ v, x.get k = some v → column v = o.get k

/-- A choice of attributes that identify a resource, `ri` among them. -/
structure Stamps (K : List Attr) : Prop where
  ri : .ri ∈ K
  sub : K ⊆ .acpi :: stampAttrs

/-- None of these attributes is one the server assigns in passing. -/
theorem Stamps.apart {K : List Attr} (hK : Stamps K) : ∀ k ∈ K, k ∉ .mid :: deletionAttrs ++ rewritten ++
    [.uri, .memberOf, .at, .aa, customColumn] := by
  have h : ∀ k ∈ .acpi :: stampAttrs, k ∉ .mid :: deletionAttrs ++ rewritten ++ [.uri, .memberOf, .at, .aa, customColumn] := by
    decide
  exact fun k hk => h k (hK.sub hk)

/-- Some resource goes by this identifier. -/
def Server.Knows (s : Server) (ri : CStr) : Prop := (∃ n ∈ s.tree.nodes, n.ri = some ri) ∨ ∃ r ∈ s.db, r.ri = some ri

/-- One change that leaves the attributes of `K` alone. -/
inductive Edit (K : List Attr) (s : Server) : Server → Prop
  /-- The list of CSRs, and addresses that are not used. -/
  | aside {s' : Server} (ht : s'.tree = s.tree) (hd : s'.db = s.db) (hn : s.nextId ≤ s'.nextId)
    (hc : s'.riCount = s.riCount) : Edit K s s'
  | obj (i : Nat) {o : Obj} (h : ∀ n ∈ s.tree.nodes, n.id = i → SameOn K n.obj o) : Edit K s (s.setObj i o)
  | prune {s' : Server} (h : s.Spares s') (hd : s'.db = s.db) (hc : s'.riCount = s.riCount) : Edit K s s'
  | links (i : Nat) {f : RTNode → RTNode}
    (hf : ∀ n, (f n).id = n.id ∧ (f n).ty = n.ty ∧ (f n).rn = n.rn ∧ (f n).obj = n.obj) : Edit K s (s.modifyNode i f)
  | cut (p : Row → Bool) : Edit K s { s with db := s.db.filter p }
  | columns {o : Obj} (ri : CStr) (h : ∀ k ∈ K, o.get k = none) : Edit K s { s with db := s.db.dbUpdateResource o ri }
  | custom (b : Backend) (ri : CStr) (c : Obj) : Edit K s { s with db := s.db.dbStoreFcntCustomAttributes b ri c }
  /-- A row is written from the object of its resource. -/
  | write {n : RTNode} {o : Obj} {ri : CStr} (hn : n ∈ s.tree.nodes) (hri : n.ri = some ri)
    (h : ∀ k ∈ K, o.get k = none ∨ o.get k = n.obj.get k) : Edit K s { s with db := s.db.dbUpdateResource o ri }
  /-- A row is written from what was read from it. -/
  | rewrite {r : Row} {o : Obj} {ri : CStr} (hr : r ∈ s.db) (hri : r.ri = some ri) (h : SameOn K r.obj o) :
    Edit K s { s with db := s.db.dbUpdateResource o ri }
  /-- A cached instance takes over a row. -/
  | cache {n : RTNode} {r : Row} {o : Obj} (hn : n ∈ s.tree.nodes) (hty : n.ty = .cin) (hr : r ∈ s.db)
    (h : SameOn K r.obj o ∨ InStepOn K o r.obj) : Edit K s (s.setObj n.id o)

/-- A run of such changes, with the number of identifiers that are drawn and the objects that are stored on the way: in
the database alone, or with a node. -/
inductive Edits (K : List Attr) (s : Server) : Nat → List Obj → Server → Prop
  | refl : Edits K s 0 [] s
  | edit {d : Nat} {l : List Obj} {s₁ s' : Server} (h : Edits K s d l s₁) (he : Edit K s₁ s') : Edits K s d l s'
  | draw {d : Nat} {l : List Obj} {s₁ : Server} (h : Edits K s d l s₁) :
    Edits K s (d + 1) l { s₁ with riCount := (s₁.riCount + 1) % 10000 }
  | store {d : Nat} {l : List Obj} {s₁ : Server} {o : Obj} {uri : CStr} {db : Db} (h : Edits K s d l s₁)
    (hdb : s₁.db.dbStoreResource o uri = some db) : Edits K s d (l ++ [o]) { s₁ with db := db }
  | create {d : Nat} {l : List Obj} {s₁ : Server} {o : Obj} {uri : CStr} {db : Db} (i : Nat) {x : RTNode} (h : Edits K s d l s₁)
    (hdb : s₁.db.dbStoreResource o uri = some db) (hid : x.id = s₁.nextId) (hla : x.rn = "la".toList → x.ty = .cin)
    (ho : SameOn K o x.obj) : Edits K s d (l ++ [o])
      { s₁ with tree := s₁.tree.graft (RTNode.hasId i) (insertChild x), db := db, nextId := s₁.nextId + 1 }

/-- One change keeps the addresses of the nodes apart. -/
theorem Edit.sane {K : List Attr} {s s' : Server} (he : Edit K s s') (hs : s.Sane) : s'.Sane := by
  cases he with
  | aside ht hd hn hc => exact hs.congr ht hn
  | obj i ho => exact hs.setObj i _
  | prune hsp hd hc => exact hsp.sane hs
  | @links i f hf =>
    refine ⟨hs.ids.modify (fun n _ _ => (hf n).1) rfl, fun n' hn' => ?_⟩
    rw [Server.nodes_modifyNode] at hn'
    obtain ⟨n, hn, rfl⟩ := List.mem_map.mp hn'
    have hid : (if n.id = i then f n else n).id = n.id := by
      split
      · exact (hf n).1
      · rfl
    rw [hid]
    exact hs.below n hn
  | cut p => exact hs.congr rfl le_rfl
  | columns ri hn => exact hs.congr rfl le_rfl
  | custom b ri c => exact hs.congr rfl le_rfl
  | write hn hri ho => exact hs.congr rfl le_rfl
  | rewrite hr hri ho => exact hs.congr rfl le_rfl
  | cache hn hty hr ho => exact hs.setObj _ _

/-- A new leaf with the next address. -/
theorem Server.Sane.linked {s : Server} (hs : s.Sane) (db : Db) (i : Nat) {x : RTNode} (hid : x.id = s.nextId) :
    Sane { s with tree := s.tree.graft (RTNode.hasId i) (insertChild x), db := db, nextId := s.nextId + 1 } ∧
      ∀ n ∈ (s.tree.graft (RTNode.hasId i) (insertChild x)).nodes, n = x ∨ n ∈ s.tree.nodes := by
  have hnew : ∀ n ∈ s.tree.nodes, n.id ≠ x.id := fun n hn => by have := hs.below n hn; omega
  have htree : Server.tree { s with
      tree := s.tree.graft (RTNode.hasId i) (insertChild x), db := db, nextId := s.nextId + 1 } =
    s.tree.graft (RTNode.hasId i) (insertChild x) := rfl
  obtain ⟨hids, hmem⟩ := Server.mem_nodes_graft hs.ids hnew htree
  refine ⟨⟨hids, fun n hn => ?_⟩, hmem⟩
  rcases hmem n hn with rfl | hn
  · show n.id < s.nextId + 1
    omega
  · exact (hs.below n hn).trans (Nat.lt_succ_self _)

/-- One change leaves the nodes as they were, under the attributes of `K`; a cached instance may show a row. -/
theorem Edit.node {K : List Attr} {s s' : Server} (he : Edit K s s') (hK : Stamps K) (hs : s.Sane) {n' : RTNode}
    (hn' : n' ∈ s'.tree.nodes) : ∃ n ∈ s.tree.nodes, n.id = n'.id ∧ n.ty = n'.ty ∧ n.rn = n'.rn ∧
      (SameOn K n.obj n'.obj ∨ n.ty = .cin ∧ ∃ r ∈ s.db, SameOn K r.obj n'.obj ∨ InStepOn K n'.obj r.obj) := by
  have hself : n' ∈ s.tree.nodes → ∃ n ∈ s.tree.nodes, n.id = n'.id ∧ n.ty = n'.ty ∧ n.rn = n'.rn ∧
      (SameOn K n.obj n'.obj ∨ n.ty = .cin ∧ ∃ r ∈ s.db, SameOn K r.obj n'.obj ∨ InStepOn K n'.obj r.obj) :=
    fun h => ⟨n', h, rfl, rfl, rfl, .inl (.refl K _)⟩
  cases he with
  | aside ht hd hn hc => exact hself (ht ▸ hn')
  | obj i ho =>
    rw [Server.setObj, Server.nodes_modifyNode] at hn'
    obtain ⟨n, hn, rfl⟩ := List.mem_map.mp hn'
    split
    · rename_i hi
      exact ⟨n, hn, rfl, rfl, rfl, .inl (ho n hn hi)⟩
    · exact ⟨n, hn, rfl, rfl, rfl, .inl (.refl K _)⟩
  | prune hsp hd hc =>
    obtain ⟨n, hn, hspared⟩ := hsp.tree.mem hn'
    refine ⟨n, hn, hspared.id, hspared.ty.symm, hspared.rn.symm, .inl (.of_spared hspared.obj fun k hk hdel => ?_)⟩
    exact hK.apart k hk (List.mem_append_left _ (List.mem_append_left _ hdel))
  | @links i f hf =>
    rw [Server.nodes_modifyNode] at hn'
    obtain ⟨n, hn, rfl⟩ := List.mem_map.mp hn'
    obtain ⟨h1, h2, h3, h4⟩ := hf n
    split
    · exact ⟨n, hn, h1.symm, h2.symm, h3.symm, .inl (h4 ▸ .refl K _)⟩
    · exact ⟨n, hn, rfl, rfl, rfl, .inl (.refl K _)⟩
  | cut p => exact hself hn'
  | columns ri hn => exact hself hn'
  | custom b ri c => exact hself hn'
  | write hn hri ho => exact hself hn'
  | rewrite hr hri ho => exact hself hn'
  | cache hn hty hr ho =>
    rw [Server.setObj, Server.nodes_modifyNode] at hn'
    obtain ⟨m, hm, rfl⟩ := List.mem_map.mp hn'
    split
    · rename_i hi
      rw [hs.ids.eq hm hn hi]
      exact ⟨_, hn, rfl, rfl, rfl, .inr ⟨hty, _, hr, ho⟩⟩
    · exact ⟨m, hm, rfl, rfl, rfl, .inl (.refl K _)⟩

theorem Edit.nextId_le {K : List Attr} {s s' : Server} (he : Edit K s s') : s.nextId ≤ s'.nextId := by
  cases he with
  | aside ht hd hn hc => exact hn
  | prune hsp hd hc => exact hsp.nextId.ge
  | _ => exact le_rfl

theorem Edit.riCount {K : List Attr} {s s' : Server} (he : Edit K s s') : s'.riCount = s.riCount := by
  cases he with
  | aside ht hd hn hc => exact hc
  | prune hsp hd hc => exact hc
  | _ => rfl

namespace Edits

variable {K : List Attr} {s s₁ s' : Server} {d d' : Nat} {l l' : List Obj}

/-- A run keeps them apart. -/
theorem sane (h : Edits K s d l s') (hs : s.Sane) : s'.Sane := by
  induction h with
  | refl => exact hs
  | edit _ he ih => exact he.sane ih
  | draw _ ih => exact ih.congr rfl le_rfl
  | store _ _ ih => exact ih.congr rfl le_rfl
  | create i _ _ hid _ _ ih => exact (ih.linked _ i hid).1

theorem of_edit (h : Edit K s s') : Edits K s 0 [] s' := .edit .refl h

theorem trans (h : Edits K s d l s₁) (h' : Edits K s₁ d' l' s') : Edits K s (d + d') (l ++ l') s' := by
  induction h' with
  | refl => rw [List.append_nil]; exact h
  | edit _ he ih => exact ih.edit he
  | draw _ ih => exact ih.draw
  | store _ hdb ih => rw [← List.append_assoc]; exact ih.store hdb
  | create i _ hdb hid hla ho ih => rw [← List.append_assoc]; exact ih.create i hdb hid hla ho

theorem trans_nil (h : Edits K s 0 [] s₁) (h' : Edits K s₁ d l s') : Edits K s d l s' := by
  have := h.trans h'
  rwa [Nat.zero_add] at this

theorem nil_trans (h : Edits K s d l s₁) (h' : Edits K s₁ 0 [] s') : Edits K s d l s' := by
  have := h.trans h'
  rwa [List.append_nil] at this

/-- A loop whose every step is such a run. -/
theorem foldl {α : Type} {f : Server → α → Server} (hf : ∀ (s : Server) a, s.Sane → Edits K s 0 [] (f s a)) (xs : List α)
    (hs : s.Sane) : Edits K s 0 [] (xs.foldl f s) := by
  induction xs generalizing s with
  | nil => exact .refl
  | cons a xs ih => exact (hf s a hs).trans_nil (ih ((hf s a hs).sane hs))

theorem nextId_le (h : Edits K s d l s') : s.nextId ≤ s'.nextId := by
  induction h with
  | refl => exact le_rfl
  | edit _ he ih => exact ih.trans he.nextId_le
  | draw _ ih => exact ih
  | store _ _ ih => exact ih
  | create _ _ _ _ _ _ ih => exact ih.trans (Nat.le_succ _)

/-- The counter moves on with every identifier that is drawn. -/
theorem riCount_mod (h : Edits K s d l s') : s'.riCount % 10000 = (s.riCount + d) % 10000 := by
  induction h with
  | refl => rfl
  | edit _ he ih => rw [he.riCount, ih]
  | @draw d l s₁ _ ih =>
    show (s₁.riCount + 1) % 10000 % 10000 = _
    omega
  | store _ _ ih => exact ih
  | create _ _ _ _ _ _ ih => exact ih

theorem riCount (h : Edits K s 0 l s') : s'.riCount = s.riCount := by
  generalize hd : 0 = d at h
  induction h with
  | refl => rfl
  | edit _ he ih => rw [he.riCount, ih hd]
  | draw _ _ => omega
  | store _ _ ih => exact ih hd
  | create _ _ _ _ _ _ ih => exact ih hd

/-- A node there was is as it was, unless it caches an instance. -/
theorem node (h : Edits K s d l s') (hK : Stamps K) (hs : s.Sane) : ∀ n' ∈ s'.tree.nodes, n'.id < s.nextId →
    ∃ n ∈ s.tree.nodes, n.id = n'.id ∧ n.ty = n'.ty ∧ (n.ty ≠ .cin → SameOn K n.obj n'.obj) := by
  induction h with
  | refl => exact fun n hn _ => ⟨n, hn, rfl, rfl, fun _ => .refl K _⟩
  | edit h₁ he ih =>
    intro n' hn' hlt
    obtain ⟨n₁, hn₁, hid₁, hty₁, -, hcase⟩ := he.node hK (h₁.sane hs) hn'
    obtain ⟨n, hn, hid, hty, hsame⟩ := ih n₁ hn₁ (hid₁ ▸ hlt)
    refine ⟨n, hn, hid.trans hid₁, hty.trans hty₁, fun hc => (hsame hc).trans ?_⟩
    exact hcase.resolve_right fun hcin => hc (hty.trans hcin.1)
  | draw _ ih => exact ih
  | store _ _ ih => exact ih
  | create i h₁ _ hid hla ho ih =>
    intro n' hn' hlt
    rcases ((h₁.sane hs).linked [] i hid).2 n' hn' with rfl | hn'
    · have := h₁.nextId_le
      omega
    · exact ih n' hn' hlt

/-- The children `la` stay instances. -/
theorem latestAreCins (h : Edits K s d l s') (hK : Stamps K) (hs : s.Sane) (hl : s.LatestAreCins) : s'.LatestAreCins := by
  induction h with
  | refl => exact hl
  | edit h₁ he ih =>
    intro n' hn' hrn
    obtain ⟨n, hn, -, hty, hname, -⟩ := he.node hK (h₁.sane hs) hn'
    exact hty ▸ ih n hn (hname.trans hrn)
  | draw _ ih => exact ih
  | store _ _ ih => exact ih
  | create i h₁ _ hid hla ho ih =>
    intro n' hn' hrn
    rcases ((h₁.sane hs).linked [] i hid).2 n' hn' with rfl | hn'
    · exact hla hrn
    · exact ih n' hn' hrn

end Edits

/-! ## The object at an address -/

/-- The node at the address `i` has this type and shows the same as the object. -/
def Server.ShowsOn (K : List Attr) (s : Server) (i : Nat) (ty : ResourceType) (o : Obj) : Prop :=
  ∀ n ∈ s.tree.nodes, n.id = i → n.ty = ty ∧ SameOn K o n.obj

namespace Server.ShowsOn

variable {K : List Attr} {s s' : Server} {i : Nat} {ty : ResourceType} {o : Obj}

theorem congr (h : s.ShowsOn K i ty o) (ht : s'.tree = s.tree) : s'.ShowsOn K i ty o := by
  unfold ShowsOn
  rw [ht]
  exact h

/-- It goes on through a run, unless it caches an instance. -/
theorem edits {d : Nat} {l : List Obj} (h : s.ShowsOn K i ty o) (he : Edits K s d l s') (hK : Stamps K) (hs : s.Sane)
    (hi : i < s.nextId) (hty : ty ≠ .cin) : s'.ShowsOn K i ty o := by
  intro n' hn' hid'
  obtain ⟨n, hn, hid, hnty, hsame⟩ := he.node hK hs n' hn' (hid' ▸ hi)
  obtain ⟨hn₁, hn₂⟩ := h n hn (hid.trans hid')
  exact ⟨hnty.symm.trans hn₁, hn₂.trans (hsame (hn₁ ▸ hty))⟩

theorem of_mem (hs : s.Sane) {n : RTNode} (hn : n ∈ s.tree.nodes) : s.ShowsOn K n.id n.ty n.obj := by
  intro m hm hmi
  rw [hs.ids.eq hm hn hmi]
  exact ⟨rfl, .refl K _⟩

/-- The object that is assigned. -/
theorem setObj (h : s.ShowsOn K i ty o) (o' : Obj) : (s.setObj i o').ShowsOn K i ty o' := by
  intro m hm hmi
  rw [Server.setObj, nodes_modifyNode] at hm
  obtain ⟨m₀, hm₀, rfl⟩ := List.mem_map.mp hm
  split
  · rename_i hi
    exact ⟨(h m₀ hm₀ hi).1, .refl K o'⟩
  · rename_i hi
    rw [if_neg hi] at hmi
    exact absurd hmi hi

/-- An object that shows the same may be assigned. -/
theorem edit (h : s.ShowsOn K i ty o) {o' : Obj} (ho : SameOn K o o') : Edit K s (s.setObj i o') :=
  .obj i fun n hn hi => (h n hn hi).2.symm.trans ho

/-- The node that is linked. -/
theorem linked (hs : s.Sane) (db : Db) (j : Nat) {x : RTNode} (hid : x.id = s.nextId) (ho : SameOn K o x.obj) :
    ShowsOn K { s with tree := s.tree.graft (RTNode.hasId j) (insertChild x), db := db, nextId := s.nextId + 1 } s.nextId
      x.ty o := by
  intro n hn hi
  rcases (hs.linked db j hid).2 n hn with rfl | hn
  · exact ⟨rfl, ho⟩
  · have := hs.below n hn
    omega

end Server.ShowsOn

/-! ## The invariant -/

/-- Nodes are in step with their rows under the attributes of `K`; identifiers are unique in the database, and in
memory but for the cached instances; rows hold what a column gives back. -/
structure Stamped (K : List Attr) (s : Server) : Prop where
  sane : s.Sane
  inStep : ∀ n ∈ s.tree.nodes, ∀ r ∈ s.db, ∀ ri, n.ri = some ri → r.ri = some ri → InStepOn K n.obj r.obj
  rows : (s.db.filterMap Row.ri).Nodup
  nodes : ∀ n ∈ s.tree.nodes, ∀ m ∈ s.tree.nodes, n.ty ≠ .cin → m.ty ≠ .cin → n.ri = m.ri → n.ri.isSome → n.id = m.id
  plain : ∀ r ∈ s.db, ∀ k ∈ K, ∀ v, r.obj.get k = some v → column v = some v

/-- What a run that stores the objects `l` leaves of what there was. -/
structure Keeps (K : List Attr) (s : Server) (l : List Obj) (s' : Server) : Prop where
  rows : ∀ r' ∈ s'.db, (∃ r ∈ s.db, SameOn K r.obj r'.obj) ∨ ∃ o ∈ l, ∀ k ∈ K, r'.obj.get k = (o.get k).bind column
  known : ∀ ri, ri ≠ [] → s'.Knows ri → s.Knows ri ∨ ∃ o ∈ l, o.str .ri = some ri

/-- The objects to be stored go by new identifiers, each by its own. -/
structure Fresh (s : Server) (l : List Obj) : Prop where
  new : ∀ o ∈ l, ∀ ri, o.str .ri = some ri → ri ≠ [] ∧ ¬ s.Knows ri
  nodup : (l.filterMap (Obj.str · .ri)).Nodup

theorem Keeps.refl (K : List Attr) (s : Server) : Keeps K s [] s :=
  ⟨fun r hr => .inl ⟨r, hr, .refl K _⟩, fun _ _ h => .inl h⟩

theorem Keeps.trans {K : List Attr} {s s₁ s' : Server} {l l' : List Obj} (h : Keeps K s l s₁) (h' : Keeps K s₁ l' s') :
    Keeps K s (l ++ l') s' where
  rows := by
    intro r' hr'
    rcases h'.rows r' hr' with ⟨r₁, hr₁, hsame₁⟩ | ⟨o, ho, hk⟩
    · rcases h.rows r₁ hr₁ with ⟨r, hr, hsame⟩ | ⟨o, ho, hk⟩
      · exact .inl ⟨r, hr, hsame.trans hsame₁⟩
      · exact .inr ⟨o, List.mem_append_left _ ho, fun k hkK => (hsame₁ k hkK).trans (hk k hkK)⟩
    · exact .inr ⟨o, List.mem_append_right _ ho, hk⟩
  known := by
    intro ri hne hri
    rcases h'.known ri hne hri with h₁ | ⟨o, ho, hk⟩
    · rcases h.known ri hne h₁ with h₀ | ⟨o, ho, hk⟩
      · exact .inl h₀
      · exact .inr ⟨o, List.mem_append_left _ ho, hk⟩
    · exact .inr ⟨o, List.mem_append_right _ ho, hk⟩

/-! ## Rows that are rewritten -/

/-- The rows, one for one, are the same under the attributes of `K`. -/
abbrev SameRows (K : List Attr) : Db → Db → Prop := List.Forall₂ fun r r' => SameOn K r.obj r'.obj

section

variable {K : List Attr} {db db' : Db}

theorem sameRows_map {f : Row → Row} (h : ∀ r ∈ db, SameOn K r.obj (f r).obj) : SameRows K db (db.map f) := by
  rw [SameRows, List.forall₂_map_right_iff, List.forall₂_same]
  exact h

theorem SameRows.mem (h : SameRows K db db') {r' : Row} (hr : r' ∈ db') : ∃ r ∈ db, SameOn K r.obj r'.obj := by
  induction h with
  | nil => cases hr
  | cons hsame _ ih =>
    rcases List.mem_cons.mp hr with rfl | hr
    · exact ⟨_, List.mem_cons_self, hsame⟩
    · obtain ⟨r, hr, hk⟩ := ih hr
      exact ⟨r, List.mem_cons_of_mem _ hr, hk⟩

theorem SameRows.filterMap_ri (h : SameRows K db db') (hK : .ri ∈ K) : db'.filterMap Row.ri = db.filterMap Row.ri := by
  induction h with
  | nil => rfl
  | cons hsame _ ih =>
    have hri : Row.ri _ = Row.ri _ := Obj.str_congr (hsame .ri hK)
    rw [List.filterMap_cons, List.filterMap_cons, hri, ih]

/-- What an update leaves under an attribute in the row it meets. -/
theorem get_overlaid (o r : Obj) {k : Attr} (hk : k ≠ .uri) :
    Obj.get (Assoc.drop (Assoc.overlay column o r) .uri) k = if o.has k then (o.get k).bind column else r.get k := by
  show Assoc.get _ _ = _
  rw [Assoc.get_drop, if_neg (Ne.symm hk), Assoc.get_overlay]
  unfold Obj.has Assoc.has
  cases hv : Assoc.get o k with
  | none => rfl
  | some v => exact (congrArg (Option.bind · column) hv).symm

/-- An update by values that are in step with the rows it meets. -/
theorem sameRows_update (hK : .uri ∉ K) {o : Obj} {ri : CStr} (h : ∀ r ∈ db, r.ri = some ri → InStepOn K o r.obj) :
    SameRows K db (db.dbUpdateResource o ri) := by
  refine sameRows_map fun r hr => ?_
  split
  · rename_i hri
    intro k hk
    rw [get_overlaid o r.obj (ne_of_mem_of_not_mem hk hK)]
    unfold Obj.has Assoc.has
    cases hv : o.get k with
    | none => rw [show Assoc.get o k = none from hv]; rfl
    | some v =>
      rw [show Assoc.get o k = some v from hv]
      exact h r hr hri k hk v hv
  · exact .refl K _

theorem sameRows_custom (hK : customColumn ∉ K) (b : Backend) (ri : CStr) (c : Obj) :
    SameRows K db (db.dbStoreFcntCustomAttributes b ri c) := by
  refine sameRows_map fun r _ => ?_
  split
  · intro k hk
    have hne : k ≠ customColumn := ne_of_mem_of_not_mem hk hK
    exact (Assoc.get_add_ne (Ne.symm hne)).trans ((Assoc.get_drop _ _ _).trans (if_neg (Ne.symm hne)))
  · exact .refl K _

end

/-- Two entries of a list that give the same, where nothing is given twice. -/
theorem eq_of_nodup_filterMap {α β : Type} {f : α → Option β} {l : List α} (h : (l.filterMap f).Nodup) {a b : α} {x : β}
    (ha : a ∈ l) (hb : b ∈ l) (hfa : f a = some x) (hfb : f b = some x) : a = b := by
  induction l with
  | nil => cases ha
  | cons c l ih =>
    have htail : (l.filterMap f).Nodup := h.sublist ((List.sublist_cons_self c l).filterMap f)
    have hhead : f c = some x → ∀ d ∈ l, f d ≠ some x := by
      intro hc d hd hdx
      rw [List.filterMap_cons_some hc, List.nodup_cons] at h
      exact h.1 (List.mem_filterMap.mpr ⟨d, hd, hdx⟩)
    rcases List.mem_cons.mp ha with rfl | ha'
    · rcases List.mem_cons.mp hb with rfl | hb'
      · rfl
      · exact absurd hfb (hhead hfa b hb')
    · rcases List.mem_cons.mp hb with rfl | hb'
      · exact absurd hfa (hhead hfb a ha')
      · exact ih htail ha' hb'

/-- A column gives back a string only where there was one. -/
theorem str_of_column {o : Obj} {k : Attr} {l : CStr} (h : (o.get k).bind column = some (.str l)) : o.str k = some l := by
  obtain ⟨v, hv, hvc⟩ := Option.bind_eq_some_iff.mp h
  have hvr : v = .str l := by
    cases v with
    | str l => cases l <;> cases hvc; rfl
    | _ => cases hvc
  exact Obj.str_of_get (hv.trans (congrArg some hvr))

/-! ## What one change preserves -/

namespace Stamped

variable {K : List Attr} {s s' : Server}

/-- The row of an identifier. -/
theorem row_eq (h : Stamped K s) {r q : Row} {ri : CStr} (hr : r ∈ s.db) (hq : q ∈ s.db) (hri : r.ri = some ri)
    (hqi : q.ri = some ri) : r = q :=
  eq_of_nodup_filterMap h.rows hr hq hri hqi

/-- A row holds no empty identifier. -/
theorem ri_ne_nil (h : Stamped K s) (hK : .ri ∈ K) {r : Row} {ri : CStr} (hr : r ∈ s.db) (hri : r.ri = some ri) :
    ri ≠ [] := by
  rintro rfl
  cases h.plain r hr .ri hK _ (Obj.get_of_str hri)

/-- An object that was read from a row, or is in step with it, has the identifier of the row, and is in step with the
rows of that identifier. -/
theorem of_row (h : Stamped K s) (hK : .ri ∈ K) {r : Row} {o : Obj} {ri : CStr} (hr : r ∈ s.db)
    (ho : SameOn K r.obj o ∨ InStepOn K o r.obj) (hri : o.str .ri = some ri) :
    (ri ≠ [] → r.ri = some ri) ∧ ∀ q ∈ s.db, q.ri = some ri → InStepOn K o q.obj := by
  have hget := Obj.get_of_str hri
  have hown : ri ≠ [] → r.ri = some ri := by
    intro hne
    refine Obj.str_of_get ?_
    rcases ho with ho | ho
    · exact (ho .ri hK).symm.trans hget
    · exact (ho .ri hK _ hget).symm.trans (column_str hne)
  refine ⟨hown, fun q hq hqi => ?_⟩
  obtain rfl := h.row_eq hr hq (hown (h.ri_ne_nil hK hq hqi)) hqi
  rcases ho with ho | ho
  · intro k hk v hv
    rw [ho k hk] at hv
    rw [hv]
    exact h.plain r hr k hk v hv
  · exact ho

/-- Nodes go and change in other attributes; a cached instance may take over a row. -/
theorem retree (h : Stamped K s) (hK : .ri ∈ K) (hs : s'.Sane) (hd : s'.db = s.db)
    (hnodes : ∀ n' ∈ s'.tree.nodes, ∃ n ∈ s.tree.nodes, n.id = n'.id ∧ n.ty = n'.ty ∧ n.rn = n'.rn ∧
      (SameOn K n.obj n'.obj ∨ n.ty = .cin ∧ ∃ r ∈ s.db, SameOn K r.obj n'.obj ∨ InStepOn K n'.obj r.obj)) :
    Stamped K s' ∧ Keeps K s [] s' := by
  have hri : ∀ {n n' : RTNode}, SameOn K n.obj n'.obj → n'.ri = n.ri := fun hsame => Obj.str_congr (hsame .ri hK)
  refine ⟨⟨hs, ?_, hd ▸ h.rows, ?_, hd ▸ h.plain⟩, ⟨?_, ?_⟩⟩
  · intro n' hn' q hq ri hnri hqri
    rw [hd] at hq
    obtain ⟨n, hmem, -, -, -, hsame | ⟨-, r, hr, ho⟩⟩ := hnodes n' hn'
    · intro k hk v hv
      rw [hsame k hk] at hv
      exact h.inStep n hmem q hq ri ((hri hsame).symm.trans hnri) hqri k hk v hv
    · exact (h.of_row hK hr ho hnri).2 q hq hqri
  · intro n' hn' m' hm' hnc hmc he hsome
    obtain ⟨n, hnm, hnid, hnty, -, hn₁⟩ := hnodes n' hn'
    obtain ⟨m, hmm, hmid, hmty, -, hm₁⟩ := hnodes m' hm'
    have hns := hn₁.resolve_right fun hc => hnc (hnty ▸ hc.1)
    have hms := hm₁.resolve_right fun hc => hmc (hmty ▸ hc.1)
    rw [← hnid, ← hmid]
    rw [hri hns, hri hms] at he
    rw [hri hns] at hsome
    exact h.nodes n hnm m hmm (hnty ▸ hnc) (hmty ▸ hmc) he hsome
  · exact fun r hr => .inl ⟨r, hd ▸ hr, .refl K _⟩
  · rintro ri hne (⟨n', hn', hnri⟩ | ⟨r, hr, hrri⟩)
    · obtain ⟨n, hmem, -, -, -, hsame | ⟨-, r, hr, ho⟩⟩ := hnodes n' hn'
      · exact .inl (.inl ⟨n, hmem, (hri hsame).symm.trans hnri⟩)
      · exact .inl (.inr ⟨r, hr, (h.of_row hK hr ho hnri).1 hne⟩)
    · exact .inl (.inr ⟨r, hd ▸ hr, hrri⟩)

/-- The rows, one for one, are the same. -/
theorem rewrite (h : Stamped K s) (hK : .ri ∈ K) {db : Db} (hrows : SameRows K s.db db) :
    Stamped K { s with db := db } ∧ Keeps K s [] { s with db := db } := by
  have hri : ∀ {r r' : Row}, SameOn K r.obj r'.obj → r'.ri = r.ri := fun hsame => Obj.str_congr (hsame .ri hK)
  refine ⟨⟨h.sane.congr rfl le_rfl, ?_, ?_, h.nodes, ?_⟩, ⟨?_, ?_⟩⟩
  · intro n hn r' hr' ri hnri hrri k hk v hv
    obtain ⟨r, hr, hsame⟩ := hrows.mem hr'
    rw [hsame k hk]
    exact h.inStep n hn r hr ri hnri ((hri hsame).symm.trans hrri) k hk v hv
  · show (db.filterMap Row.ri).Nodup
    rw [hrows.filterMap_ri hK]
    exact h.rows
  · intro r' hr' k hk v hv
    obtain ⟨r, hr, hsame⟩ := hrows.mem hr'
    rw [hsame k hk] at hv
    exact h.plain r hr k hk v hv
  · exact fun r' hr' => .inl (hrows.mem hr')
  · rintro ri - (hn | ⟨r', hr', hrri⟩)
    · exact .inl (.inl hn)
    · obtain ⟨r, hr, hsame⟩ := hrows.mem hr'
      exact .inl (.inr ⟨r, hr, (hri hsame).symm.trans hrri⟩)

/-- Rows go. -/
theorem cut (h : Stamped K s) {db : Db} (hsub : db.Sublist s.db) :
    Stamped K { s with db := db } ∧ Keeps K s [] { s with db := db } := by
  refine ⟨⟨h.sane.congr rfl le_rfl, fun n hn r hr => h.inStep n hn r (hsub.subset hr), h.rows.sublist (hsub.filterMap _),
    h.nodes, fun r hr => h.plain r (hsub.subset hr)⟩, ⟨fun r hr => .inl ⟨r, hsub.subset hr, .refl K _⟩, ?_⟩⟩
  rintro ri - (hn | ⟨r, hr, hrri⟩)
  · exact .inl (.inl hn)
  · exact .inl (.inr ⟨r, hsub.subset hr, hrri⟩)

/-- What a column gives back it gives back again. -/
theorem column_idem {v w : Json} (h : column v = some w) : column w = some w := by
  cases v with
  | null => cases h
  | bool b =>
    cases h
    cases b <;> rfl
  | num q =>
    cases h
    exact column_int (le_max_left _ _) (Json.valueint_le _)
  | str l =>
    cases l with
    | nil => cases h
    | cons c l => cases h; rfl
  | arr l => cases h; rfl
  | obj m => cases h; rfl

/-- A row is stored, for a resource with an identifier of its own. -/
theorem store (h : Stamped K s) (hK : .ri ∈ K) (hu : .uri ∉ K) {o : Obj} {uri : CStr} {db : Db}
    (hdb : s.db.dbStoreResource o uri = some db) (hf : Fresh s [o]) :
    Stamped K { s with db := db } ∧ Keeps K s [o] { s with db := db } := by
  obtain ⟨t, tbl, -, -, rfl⟩ := Db.dbStoreResource_some hdb
  have hget : ∀ k ∈ K, Obj.get (Assoc.drop (Assoc.overlay column o []) .uri) k = (o.get k).bind column :=
    fun k hk => Db.get_stored o (ne_of_mem_of_not_mem hk hu)
  generalize hnew : (⟨uri, tbl, Assoc.drop (Assoc.overlay column o []) .uri⟩ : Row) = new
  have hnewobj : new.obj = Assoc.drop (Assoc.overlay column o []) .uri := hnew ▸ rfl
  -- the row has the identifier of the object, which nothing else has
  have hri : ∀ ri, new.ri = some ri → o.str .ri = some ri ∧ ¬ s.Knows ri := by
    intro ri hri
    have hcol : (o.get .ri).bind column = some (.str ri) := by
      rw [← hget .ri hK, ← hnewobj]
      exact Obj.get_of_str hri
    have hstr : o.str .ri = some ri := str_of_column hcol
    exact ⟨hstr, (hf.new o List.mem_cons_self ri hstr).2⟩
  refine ⟨⟨h.sane.congr rfl le_rfl, ?_, ?_, h.nodes, ?_⟩, ⟨?_, ?_⟩⟩
  · intro n hn r hr ri hnri hrri
    rcases List.mem_append.mp hr with hr | hr
    · exact h.inStep n hn r hr ri hnri hrri
    · cases List.mem_singleton.mp hr
      exact absurd (.inl ⟨n, hn, hnri⟩) (hri ri hrri).2
  · show ((s.db ++ [new]).filterMap Row.ri).Nodup
    rw [List.filterMap_append]
    refine h.rows.append ?_ ?_
    · cases hr : new.ri <;> simp [hr]
    · intro ri hold hin
      obtain ⟨r, hr, hrri⟩ := List.mem_filterMap.mp hold
      obtain ⟨q, hq, hqri⟩ := List.mem_filterMap.mp hin
      cases List.mem_singleton.mp hq
      exact (hri ri hqri).2 (.inr ⟨r, hr, hrri⟩)
  · intro r hr k hk v hv
    rcases List.mem_append.mp hr with hr | hr
    · exact h.plain r hr k hk v hv
    · cases List.mem_singleton.mp hr
      rw [hnewobj, hget k hk] at hv
      obtain ⟨w, -, hw⟩ := Option.bind_eq_some_iff.mp hv
      exact column_idem hw
  · intro r hr
    rcases List.mem_append.mp hr with hr | hr
    · exact .inl ⟨r, hr, .refl K _⟩
    · cases List.mem_singleton.mp hr
      exact .inr ⟨o, List.mem_cons_self, fun k hk => by rw [hnewobj, hget k hk]⟩
  · rintro ri - (hn | ⟨r, hr, hrri⟩)
    · exact .inl (.inl hn)
    · rcases List.mem_append.mp hr with hr | hr
      · exact .inl (.inr ⟨r, hr, hrri⟩)
      · cases List.mem_singleton.mp hr
        exact .inr ⟨o, List.mem_cons_self, (hri ri hrri).1⟩

/-- A node is linked with its row. -/
theorem create (h : Stamped K s) (hK : .ri ∈ K) (hu : .uri ∉ K) {o : Obj} {uri : CStr} {db : Db} (i : Nat) {x : RTNode}
    (hdb : s.db.dbStoreResource o uri = some db) (hid : x.id = s.nextId) (ho : SameOn K o x.obj) (hf : Fresh s [o]) :
    Stamped K { s with
      tree := s.tree.graft (RTNode.hasId i) (insertChild x), db := db, nextId := s.nextId + 1 } ∧
    Keeps K s [o] { s with
      tree := s.tree.graft (RTNode.hasId i) (insertChild x), db := db, nextId := s.nextId + 1 } := by
  obtain ⟨hst, hkeep⟩ := h.store hK hu hdb hf
  have hxri : x.ri = o.str .ri := Obj.str_congr (ho .ri hK)
  have hnew : ∀ ri, x.ri = some ri → ¬ s.Knows ri := fun ri hri => (hf.new o List.mem_cons_self ri (hxri ▸ hri)).2
  obtain ⟨hsane, hmem⟩ := h.sane.linked db i hid
  refine ⟨⟨hsane, ?_, hst.rows, ?_, hst.plain⟩, ⟨hkeep.rows, ?_⟩⟩
  · intro n hn r hr ri hnri hrri
    rcases hmem n hn with rfl | hn
    · -- the row is the one that was stored
      rcases hkeep.rows r hr with ⟨r₀, hr₀, hsame⟩ | ⟨o', ho', hcol⟩
      · exact absurd (.inr ⟨r₀, hr₀, (Obj.str_congr (hsame .ri hK)).symm.trans hrri⟩) (hnew ri hnri)
      · cases List.mem_singleton.mp ho'
        intro k hk v hv
        rw [hcol k hk, ← ho k hk, hv]
        rfl
    · exact hst.inStep n hn r hr ri hnri hrri
  · intro n hn m hm hnc hmc he hsome
    obtain ⟨ri, hri⟩ := Option.isSome_iff_exists.mp hsome
    rcases hmem n hn with rfl | hn
    · rcases hmem m hm with rfl | hm
      · rfl
      · exact absurd (.inl ⟨m, hm, he.symm.trans hri⟩) (hnew ri hri)
    · rcases hmem m hm with rfl | hm
      · exact absurd (.inl ⟨n, ‹n ∈ s.tree.nodes›, hri⟩) (hnew ri (he.symm.trans hri))
      · exact h.nodes n hn m hm hnc hmc he hsome
  · rintro ri hne (⟨n, hn, hri⟩ | hr)
    · rcases hmem n hn with rfl | hn
      · exact .inr ⟨o, List.mem_cons_self, hxri.symm.trans hri⟩
      · exact .inl (.inl ⟨n, hn, hri⟩)
    · exact hkeep.known ri hne (.inr hr)

/-- One change. -/
theorem edit (h : Stamped K s) (hK : Stamps K) (he : Edit K s s') : Stamped K s' ∧ Keeps K s [] s' := by
  have hu : .uri ∉ K := fun hk => absurd (hK.sub hk) (by decide)
  have hsane := he.sane h.sane
  have hnodes := fun n' => @Edit.node K s s' he hK h.sane n'
  cases he with
  | aside ht hd hn hc => exact h.retree hK.ri hsane hd hnodes
  | obj i ho => exact h.retree hK.ri hsane rfl hnodes
  | prune hsp hd hc => exact h.retree hK.ri hsane hd hnodes
  | links i hf => exact h.retree hK.ri hsane rfl hnodes
  | cut p => exact h.cut List.filter_sublist
  | columns ri hn =>
    refine h.rewrite hK.ri (sameRows_update hu fun r _ _ k hk v hv => ?_)
    rw [hn k hk] at hv
    cases hv
  | custom b ri c => exact h.rewrite hK.ri (sameRows_custom (fun hk => absurd (hK.sub hk) (by decide)) b ri c)
  | write hn hri ho =>
    refine h.rewrite hK.ri (sameRows_update hu fun r hr hrri k hk v hv => ?_)
    rcases ho k hk with hnone | hsame
    · rw [hnone] at hv
      cases hv
    · exact h.inStep _ hn r hr _ hri hrri k hk v (hsame.symm.trans hv)
  | rewrite hr hri ho =>
    refine h.rewrite hK.ri (sameRows_update hu fun q hq hqri => ?_)
    exact (h.of_row hK.ri hr (.inl ho) ((Obj.str_congr (ho .ri hK.ri)).trans hri)).2 q hq hqri
  | cache hn hty hr ho => exact h.retree hK.ri hsane rfl hnodes

end Stamped

/-! ## What a run preserves -/

theorem Fresh.left {s : Server} {l l' : List Obj} (h : Fresh s (l ++ l')) : Fresh s l :=
  ⟨fun o ho => h.new o (List.mem_append_left _ ho), h.nodup.sublist ((List.sublist_append_left l l').filterMap _)⟩

/-- What is new at first is new after what came before. -/
theorem Fresh.right {K : List Attr} {s s₁ : Server} {l : List Obj} {o : Obj} (h : Fresh s (l ++ [o])) (hk : Keeps K s l s₁) :
    Fresh s₁ [o] := by
  refine ⟨fun o' ho' ri hri => ?_, ?_⟩
  · cases List.mem_singleton.mp ho'
    obtain ⟨hne, hnot⟩ := h.new o (List.mem_append_right _ List.mem_cons_self) ri hri
    refine ⟨hne, fun hkn => ?_⟩
    rcases hk.known ri hne hkn with h₀ | ⟨q, hq, hqri⟩
    · exact hnot h₀
    · have hd := h.nodup
      rw [List.filterMap_append, List.nodup_append] at hd
      exact hd.2.2 ri (List.mem_filterMap.mpr ⟨q, hq, hqri⟩) ri
        (List.mem_filterMap.mpr ⟨o, List.mem_cons_self, hri⟩) rfl
  · exact h.nodup.sublist ((List.sublist_append_right l [o]).filterMap _)

/-- A run of changes keeps the invariant, and what there was. -/
theorem Edits.keeps {K : List Attr} {s s' : Server} {d : Nat} {l : List Obj} (h : Edits K s d l s') (hK : Stamps K)
    (hs : Stamped K s) (hf : Fresh s l) : Stamped K s' ∧ Keeps K s l s' := by
  have hu : .uri ∉ K := fun hk => absurd (hK.sub hk) (by decide)
  induction h with
  | refl => exact ⟨hs, .refl K s⟩
  | edit _ he ih =>
    obtain ⟨hs₁, hk₁⟩ := ih hf
    obtain ⟨hs', hk'⟩ := hs₁.edit hK he
    have := hk₁.trans hk'
    rw [List.append_nil] at this
    exact ⟨hs', this⟩
  | draw _ ih =>
    obtain ⟨hs₁, hk₁⟩ := ih hf
    exact ⟨⟨hs₁.sane.congr rfl le_rfl, hs₁.inStep, hs₁.rows, hs₁.nodes, hs₁.plain⟩, ⟨hk₁.rows, hk₁.known⟩⟩
  | store _ hdb ih =>
    obtain ⟨hs₁, hk₁⟩ := ih hf.left
    obtain ⟨hs', hk'⟩ := hs₁.store hK.ri hu hdb (hf.right hk₁)
    exact ⟨hs', hk₁.trans hk'⟩
  | create i _ hdb hid _ ho ih =>
    obtain ⟨hs₁, hk₁⟩ := ih hf.left
    obtain ⟨hs', hk'⟩ := hs₁.create hK.ri hu i hdb hid ho (hf.right hk₁)
    exact ⟨hs', hk₁.trans hk'⟩

end TinyIoT
