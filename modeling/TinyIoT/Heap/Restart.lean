/-
A restart (`init_server`, `init_resource_tree`): the CSEBase, a node for every row that is neither a content instance
nor a subscription nor an instance of a flexContainer, and one for the latest content instance of each parent are made
from the database, and `restruct_resource_tree` hangs them below each other. A column is read back as a number where
`strtol` takes all of it, so that a restart succeeds exactly when no name looks like one. The subscriptions stay behind:
none is in the tree, no address leads to one, and no event is told to any.
-/
import TinyIoT.Heap.Restruct
import TinyIoT.Database.Columns
import TinyIoT.Subscription.Expiration

namespace TinyIoT

open Links

/-! ## The rows -/

/-- A row as the readers give it back. -/
def Row.reread (cj : CJson) (r : Row) : Option Obj :=
  readColumns .postgresql cj (storeColumns .postgresql cj r.obj r.uri r.ty)

/-- The rows `db_get_all_resource_as_rtnode` selects. -/
def Row.isLoaded (r : Row) : Bool := r.ty ≠ .cin && r.ty ≠ .sub && r.ty ≠ .fcin

/-- The rows `db_get_latest_cins` selects: the last content instance below each parent. -/
def latestCins : Db → List Row
  | [] => []
  | r :: db =>
    if r.ty = .cin && !db.any (fun q => q.ty = .cin && q.pi = r.pi) then r :: latestCins db else latestCins db

/-- The nodes made from rows, one after the other. -/
def rowNodes (cj : CJson) : Nat → List Row → Option (List RTNode)
  | _, [] => some []
  | id, r :: rows => do
    let o ← r.reread cj
    let n ← createRtnode id o r.ty
    let l ← rowNodes cj (id + 1) rows
    return n :: l

/-- The list `init_resource_tree` makes; the content instances are called `la` in it. -/
def storedNodes (cj : CJson) (rows cins : List Row) : Option (List RTNode) := do
  let l ← rowNodes cj 1 rows
  let latest ← rowNodes cj (rows.length + 1) cins
  return l ++ latest.map fun n => { n with rn := "la".toList }

/-! ## The memory -/

/-- Nodes linked as siblings, to the right of `left`. -/
def siblings : (left : Option Nat) → List RTNode → Heap RTNode
  | _, [] => fun _ => none
  | left, x :: l => fun i => if i = x.id then some ⟨x, none, none, left, headId l⟩ else siblings (some x.id) l i

/-- The CSEBase and the list. -/
def startMem (cb : RTNode) (l : List RTNode) : Mem :=
  ⟨fun i => if i = cb.id then some { val := cb } else siblings none l i, []⟩

/-- `init_server`, where the database has the CSEBase; `poa` is made of the addresses of the server. -/
def initServer (cj : CJson) (poa : Json) (db : Db) : Option RTNode := do
  let r ← db.find? fun r => r.ri = some cseBaseRi && r.ty = .cse
  let o ← r.reread cj
  let rr ← o.get .rr
  createRtnode 0 (Assoc.set o .rr (.bool (rr.valueint = 1)) ++ [(.poa, poa)]) .cse

/-- `init_resource_tree`, below the CSEBase. -/
def initResourceTree (cj : CJson) (fuel : Nat) (cb : RTNode) (rows cins : List Row) : Option Mem := do
  let l ← storedNodes cj rows cins
  let (m, _) ← Mem.restructResourceTree fuel (startMem cb l) cb.id (headId l)
  return m

/-- `bootstrap_cse` on a database that has the CSEBase; the two queries give their rows in any order. -/
def restart (cj : CJson) (poa : Json) (db : Db) (rows cins : List Row) (fuel : Nat) : Option Mem := do
  let cb ← initServer cj poa db
  initResourceTree cj fuel cb rows cins

/-! ## The nodes of rows -/

section Rows

variable {cj : CJson}

/-- The attributes by which a row is placed are strings, and its address and its identifiers come back as they are. -/
structure Row.Identified (cj : CJson) (r : Row) : Prop where
  uri : Comes .postgresql cj .uri (.str r.uri)
  ri : ∃ s, r.obj.get .ri = some (.str s) ∧ Comes .postgresql cj .ri (.str s)
  pi : ∀ v, r.obj.get .pi = some v → ∃ s, v = .str s ∧ Comes .postgresql cj .pi v
  rn : ∃ s, r.obj.get .rn = some (.str s)

/-- The name comes back as a string: it is no number, and does not parse as an array or an object. -/
def Row.NameComes (cj : CJson) (r : Row) : Prop := ∀ v, r.obj.get .rn = some v → Comes .postgresql cj .rn v

/-- What a row shows of its resource after a restart. -/
def Row.face (r : Row) : ResourceType × Option CStr × Option CStr × CStr :=
  (r.ty, r.ri, some (r.pi.getD []), if r.ty = .cin then "la".toList else (r.obj.str .rn).getD [])

/-- What a node shows. -/
def RTNode.face (n : RTNode) : ResourceType × Option CStr × Option CStr × CStr := (n.ty, n.ri, n.pi, n.rn)

/-- The node is made from the row. -/
structure MadeFrom (x : RTNode) (r : Row) : Prop where
  face : x.face = r.face
  subs : x.subs = []
  subCnt : x.subCnt = 0

theorem cell_reread {r : Row} {o : Obj} {k : Attr} (h : r.reread cj = some o) (hk : k ∈ generalAttrs) :
    o.get k = readCell .postgresql cj k (if k = .uri then .text r.uri else bindValue .postgresql cj (r.obj.get k)) := by
  unfold Row.reread readColumns storeColumns at h
  split at h
  · cases h
    rw [List.filterMap_map]
    exact get_filterMap (f := fun k => readCell .postgresql cj k
      (if k = .uri then .text r.uri else bindValue .postgresql cj (r.obj.get k))) (List.mem_append_left _ hk)
  · cases h

theorem get_reread {r : Row} {o : Obj} {k : Attr} (h : r.reread cj = some o) (hk : k ∈ generalAttrs) (hne : k ≠ .uri) :
    o.get k = readCell .postgresql cj k (bindValue .postgresql cj (r.obj.get k)) := by
  rw [cell_reread h hk, if_neg hne]

theorem uri_reread {r : Row} {o : Obj} (hr : r.Identified cj) (h : r.reread cj = some o) : o.get .uri = some (.str r.uri) := by
  rw [cell_reread h (by decide), if_pos rfl]
  exact readCell_text_str.mpr hr.uri

theorem reread_some (cj : CJson) (r : Row) : ∃ o, r.reread cj = some o := by
  refine ⟨_, if_pos (List.all_eq_true.mpr fun c _ => ?_)⟩
  unfold fits
  split <;> rfl

/-- A column that is read as a string is read as the string in it. -/
theorem str_readCell {k : Attr} {s t : CStr}
    (h : (readCell .postgresql cj k (.text s)).bind Json.valuestring = some t) :
    Comes .postgresql cj k (.str s) ∧ t = s := by
  obtain ⟨v, hv, ht⟩ := Option.bind_eq_some_iff.mp h
  suffices hs : v = .str s by
    subst hs
    exact ⟨readCell_text_str.mp hv, (Option.some.inj ht).symm⟩
  change readText cj k s = some v at hv
  unfold readText at hv
  split at hv
  · cases hv
  · split at hv
    · split at hv
      · cases hv
        by_cases hk : k = .fcied
        · rw [if_pos hk] at ht
          cases ht
        · rw [if_neg hk] at ht
          cases ht
      · exact (Option.some.inj hv).symm
    · -- what is not plain parses as an array or an object
      rename_i hplain
      obtain ⟨j, hj, hcon⟩ := plainText_eq_false.mp (Bool.eq_false_iff.mpr hplain)
      cases Option.some.inj (hv.symm.trans hj)
      cases v with
      | arr l => cases ht
      | obj m => cases ht
      | _ => cases hcon

theorem createRtnode_isSome_iff {id : Nat} {o : Obj} {ty : ResourceType} {uri : CStr} (hu : o.get .uri = some (.str uri)) :
    (∃ n, createRtnode id o ty = some n) ↔ ∃ s, o.str .rn = some s := by
  constructor
  · rintro ⟨n, hn⟩
    exact ⟨n.rn, (createRtnode_some hn).2.2.1⟩
  · rintro ⟨s, hs⟩
    exact createRtnode_isSome hs hu id ty

/-- The node of a row: it is made where the name comes back. -/
theorem rowNode_iff {r : Row} {o : Obj} (hr : r.Identified cj) (ho : r.reread cj = some o) (id : Nat) :
    (∃ n, createRtnode id o r.ty = some n) ↔ r.NameComes cj := by
  obtain ⟨s, hs⟩ := hr.rn
  have hget : o.get .rn = readCell .postgresql cj .rn (.text s) := by
    rw [get_reread ho (by decide) (by decide), hs]
    rfl
  rw [createRtnode_isSome_iff (uri_reread hr ho)]
  unfold Obj.str
  rw [hget]
  constructor
  · rintro ⟨t, ht⟩ v hv
    cases hs.symm.trans hv
    exact (str_readCell ht).1
  · intro h
    rw [readCell_text_str.mpr (h _ hs)]
    exact ⟨s, rfl⟩

theorem rowNode_face {r : Row} {o : Obj} {id : Nat} {n : RTNode} (hr : r.Identified cj) (ho : r.reread cj = some o)
    (hn : createRtnode id o r.ty = some n) :
    n.ty = r.ty ∧ n.ri = r.ri ∧ n.pi = some (r.pi.getD []) ∧ n.rn = (r.obj.str .rn).getD [] := by
  obtain ⟨-, hty, hrn, -, -, -, -, hkeep, -⟩ := createRtnode_some hn
  obtain ⟨i, hi, hci⟩ := hr.ri
  obtain ⟨s, hs⟩ := hr.rn
  have hget : ∀ k ∈ generalAttrs, k ≠ .uri → k ∉ rewritten →
      n.obj.get k = readCell .postgresql cj k (bindValue .postgresql cj (r.obj.get k)) := fun k hk hne hout =>
    (hkeep k hout).trans (get_reread ho hk hne)
  refine ⟨hty, ?_, ?_, ?_⟩
  · unfold RTNode.ri Row.ri Obj.str
    rw [hget .ri (by decide) (by decide) (by decide), hi]
    exact congrArg (·.bind Json.valuestring) (readCell_text_str.mpr hci)
  · unfold RTNode.pi Row.pi Obj.str
    rw [hget .pi (by decide) (by decide) (by decide)]
    cases hpi : r.obj.get .pi with
    | none => rfl
    | some v =>
      obtain ⟨p, rfl, hcp⟩ := hr.pi v hpi
      rw [show readCell .postgresql cj .pi (bindValue .postgresql cj (some (.str p))) = some (.str p) from
        readCell_text_str.mpr hcp]
      rfl
  · have hrn' := hrn
    unfold Obj.str at hrn' ⊢
    rw [get_reread ho (by decide) (by decide), hs] at hrn'
    rw [hs, (str_readCell hrn').2]
    rfl

theorem rowNodes_some {rows : List Row} (hid : ∀ r ∈ rows, r.Identified cj) (hn : ∀ r ∈ rows, r.NameComes cj) (id : Nat) :
    ∃ l, rowNodes cj id rows = some l ∧ l.map RTNode.id = List.range' id rows.length ∧
      List.Forall₂ (fun x r => r ∈ rows ∧ x.ty = r.ty ∧ x.ri = r.ri ∧ x.pi = some (r.pi.getD []) ∧
        x.rn = (r.obj.str .rn).getD [] ∧ x.subs = [] ∧ x.subCnt = 0) l rows := by
  induction rows generalizing id with
  | nil => exact ⟨[], rfl, rfl, .nil⟩
  | cons r rows ih =>
    obtain ⟨o, ho⟩ := reread_some cj r
    have hr := hid r List.mem_cons_self
    obtain ⟨n, hnode⟩ := (rowNode_iff hr ho id).mpr (hn r List.mem_cons_self)
    obtain ⟨l, hl, hids, hall⟩ := ih (fun q hq => hid q (List.mem_cons_of_mem _ hq))
      (fun q hq => hn q (List.mem_cons_of_mem _ hq)) (id + 1)
    obtain ⟨hty, hri, hpi, hrn⟩ := rowNode_face hr ho hnode
    obtain ⟨hnid, -, -, -, -, hsubs, hcnt, -⟩ := createRtnode_some hnode
    refine ⟨n :: l, ?_, ?_, .cons ⟨List.mem_cons_self, hty, hri, hpi, hrn, hsubs, hcnt⟩
      (hall.imp fun _ _ h => ⟨List.mem_cons_of_mem _ h.1, h.2⟩)⟩
    · simp only [rowNodes, ho, hnode, hl, Option.bind_eq_bind, Option.bind_some, Option.pure_def]
    · rw [List.map_cons, hids, hnid, List.length_cons, List.range'_succ]

theorem nameComes_of_rowNodes {rows : List Row} (hid : ∀ r ∈ rows, r.Identified cj) {id : Nat} {l : List RTNode}
    (h : rowNodes cj id rows = some l) : ∀ r ∈ rows, r.NameComes cj := by
  induction rows generalizing id l with
  | nil => exact fun _ hr => (List.not_mem_nil hr).elim
  | cons r rows ih =>
    simp only [rowNodes, Option.bind_eq_bind, Option.bind_eq_some_iff] at h
    obtain ⟨o, ho, n, hn, l', hl', -⟩ := h
    refine List.forall_mem_cons.mpr ⟨(rowNode_iff (hid r List.mem_cons_self) ho id).mp ⟨n, hn⟩, ?_⟩
    exact ih (fun q hq => hid q (List.mem_cons_of_mem _ hq)) hl'

/-- The list is made where every name comes back. -/
theorem storedNodes_some {rows cins : List Row} (hid : ∀ r ∈ rows ++ cins, r.Identified cj)
    (hrows : ∀ r ∈ rows, r.ty ≠ .cin) (hcins : ∀ r ∈ cins, r.ty = .cin) (hn : ∀ r ∈ rows ++ cins, r.NameComes cj) :
    ∃ l, storedNodes cj rows cins = some l ∧ l.map RTNode.id = List.range' 1 (rows.length + cins.length) ∧
      List.Forall₂ MadeFrom l (rows ++ cins) := by
  rw [List.forall_mem_append] at hid hn
  obtain ⟨l₁, h₁, hids₁, hall₁⟩ := rowNodes_some hid.1 hn.1 1
  obtain ⟨l₂, h₂, hids₂, hall₂⟩ := rowNodes_some hid.2 hn.2 (rows.length + 1)
  refine ⟨l₁ ++ l₂.map fun n => { n with rn := "la".toList }, ?_, ?_, List.rel_append (hall₁.imp ?_) ?_⟩
  · simp only [storedNodes, h₁, h₂, Option.bind_eq_bind, Option.bind_some, Option.pure_def]
  · rw [List.map_append, List.map_map,
      show RTNode.id ∘ (fun n : RTNode => { n with rn := "la".toList }) = RTNode.id from rfl, hids₁, hids₂,
      Nat.add_comm rows.length 1, List.range'_append_1]
  · rintro x r ⟨hr, hty, hri, hpi, hrn, hsubs, hcnt⟩
    refine ⟨?_, hsubs, hcnt⟩
    unfold RTNode.face Row.face
    rw [if_neg (hrows r hr), hty, hri, hpi, hrn]
  · rw [List.forall₂_map_left_iff]
    refine hall₂.imp ?_
    rintro x r ⟨hr, hty, hri, hpi, -, hsubs, hcnt⟩
    refine ⟨?_, hsubs, hcnt⟩
    unfold Row.face
    rw [if_pos (hcins r hr), ← hty, ← hri, ← hpi]
    rfl

end Rows

/-! ## What the pointer operations leave alone -/

section Kept

variable {β : Type} {g : Cell RTNode → β} {f : Cell RTNode → Cell RTNode} {h h' : Heap RTNode}

/-- What an assignment does not see it does not change in any cell. -/
theorem map_assign {i : Nat} (he : h.assign i f = some h') (hg : ∀ c, h i = some c → g (f c) = g c) (j : Nat) :
    (h' j).map g = (h j).map g := by
  obtain ⟨c, hc, rfl⟩ := Option.map_eq_some_iff.mp he
  by_cases hj : j = i
  · subst hj
    rw [Heap.set_self, hc, Option.map_some, Option.map_some, hg c hc]
  · rw [Heap.set_ne hj]

theorem map_assignOpt {q : Option Nat} (he : h.assignOpt q f = some h') (hg : ∀ c, g (f c) = g c) (j : Nat) :
    (h' j).map g = (h j).map g := by
  cases q with
  | none => cases he; rfl
  | some i => exact map_assign he (fun c _ => hg c) j

end Kept

/-- A node without its address in the tree. -/
def RTNode.unplaced (n : RTNode) : RTNode := { n with uri := [] }

/-- What relinking a cell leaves of it: the node, and the parent. -/
def kept (c : Cell RTNode) : RTNode × Option Nat := (c.val.unplaced, c.parent)

theorem map_kept_detach {h h' : Heap RTNode} {n : Nat} (he : Mem.detach h n = some h') (j : Nat) :
    (h' j).map kept = (h j).map kept := by
  unfold Mem.detach at he
  simp only [Option.bind_eq_bind, Option.bind_eq_some_iff] at he
  obtain ⟨c, -, h₁, h1, h₂, h2, h3⟩ := he
  rw [map_assign h3 (fun _ _ => rfl), map_assignOpt h2 fun _ => rfl, map_assignOpt h1 fun _ => rfl]

/-- Linking a node among the children of `p` leaves every cell what it is, its own parent being `p` already. -/
theorem map_kept_linkChild {fuel p x : Nat} {ty : ResourceType} {node : Option Nat} {h h' : Heap RTNode}
    (he : Mem.linkChild fuel h p x ty node = some h') (hx : ∀ c, h x = some c → c.parent = some p) (j : Nat) :
    (h' j).map kept = (h j).map kept := by
  cases node with
  | none => exact map_assign he (fun _ _ => rfl) j
  | some n =>
    simp only [Mem.linkChild, Option.bind_eq_bind, Option.bind_eq_some_iff] at he
    obtain ⟨n', -, c, -, parent, -, he⟩ := he
    split at he
    · -- before the first child
      unfold Mem.linkFirst at he
      simp only [Option.bind_eq_bind, Option.bind_eq_some_iff] at he
      obtain ⟨h₁, h1, h₂, h2, h₃, h3, h4⟩ := he
      have hx₁ : ∀ c, h₁ x = some c → c.parent = some p := by
        intro c hc
        have := map_assign (g := Cell.parent) h1 (fun _ _ => rfl) x
        rw [hc] at this
        obtain ⟨d, hd, hp⟩ := Option.map_eq_some_iff.mp this.symm
        rw [← hp]
        exact hx d hd
      rw [map_assign h4 (fun _ _ => rfl), map_assign h3 (fun _ _ => rfl),
        map_assign h2 (fun c hc => by simp only [kept, hx₁ c hc]), map_assign h1 fun _ _ => rfl]
    · -- after another one
      unfold Mem.linkAfter at he
      simp only [Option.bind_eq_bind, Option.bind_eq_some_iff] at he
      obtain ⟨d, -, he⟩ := he
      cases hr : d.right with
      | none =>
        simp only [hr, Option.bind_eq_some_iff] at he
        obtain ⟨h₁, h1, h₂, h2, h3⟩ := he
        cases h1
        rw [map_assign h3 (fun _ _ => rfl), map_assign h2 fun _ _ => rfl]
      | some r =>
        simp only [hr, Option.bind_eq_some_iff] at he
        obtain ⟨h₀, h1, h₁, h2, h₂, h3, h4⟩ := he
        rw [map_assign h4 (fun _ _ => rfl), map_assign h3 (fun _ _ => rfl), map_assign h2 (fun _ _ => rfl),
          map_assign h1 fun _ _ => rfl]

/-- A new child that is no subscription: its parent is set, and a CSR goes on the list of CSRs. -/
theorem map_kept_addChildResourceTree {fuel p x : Nat} {m m' : Mem} (he : m.addChildResourceTree fuel p x = some m')
    (hty : ∀ c, m.heap x = some c → c.val.ty ≠ .sub) : ∃ c, m.heap x = some c ∧
      (∀ j, (m'.heap j).map kept = if j = x then some (c.val.unplaced, some p) else (m.heap j).map kept) ∧
      m'.csrList = if c.val.ty = .csr then m.csrList ++ [x] else m.csrList := by
  unfold Mem.addChildResourceTree at he
  simp only [Option.bind_eq_bind, Option.bind_eq_some_iff] at he
  obtain ⟨parent, -, h₁, h1, h₂, h2, child, hchild, h₃, h3, he⟩ := he
  obtain ⟨c, hc, rfl⟩ := Option.map_eq_some_iff.mp h1
  obtain ⟨c₁, hc₁, rfl⟩ := Option.map_eq_some_iff.mp h2
  rw [Heap.set_self] at hc₁ hchild
  cases hc₁
  cases hchild
  simp only [hty c hc, if_false, Option.bind_some] at he
  cases he
  refine ⟨c, hc, fun j => ?_, rfl⟩
  refine (map_kept_linkChild h3 (fun d hd => ?_) j).trans ?_
  · rw [Heap.set_self] at hd
    cases hd
    rfl
  · split
    · rename_i hj
      rw [hj, Heap.set_self]
      rfl
    · rename_i hj
      rw [Heap.set_ne hj, Heap.set_ne hj]

/-! ## A whole run -/

section Run

variable {P : Mem → Prop} (hdetach : ∀ m n h, P m → Mem.detach m.heap n = some h → P { m with heap := h })
  (hadd : ∀ m fuel p x m', P m → m.addChildResourceTree fuel p x = some m' → P m')

include hdetach hadd in
theorem keeps_attach {fuel parent : Nat} : ∀ {passes : Nat} {m m' : Mem} {list rtnode l : Option Nat}, P m →
    Mem.attach fuel parent passes m list rtnode = some (m', l) → P m'
  | 0, _, _, _, _, _, _, he => by cases he
  | _ + 1, m, _, _, none, _, hm, he => by cases he; exact hm
  | passes + 1, m, m', list, some n, l, hm, he => by
    simp only [Mem.attach, Option.bind_eq_bind, Option.bind_eq_some_iff] at he
    obtain ⟨c, -, p, -, ri, -, pi, -, he⟩ := he
    split at he
    · simp only [Option.bind_eq_some_iff] at he
      obtain ⟨h, hdet, m₁, hm₁, he⟩ := he
      exact keeps_attach (hadd _ _ _ _ _ (hdetach _ _ _ hm hdet) hm₁) he
    · exact keeps_attach hm he

theorem keeps_restructChildren {restruct : Mem → Nat → Option Nat → Option (Mem × Option Nat)}
    (hrec : ∀ m n l m' l', P m → restruct m n l = some (m', l') → P m') : ∀ {passes : Nat} {m m' : Mem}
    {list child l : Option Nat}, P m → Mem.restructChildren restruct passes m list child = some (m', l) → P m'
  | 0, _, _, _, _, _, _, he => by cases he
  | _ + 1, m, _, _, none, _, hm, he => by cases he; exact hm
  | passes + 1, m, m', list, some n, l, hm, he => by
    simp only [Mem.restructChildren, Option.bind_eq_bind, Option.bind_eq_some_iff] at he
    obtain ⟨⟨m₁, list₁⟩, h1, c, -, he⟩ := he
    exact keeps_restructChildren hrec (hrec _ _ _ _ _ hm h1) he

include hdetach hadd in
/-- What taking a node out of the list and hanging it below another keeps, `restruct_resource_tree` keeps. -/
theorem keeps_restructResourceTree : ∀ {fuel : Nat} {m m' : Mem} {parent : Nat} {list l : Option Nat}, P m →
    Mem.restructResourceTree fuel m parent list = some (m', l) → P m'
  | 0, _, _, _, _, _, _, he => by cases he
  | fuel + 1, m, m', parent, list, l, hm, he => by
    simp only [Mem.restructResourceTree, Option.bind_eq_bind, Option.bind_eq_some_iff] at he
    obtain ⟨⟨m₁, list₁⟩, h1, p, -, he⟩ := he
    exact keeps_restructChildren (fun _ _ _ _ _ hm h => keeps_restructResourceTree hm h)
      (keeps_attach hdetach hadd hm h1) he

end Run

/-! ## The list in memory -/

theorem linked_siblings {l : List RTNode} (hd : (l.map RTNode.id).Nodup) (left : Option Nat) :
    Linked RTNode.id (siblings left l) none left (.ofList l) := by
  induction l generalizing left with
  | nil => trivial
  | cons x l ih =>
    rw [List.map_cons, List.nodup_cons] at hd
    refine ⟨?_, trivial, (ih hd.2 (some x.id)).congr fun i hi => if_neg ?_⟩
    · rw [first_ofList]
      exact if_pos rfl
    · rintro rfl
      rw [addrs_ofList] at hi
      exact hd.1 hi

theorem siblings_some {l : List RTNode} {left : Option Nat} {i : Nat} {c : Cell RTNode} (h : siblings left l i = some c) :
    c.val ∈ l ∧ c.val.id = i ∧ c.parent = none := by
  induction l generalizing left with
  | nil => cases h
  | cons x l ih =>
    unfold siblings at h
    split at h
    · rename_i hi
      cases h
      exact ⟨List.mem_cons_self, hi.symm, rfl⟩
    · obtain ⟨hm, hid, hp⟩ := ih h
      exact ⟨List.mem_cons_of_mem _ hm, hid, hp⟩

section Start

variable {cb : RTNode} {l : List RTNode}

theorem site_startMem (hd : ((cb :: l).map RTNode.id).Nodup) : Site (startMem cb l) cb none none none .nil l := by
  rw [List.map_cons, List.nodup_cons] at hd
  refine ⟨if_pos rfl, trivial, ?_, ?_⟩
  · refine (linked_siblings hd.2 none).congr fun i hi => if_neg ?_
    rintro rfl
    rw [addrs_ofList] at hi
    exact hd.1 hi
  · exact List.nodup_cons.mpr hd

theorem startMem_some {i : Nat} {c : Cell RTNode} (h : (startMem cb l).heap i = some c) :
    c.val ∈ cb :: l ∧ c.val.id = i ∧ c.parent = none := by
  change (if i = cb.id then some { val := cb } else siblings none l i) = some c at h
  split at h
  · rename_i hi
    cases h
    exact ⟨List.mem_cons_self, hi.symm, rfl⟩
  · obtain ⟨hm, hid, hp⟩ := siblings_some h
    exact ⟨List.mem_cons_of_mem _ hm, hid, hp⟩

/-- The cell is that of a CSR with a parent. -/
def HangsCsr (h : Heap RTNode) (i : Nat) : Prop := ∃ c, h i = some c ∧ c.val.ty = .csr ∧ c.parent.isSome

theorem hangsCsr_congr {h h' : Heap RTNode} {i : Nat} (hk : (h' i).map kept = (h i).map kept) :
    HangsCsr h' i ↔ HangsCsr h i := by
  unfold HangsCsr
  cases hc : h i with
  | none =>
    rw [hc] at hk
    rw [Option.map_eq_none_iff.mp hk]
  | some c =>
    rw [hc] at hk
    obtain ⟨d, hd, he⟩ := Option.map_eq_some_iff.mp hk
    have hty : d.val.ty = c.val.ty := congrArg (RTNode.ty ∘ Prod.fst) he
    have hpar : d.parent = c.parent := congrArg Prod.snd he
    simp only [hd, Option.some.injEq, exists_eq_left', hty, hpar]

theorem same_unplaced {h h' : Heap RTNode} {i : Nat} (hk : (h' i).map kept = (h i).map kept) :
    (h' i).map (fun c => c.val.unplaced) = (h i).map fun c => c.val.unplaced := by
  have := congrArg (Option.map Prod.fst) hk
  rwa [Option.map_map, Option.map_map] at this

/-- What holds of the memory all along: no subscription in it, and the CSRs that have a parent are on the list. -/
structure Underway (m₀ m : Mem) : Prop where
  cells : ∀ i, (m.heap i).map (fun c => c.val.unplaced) = (m₀.heap i).map fun c => c.val.unplaced
  plain : ∀ i c, m₀.heap i = some c → c.val.ty ≠ .sub
  csrs : ∀ i, i ∈ m.csrList ↔ HangsCsr m.heap i

namespace Underway

variable {m₀ m m' : Mem}

theorem ty_ne_sub (h : Underway m₀ m) {i : Nat} {c : Cell RTNode} (hc : m.heap i = some c) : c.val.ty ≠ .sub := by
  have := h.cells i
  rw [hc] at this
  obtain ⟨d, hd, he⟩ := Option.map_eq_some_iff.mp this.symm
  rw [show c.val.ty = d.val.ty from (congrArg RTNode.ty he).symm]
  exact h.plain i d hd

/-- A change that `kept` does not see. -/
theorem of_kept (h : Underway m₀ m) (hk : ∀ i, (m'.heap i).map kept = (m.heap i).map kept) (hl : m'.csrList = m.csrList) :
    Underway m₀ m' := by
  refine ⟨fun i => ?_, h.plain, fun i => ?_⟩
  · rw [← h.cells i]
    exact same_unplaced (hk i)
  · rw [hl, h.csrs, hangsCsr_congr (hk i)]

theorem detach (h : Underway m₀ m) {n : Nat} {h' : Heap RTNode} (he : Mem.detach m.heap n = some h') :
    Underway m₀ { m with heap := h' } := h.of_kept (map_kept_detach he) rfl

theorem addChildResourceTree (h : Underway m₀ m) {fuel p x : Nat} (he : m.addChildResourceTree fuel p x = some m') :
    Underway m₀ m' := by
  obtain ⟨c, hc, hkept, hlist⟩ := map_kept_addChildResourceTree he fun c hc => h.ty_ne_sub hc
  have hx : ∃ d, m'.heap x = some d ∧ d.val.ty = c.val.ty ∧ d.parent = some p := by
    have := hkept x
    rw [if_pos rfl] at this
    obtain ⟨d, hd, hk⟩ := Option.map_eq_some_iff.mp this
    exact ⟨d, hd, congrArg (RTNode.ty ∘ Prod.fst) hk, congrArg Prod.snd hk⟩
  have hcell : ∀ {i : Nat}, i ≠ x → (m'.heap i).map kept = (m.heap i).map kept := fun hi => (hkept _).trans (if_neg hi)
  refine ⟨fun i => ?_, h.plain, fun i => ?_⟩
  · rw [← h.cells i]
    by_cases hi : i = x
    · subst hi
      have := congrArg (Option.map Prod.fst) (hkept i)
      rw [if_pos rfl, Option.map_map] at this
      rw [hc]
      exact this
    · exact same_unplaced (hcell hi)
  · by_cases hi : i = x
    · subst hi
      obtain ⟨d, hd, hty, hp⟩ := hx
      rw [hlist]
      constructor
      · intro hin
        refine ⟨d, hd, ?_, by rw [hp]; rfl⟩
        rw [hty]
        by_cases hcsr : c.val.ty = .csr
        · exact hcsr
        · rw [if_neg hcsr, h.csrs] at hin
          obtain ⟨e, he, hte, -⟩ := hin
          rw [hc] at he
          cases he
          exact hte
      · rintro ⟨e, he, hte, -⟩
        rw [hd] at he
        cases he
        rw [if_pos (hty.symm.trans hte)]
        exact List.mem_append_right _ (List.mem_singleton_self _)
    · have hin : i ∈ m'.csrList ↔ i ∈ m.csrList := by
        rw [hlist]
        split
        · rw [List.mem_append, List.mem_singleton]
          exact or_iff_left hi
        · rfl
      rw [hin, h.csrs, hangsCsr_congr (hcell hi)]

end Underway

theorem underway_startMem (hp : ∀ x ∈ cb :: l, x.ty ≠ .sub) : Underway (startMem cb l) (startMem cb l) := by
  refine ⟨fun _ => rfl, fun i c hc => hp _ (startMem_some hc).1, fun i => ?_⟩
  refine iff_of_false List.not_mem_nil ?_
  rintro ⟨c, hc, -, hpar⟩
  rw [(startMem_some hc).2.2] at hpar
  cases hpar


/-! ## The tree -/

open Classical in
/-- What `restruct_resource_tree` makes of the CSEBase and the list: the nodes that reach the CSEBase, each once, below the
node it names. -/
structure Arranged (cb : RTNode) (l : List RTNode) (t : Forest RTNode) (csrList : List Nat) : Prop where
  root : ∃ c, t = .node cb c .nil
  nodes : (t.nodes.map RTNode.unplaced).Perm (cb.unplaced :: (l.filter fun x => Reaches cb l x).map RTNode.unplaced)
  edges : ∀ a k, (a, k) ∈ t.cells → ∀ b ∈ k.roots, Edge a b
  csrs : ∀ i, i ∈ csrList ↔ ∃ n ∈ t.nodes, n.id = i ∧ n.ty = .csr

theorem parent_of_root {h : Heap RTNode} {par left : Option Nat} {t : Forest RTNode} (hl : Linked RTNode.id h par left t)
    {b : RTNode} (hb : b ∈ t.roots) : ∃ c, h b.id = some c ∧ c.val = b ∧ c.parent = par := by
  induction t generalizing left with
  | nil => cases hb
  | node a d s _ ih =>
    rcases List.mem_cons.mp hb with rfl | hb
    · exact ⟨_, hl.1, rfl, rfl⟩
    · exact ih hl.2.2 hb

theorem nodup_unplaced {l : List RTNode} (hd : (l.map RTNode.id).Nodup) : (l.map RTNode.unplaced).Nodup := by
  refine List.Nodup.of_map RTNode.id ?_
  rwa [List.map_map, show RTNode.id ∘ RTNode.unplaced = RTNode.id from rfl]

open Classical in
/-- `restruct_resource_tree` on a list without subscriptions. -/
theorem arranged (hd : ((cb :: l).map RTNode.id).Nodup) (hri : ∀ x ∈ cb :: l, x.ri.isSome) (hpi : ∀ x ∈ l, x.pi.isSome)
    (hsub : ∀ x ∈ cb :: l, x.ty ≠ .sub) (hcsr : cb.ty ≠ .csr) :
    ∃ m rest t, Returns (fun fuel => Mem.restructResourceTree fuel (startMem cb l) cb.id (headId l)) (m, rest) ∧
      Linked RTNode.id m.heap none none t ∧ (addrs RTNode.id t).Nodup ∧ Arranged cb l t m.csrList := by
  obtain ⟨m, cb', k, rest, hret, hs, hcb, hroots, hcells, hrest, hperm, hsubl, -⟩ := restructs l.length (Nat.le_refl _)
    (site_startMem hd) (hri cb List.mem_cons_self) fun x hx => ⟨hri x (List.mem_cons_of_mem _ hx), hpi x hx⟩
  have hunder : Underway (startMem cb l) m := by
    obtain ⟨N, hN⟩ := hret
    exact keeps_restructResourceTree (P := Underway (startMem cb l)) (fun _ _ _ h he => h.detach he)
      (fun _ _ _ _ _ h he => h.addChildResourceTree he) (underway_startMem hsub) (hN N (Nat.le_refl _))
  have hid : cb'.id = cb.id := (RTNode.eq_of_core hcb.1).1
  have hdl := (List.nodup_cons.mp hd).2
  have hds := List.nodup_cons.mp hs.nodup
  have hdk : (k.nodes.map RTNode.id).Nodup := (List.nodup_append.mp hds.2).1
  have hlink : Linked RTNode.id m.heap none none (.node cb' k .nil) := ⟨hs.node, hs.kids, trivial⟩
  -- a cell is that of the node it was made for
  have horigin : ∀ i c, m.heap i = some c → ∃ x ∈ cb :: l, x.id = i ∧ c.val.unplaced = x.unplaced := by
    intro i c hc
    have := hunder.cells i
    rw [hc] at this
    obtain ⟨d, hd, he⟩ := Option.map_eq_some_iff.mp this.symm
    obtain ⟨hm, hdi, -⟩ := startMem_some hd
    exact ⟨d.val, hm, hdi, he.symm⟩
  have hroot : cb'.unplaced = cb.unplaced := by
    obtain ⟨x, hx, hxi, he⟩ := horigin _ _ hs.node
    rw [hid] at hxi
    rw [List.inj_on_of_nodup_map hd hx List.mem_cons_self hxi] at he
    exact he
  have hnode : ∀ n ∈ k.nodes, ∃ x ∈ l, n.unplaced = x.unplaced := by
    intro n hn
    obtain ⟨c, hc, rfl⟩ := hs.kids.cell_of_mem hn
    obtain ⟨x, hx, hxi, he⟩ := horigin _ _ hc
    rcases List.mem_cons.mp hx with rfl | hx
    · exact absurd (List.mem_append_left _ (hid.trans hxi ▸ List.mem_map_of_mem hn)) hds.1
    · exact ⟨x, hx, he⟩
  have hput : ∀ x ∈ l, x ∉ rest → ∃ n ∈ k.nodes, n.unplaced = x.unplaced := by
    intro x hx hxr
    obtain ⟨a, ha, he⟩ := List.mem_map.mp (hperm.mem_iff.mpr (List.mem_map_of_mem hx))
    have hax := (RTNode.eq_of_core he).1
    rcases List.mem_append.mp ha with ha | ha
    · obtain ⟨y, hy, hay⟩ := hnode a ha
      have hyx : y.id = x.id := (congrArg RTNode.id hay).symm.trans hax
      exact ⟨a, ha, List.inj_on_of_nodup_map hdl hy hx hyx ▸ hay⟩
    · exact absurd (List.inj_on_of_nodup_map hdl (hsubl.subset ha) hx hax ▸ ha) hxr
  have hleft : ∀ x, Reaches cb l x → x ∉ rest := by
    intro x hx
    induction hx with
    | direct _ hp => exact fun hr => (hrest _ hr).1 hp
    | @through x y _ hy hp ih =>
      intro hr
      obtain ⟨a, ha, he⟩ := hput y hy.mem ih
      exact (hrest x hr).2 a ha (hp.trans (congrArg RTNode.ri he).symm)
  have hreach : ∀ n ∈ k.nodes, ∃ x, Reaches cb l x ∧ n.unplaced = x.unplaced := by
    intro n hn
    refine Forest.forall_nodes (P := fun n => n ∈ k.nodes → ∃ x, Reaches cb l x ∧ n.unplaced = x.unplaced) ?_ ?_ hn hn
    · intro b hb hbk
      obtain ⟨x, hx, he⟩ := hnode b hbk
      exact ⟨x, .direct hx ((congrArg RTNode.pi he).symm.trans (hroots b hb).1), he⟩
    · intro a c hac iha b hb hbk
      obtain ⟨y, hy, hay⟩ := iha (Forest.mem_nodes_of_cell hac)
      obtain ⟨x, hx, he⟩ := hnode b hbk
      refine ⟨x, .through hx hy ?_, he⟩
      have hpi : b.unplaced.pi = x.unplaced.pi := congrArg RTNode.pi he
      have hri : a.unplaced.ri = y.unplaced.ri := congrArg RTNode.ri hay
      exact hpi.symm.trans ((hcells a c hac b hb).1.trans hri)
  have hsame : cb' = cb := by
    rw [show cb' = { cb'.unplaced with uri := cb'.uri } from rfl, hroot, hcb.2]
    rfl
  refine ⟨m, headId rest, .node cb' k .nil, hret, hlink, ?_, ⟨k, by rw [hsame]⟩, ?_, ?_, fun i => ?_⟩
  · rw [addrs_node, addrs_nil, List.append_nil]
    exact List.nodup_cons.mpr ⟨fun h => hds.1 (List.mem_append_left _ h), hdk⟩
  · rw [Forest.nodes, Forest.nodes, List.append_nil, List.map_cons, hroot]
    refine List.Perm.cons _ ((List.perm_ext_iff_of_nodup (nodup_unplaced hdk)
      (nodup_unplaced (hdl.sublist (List.filter_sublist.map _)))).mpr fun y => ?_)
    rw [List.mem_map, List.mem_map]
    constructor
    · rintro ⟨n, hn, rfl⟩
      obtain ⟨x, hx, he⟩ := hreach n hn
      exact ⟨x, List.mem_filter.mpr ⟨hx.mem, decide_eq_true hx⟩, he.symm⟩
    · rintro ⟨x, hx, rfl⟩
      have hx' := of_decide_eq_true (List.mem_filter.mp hx).2
      exact hput x hx'.mem (hleft x hx')
  · intro a c hac b hb
    simp only [Forest.cells, List.append_nil, List.mem_cons] at hac
    rcases hac with hac | hac
    · cases hac
      exact (hroots b hb).alike hcb ⟨rfl, rfl⟩
    · exact hcells a c hac b hb
  · rw [hunder.csrs]
    constructor
    · rintro ⟨c, hc, hty, hpar⟩
      obtain ⟨x, hx, hxi, he⟩ := horigin _ _ hc
      have hxt : x.ty = .csr := (congrArg RTNode.ty he).symm.trans hty
      rcases List.mem_cons.mp hx with rfl | hx
      · exact absurd hxt hcsr
      · by_cases hxr : x ∈ rest
        · -- what stays in the list has no parent
          obtain ⟨d, hd, -, hdp⟩ := parent_of_root hs.list (b := x) (by rwa [Forest.roots_ofList])
          rw [hxi, hc] at hd
          cases hd
          rw [hdp] at hpar
          cases hpar
        · obtain ⟨n, hn, hnx⟩ := hput x hx hxr
          exact ⟨n, by simp [Forest.nodes, hn], (congrArg RTNode.id hnx).trans hxi, (congrArg RTNode.ty hnx).trans hxt⟩
    · rintro ⟨n, hn, rfl, hty⟩
      rcases Forest.exists_parent hn with hr | ⟨b, d, hbd, hnd⟩
      · rw [Forest.roots, Forest.roots, List.mem_singleton] at hr
        subst hr
        exact absurd ((congrArg RTNode.ty hroot).symm.trans hty) hcsr
      · obtain ⟨c, hc, hcn, hp⟩ := parent_of_root (hlink.of_cell hbd).2 hnd
        exact ⟨c, hc, by rw [hcn]; exact hty, by rw [hp]; rfl⟩

theorem Arranged.from {t : Forest RTNode} {csrList : List Nat} (h : Arranged cb l t csrList) {n : RTNode}
    (hn : n ∈ t.nodes) : ∃ x ∈ cb :: l, n.unplaced = x.unplaced := by
  rcases List.mem_cons.mp (h.nodes.mem_iff.mp (List.mem_map_of_mem hn)) with he | hm
  · exact ⟨cb, List.mem_cons_self, he⟩
  · obtain ⟨x, hx, he⟩ := List.mem_map.mp hm
    exact ⟨x, List.mem_cons_of_mem _ (List.mem_filter.mp hx).1, he.symm⟩

end Start

/-! ## Rows and nodes -/

/-- The chain of `pi` references of a row reaches the CSEBase. -/
inductive Row.Placed (rows : List Row) : Row → Prop where
  | direct {r : Row} : r ∈ rows → r.pi = some cseBaseRi → Placed rows r
  | through {r q : Row} : r ∈ rows → Placed rows q → r.pi = q.ri → Placed rows r

theorem Row.Placed.mem {rows : List Row} {r : Row} (h : r.Placed rows) : r ∈ rows := by
  cases h <;> assumption

section Pairs

variable {α β : Type} {R : α → β → Prop} {l : List α} {l' : List β}

theorem forall₂_mem (h : List.Forall₂ R l l') : List.Forall₂ (fun a b => a ∈ l ∧ b ∈ l' ∧ R a b) l l' := by
  induction h with
  | nil => exact .nil
  | cons hab _ ih =>
    refine .cons ⟨List.mem_cons_self, List.mem_cons_self, hab⟩ (ih.imp fun _ _ h => ?_)
    exact ⟨List.mem_cons_of_mem _ h.1, List.mem_cons_of_mem _ h.2.1, h.2.2⟩

theorem exists_partner (h : List.Forall₂ R l l') {a : α} (ha : a ∈ l) : ∃ b ∈ l', R a b := by
  induction h with
  | nil => cases ha
  | cons hab _ ih =>
    rcases List.mem_cons.mp ha with rfl | ha
    · exact ⟨_, List.mem_cons_self, hab⟩
    · obtain ⟨b, hb, h⟩ := ih ha
      exact ⟨b, List.mem_cons_of_mem _ hb, h⟩

end Pairs

section Faces

variable {cj : CJson} {cb x : RTNode} {l : List RTNode} {rows : List Row} {r : Row}

theorem pi_of_face (h : x.face = r.face) : x.pi = some (r.pi.getD []) := congrArg (fun f => f.2.2.1) h

theorem ri_of_face (h : x.face = r.face) : x.ri = r.ri := congrArg (fun f => f.2.1) h

/-- The identifier of a row is a text that is not empty. -/
theorem Row.Identified.ri_ne_nil (h : r.Identified cj) : ∃ s, r.ri = some s ∧ s ≠ [] := by
  obtain ⟨s, hs, hc⟩ := h.ri
  exact ⟨s, Obj.str_of_get hs, (hc.2 rfl).1⟩

theorem reaches_iff_placed (hcb : cb.ri = some cseBaseRi) (hid : ∀ r ∈ rows, r.Identified cj)
    (hall : List.Forall₂ MadeFrom l rows) (hx : x ∈ l) (hr : r ∈ rows) (h : x.face = r.face) :
    Reaches cb l x ↔ r.Placed rows := by
  constructor
  · intro hreach
    induction hreach generalizing r with
    | @direct x _ hp =>
      rw [hcb, pi_of_face h, Option.some.injEq] at hp
      refine .direct hr ?_
      cases hpi : r.pi with
      | none => rw [hpi] at hp; cases hp
      | some p => rw [hpi] at hp; exact congrArg some hp
    | @through x y _ hy hp ih =>
      obtain ⟨q, hq, hyq⟩ := exists_partner hall hy.mem
      obtain ⟨s, hs, hne⟩ := (hid q hq).ri_ne_nil
      refine .through hr (ih hy.mem hq hyq.face) ?_
      rw [pi_of_face h, ri_of_face hyq.face, hs, Option.some.injEq] at hp
      cases hpi : r.pi with
      | none => rw [hpi] at hp; exact absurd hp.symm hne
      | some p => rw [hpi] at hp; rw [hs]; exact congrArg some hp
  · intro hplaced
    induction hplaced generalizing x with
    | direct _ hp => exact .direct hx (by rw [pi_of_face h, hp, hcb]; rfl)
    | @through r q _ hq hp ih =>
      obtain ⟨y, hy, hyq⟩ := exists_partner hall.flip hq.mem
      obtain ⟨s, hs, -⟩ := (hid q hq.mem).ri_ne_nil
      refine .through hx (ih hy hq.mem hyq.face) ?_
      rw [pi_of_face h, ri_of_face hyq.face, hp, hs]
      rfl

end Faces

open Classical in
/-- The server after a restart: a node for the CSEBase and for each of the rows that reach it, below the node it names and at
the address its names make; the list of the CSRs there are; and nothing of the subscriptions. -/
structure Restarted (cb : RTNode) (rows : List Row) (s : Server) : Prop where
  root : ∃ c, s.tree = .node cb c .nil
  nodes : (s.tree.nodes.map RTNode.face).Perm (cb.face :: (rows.filter fun r => r.Placed rows).map Row.face)
  edges : ∀ a k, (a, k) ∈ s.tree.cells → ∀ b ∈ k.roots, Edge a b
  csrs : ∀ i, i ∈ s.csrList ↔ ∃ n ∈ s.tree.nodes, n.id = i ∧ n.ty = .csr
  told : ∀ now req op addr, s.notifyViaSub now req op (s.resolve addr) = (s, [])
  found : ∀ now addr n, (s.findRtnode now addr).2.deref (s.findRtnode now addr).1 = some n → n.ty ≠ .sub

/-- Without subscriptions in the tree there are none to be told or found. -/
theorem Server.silent {s : Server} (h : ∀ n ∈ s.tree.nodes, n.subs = []) (now : CStr) (req : Req) (op : Operation)
    (addr : CStr) : s.notifyViaSub now req op (s.resolve addr) = (s, []) := by
  have hsubs : ∀ {p : Ptr} {n}, p.Ok s.db → p.deref s = some n → n.subs = [] := by
    intro p n hp hn
    cases p with
    | null => cases hn
    | inTree i => exact h n (node?_mem hn).1
    | loose m q =>
      cases hn
      obtain ⟨r, -, -, -, hs, -⟩ := hp.1
      exact hs
  have hlist : (s.listeners req op (s.resolve addr)).2 = [] := by
    unfold listeners
    dsimp only
    cases hn : (s.resolve addr).deref s with
    | none => rfl
    | some n =>
      have hns := hsubs (resolve_ok addr) hn
      cases op with
      | create => simp only [hns, ite_self]
      | update => simp only [hns, ite_self]
      | delete =>
        dsimp only
        split
        · rfl
        · cases hp : ((s.resolve addr).parent s).deref s with
          | none => rfl
          | some m =>
            have := hsubs (Ptr.parent_ok fun _ _ => resolve_parent_ok) hp
            simp only [Option.map_some, Option.getD_some, this, ite_self]
      | _ => rfl
  unfold notifyViaSub
  rw [hlist]
  split <;> rfl

theorem Server.found_ne_sub {s : Server} (h : ∀ n ∈ s.tree.nodes, n.ty ≠ .sub) {now addr : CStr} {n : RTNode}
    (hn : (s.findRtnode now addr).2.deref (s.findRtnode now addr).1 = some n) : n.ty ≠ .sub := by
  rcases findRtnode_cases (s := s) now addr with hf | ⟨m, -, -, hf⟩ | ⟨m, -, -, -, hf⟩
  · rw [hf] at hn
    cases hn
  · rw [hf] at hn
    have hok := s.resolve_ok addr
    revert hn hok
    cases s.resolve addr with
    | null => exact fun hn _ => by cases hn
    | inTree i => exact fun hn _ => h n (node?_mem hn).1
    | loose m q =>
      intro hn hok
      cases hn
      rcases hok.2 with h | h | h <;> rw [h] <;> decide
  · rw [hf] at hn
    cases hn

/-! ## The restart -/

section

variable {cj : CJson} {poa : Json} {db : Db} {cb : RTNode} {rows cins : List Row}

/-- The CSEBase that is read. -/
theorem initServer_some (hid : ∀ r ∈ db, r.Identified cj) (h : initServer cj poa db = some cb) :
    cb.id = 0 ∧ cb.ty = .cse ∧ cb.ri = some cseBaseRi ∧ cb.subs = [] := by
  unfold initServer at h
  simp only [Option.bind_eq_bind, Option.bind_eq_some_iff] at h
  obtain ⟨r, hr, o, ho, rr, -, hcb⟩ := h
  have hrow := List.find?_some hr
  simp only [Bool.and_eq_true, decide_eq_true_eq] at hrow
  obtain ⟨hcid, hty, -, -, -, hsubs, -, hkeep, -⟩ := createRtnode_some hcb
  obtain ⟨s, hs, hc⟩ := (hid r (List.mem_of_find?_eq_some hr)).ri
  have hri : o.get .ri = some (.str s) := by
    rw [get_reread ho (by decide) (by decide), hs]
    exact readCell_text_str.mpr hc
  have hget : cb.obj.get .ri = some (.str s) := by
    rw [hkeep .ri (by decide)]
    refine (Assoc.get_append _ _ _).trans ?_
    rw [Assoc.get_set_ne (by decide), show Assoc.get o .ri = some (Json.str s) from hri]
    rfl
  refine ⟨hcid, hty, ?_, hsubs⟩
  rw [← hrow.1]
  exact (Obj.str_of_get hget).trans (Obj.str_of_get hs).symm

theorem mem_latestCins {db : Db} {r : Row} (h : r ∈ latestCins db) : r ∈ db ∧ r.ty = .cin := by
  induction db with
  | nil => cases h
  | cons q db ih =>
    unfold latestCins at h
    split at h
    · rename_i hq
      rcases List.mem_cons.mp h with rfl | h
      · rw [Bool.and_eq_true, decide_eq_true_eq] at hq
        exact ⟨List.mem_cons_self, hq.1⟩
      · exact ⟨List.mem_cons_of_mem _ (ih h).1, (ih h).2⟩
    · exact ⟨List.mem_cons_of_mem _ (ih h).1, (ih h).2⟩

open Classical in
/-- From a list that can be made the server comes up. -/
theorem restarts (hcb : initServer cj poa db = some cb) (hid : ∀ r ∈ db, r.Identified cj)
    (hrows : ∀ r ∈ rows, r ∈ db ∧ r.isLoaded = true) (hcins : ∀ r ∈ cins, r ∈ db ∧ r.ty = .cin)
    (hnames : ∀ r ∈ rows ++ cins, r.NameComes cj) :
    ∃ m s, Returns (restart cj poa db rows cins) m ∧ m.Holds s ∧ s.db = db ∧ Restarted cb (rows ++ cins) s := by
  have hin : ∀ r ∈ rows ++ cins, r ∈ db :=
    List.forall_mem_append.mpr ⟨fun r hr => (hrows r hr).1, fun r hr => (hcins r hr).1⟩
  have hid' : ∀ r ∈ rows ++ cins, r.Identified cj := fun r hr => hid r (hin r hr)
  have hload : ∀ r ∈ rows, r.ty ≠ .cin ∧ r.ty ≠ .sub := by
    intro r hr
    have := (hrows r hr).2
    unfold Row.isLoaded at this
    simp only [Bool.and_eq_true, decide_eq_true_eq] at this
    exact this.1
  obtain ⟨l, hl, hids, hall⟩ := storedNodes_some hid' (fun r hr => (hload r hr).1) (fun r hr => (hcins r hr).2) hnames
  obtain ⟨hcid, hcty, hcri, hcsubs⟩ := initServer_some hid hcb
  -- what the nodes of the list are
  have hplain : ∀ x ∈ cb :: l, x.ty ≠ .sub ∧ x.subs = [] ∧ x.ri.isSome := by
    refine List.forall_mem_cons.mpr ⟨⟨by rw [hcty]; decide, hcsubs, by rw [hcri]; rfl⟩, fun x hx => ?_⟩
    obtain ⟨r, hr, hxr⟩ := exists_partner hall hx
    obtain ⟨s, hs, -⟩ := (hid' r hr).ri_ne_nil
    refine ⟨?_, hxr.subs, by rw [ri_of_face hxr.face, hs]; rfl⟩
    rw [show x.ty = r.ty from congrArg Prod.fst hxr.face]
    rcases List.mem_append.mp hr with hr | hr
    · exact (hload r hr).2
    · rw [(hcins r hr).2]
      decide
  have hnodup : ((cb :: l).map RTNode.id).Nodup := by
    rw [List.map_cons, hids, hcid, List.nodup_cons]
    exact ⟨by rw [List.mem_range'_1]; omega, List.nodup_range'⟩
  obtain ⟨m, rest, t, hret, hlink, haddrs, harr⟩ := arranged hnodup (fun x hx => (hplain x hx).2.2) (fun x hx => by
    obtain ⟨r, -, hxr⟩ := exists_partner hall hx
    rw [pi_of_face hxr.face]
    rfl) (fun x hx => (hplain x hx).1) (by rw [hcty]; decide)
  have hsame : ∀ n ∈ t.nodes, n.ty ≠ .sub ∧ n.subs = [] := by
    intro n hn
    obtain ⟨x, hx, he⟩ := harr.from hn
    have hty : n.unplaced.ty = x.unplaced.ty := congrArg RTNode.ty he
    have hsubs : n.unplaced.subs = x.unplaced.subs := congrArg RTNode.subs he
    exact ⟨fun h => (hplain x hx).1 (hty.symm.trans h), hsubs.trans (hplain x hx).2.1⟩
  let s : Server := ⟨t, m.csrList, db, rows.length + cins.length + 1, 0⟩
  refine ⟨m, s, ?_, ⟨hlink, haddrs, rfl⟩, rfl, harr.root, ?_, harr.edges, harr.csrs,
    Server.silent (s := s) fun n hn => (hsame n hn).2,
    fun now addr n => Server.found_ne_sub (s := s) fun n hn => (hsame n hn).1⟩
  · obtain ⟨N, hN⟩ := hret
    refine ⟨N, fun fuel hf => ?_⟩
    unfold restart initResourceTree
    simp only [hcb, hl, hN fuel hf, Option.bind_eq_bind, Option.bind_some, Option.pure_def]
  · -- the nodes under their faces
    have hfaces := harr.nodes.map RTNode.face
    rw [List.map_map, List.map_cons, List.map_map, show RTNode.face ∘ RTNode.unplaced = RTNode.face from rfl] at hfaces
    refine hfaces.trans (List.Perm.of_eq (congrArg (cb.face :: ·) ?_))
    have hfilter := List.rel_filter (p := fun x => decide (Reaches cb l x)) (q := fun r => decide (r.Placed (rows ++ cins)))
      (fun x r (h : x ∈ l ∧ r ∈ rows ++ cins ∧ MadeFrom x r) => by
        simpa using reaches_iff_placed hcri hid' hall h.1 h.2.1 h.2.2.face) (forall₂_mem hall)
    rw [← List.forall₂_eq_eq_eq, List.forall₂_map_left_iff, List.forall₂_map_right_iff]
    exact hfilter.imp fun _ _ h => h.2.2.face

/-- A restart succeeds exactly when the name of every row it loads is read back as a string. It leaves a node for the
CSEBase and for every row that reaches it, and nothing of the subscriptions, whatever order the database gives the rows
in. -/
theorem restarted_iff (hcb : initServer cj poa db = some cb) (hid : ∀ r ∈ db, r.Identified cj)
    (hrows : rows.Perm (db.filter Row.isLoaded)) (hcins : cins.Perm (latestCins db)) :
    (∃ m s, Returns (restart cj poa db rows cins) m ∧ m.Holds s ∧ s.db = db ∧ Restarted cb (rows ++ cins) s) ↔
      ∀ r ∈ rows ++ cins, r.NameComes cj := by
  have hr : ∀ r ∈ rows, r ∈ db ∧ r.isLoaded = true := fun r h => List.mem_filter.mp (hrows.mem_iff.mp h)
  have hc : ∀ r ∈ cins, r ∈ db ∧ r.ty = .cin := fun r h => mem_latestCins (hcins.mem_iff.mp h)
  refine ⟨?_, restarts hcb hid hr hc⟩
  rintro ⟨m, -, ⟨N, hN⟩, -⟩
  have hrun := hN N (Nat.le_refl _)
  unfold restart initResourceTree storedNodes at hrun
  simp only [Option.bind_eq_bind, Option.bind_eq_some_iff] at hrun
  obtain ⟨-, -, l, ⟨l₁, h₁, l₂, h₂, -⟩, -⟩ := hrun
  exact List.forall_mem_append.mpr ⟨nameComes_of_rowNodes (fun r h => hid r (hr r h).1) h₁,
    nameComes_of_rowNodes (fun r h => hid r (hc r h).1) h₂⟩

end

/-- A resource of a client: its type, its identifier, that of its parent, and its name. -/
def plainRow (ty : ResourceType) (uri ri pi rn : String) : Row :=
  ⟨uri.toList, ty, [(.ri, .str ri.toList), (.pi, .str pi.toList), (.rn, .str rn.toList), (.rr, .int 1)]⟩

/-- The CSEBase, a container and its subscription. -/
def subscribedRows : Db :=
  [⟨cseBaseName, .cse, [(.ri, .str cseBaseRi), (.rn, .str cseBaseName), (.rr, .int 1)]⟩,
    plainRow .cnt "TinyIoT/c" "3-1" "tinyiot" "c", plainRow .sub "TinyIoT/c/s" "23-2" "3-1" "s"]

/-- The container comes back without its subscription. -/
theorem restarted_iff_subscribed : ∃ cb, initServer numberCodec .null subscribedRows = some cb ∧
    ∃ m s, Returns (restart numberCodec .null subscribedRows (subscribedRows.filter Row.isLoaded) []) m ∧ m.Holds s ∧
      s.db = subscribedRows ∧ Restarted cb (subscribedRows.filter Row.isLoaded) s := by
  obtain ⟨cb, hcb⟩ : ∃ cb, initServer numberCodec .null subscribedRows = some cb := Option.isSome_iff_exists.mp (by decide)
  have hcomes : ∀ {k : Attr} {s : CStr}, s ≠ [] → Decimal.strtol s = none → Comes .postgresql numberCodec k (.str s) := by
    intro k s hne hnum
    refine ⟨?_, fun _ => ⟨hne, hnum⟩⟩
    show (((Decimal.strtol s).map Json.int).all fun j => !j.isContainer) = true
    rw [hnum]
    rfl
  refine ⟨cb, hcb, ?_⟩
  have := (@restarted_iff numberCodec .null subscribedRows cb (subscribedRows.filter Row.isLoaded) [] hcb ?_ (.refl _)
    (.refl _)).mpr ?_
  · rwa [List.append_nil] at this
  · simp only [subscribedRows, List.forall_mem_cons]
    refine ⟨⟨hcomes (by decide) (by decide), ⟨_, rfl, hcomes (by decide) (by decide)⟩, fun v hv => ?_, ⟨_, rfl⟩⟩,
      ⟨hcomes (by decide) (by decide), ⟨_, rfl, hcomes (by decide) (by decide)⟩, fun v hv => ?_, ⟨_, rfl⟩⟩,
      ⟨hcomes (by decide) (by decide), ⟨_, rfl, hcomes (by decide) (by decide)⟩, fun v hv => ?_, ⟨_, rfl⟩⟩,
      fun _ h => (List.not_mem_nil h).elim⟩
    · cases hv
    · cases hv
      exact ⟨_, rfl, hcomes (by decide) (by decide)⟩
    · cases hv
      exact ⟨_, rfl, hcomes (by decide) (by decide)⟩
  · show ∀ r ∈ [_, _], Row.NameComes numberCodec r
    simp only [List.forall_mem_cons]
    refine ⟨fun v hv => ?_, fun v hv => ?_, fun _ h => (List.not_mem_nil h).elim⟩
    · cases hv
      exact hcomes (by decide) (by decide)
    · cases hv
      exact hcomes (by decide) (by decide)

end TinyIoT
