/-
What a response with child resources depends on. The queries of `db_get_descendants` read the rows below the target
only; so where everything below it inherits what decides about it, the response shows what the originator may retrieve,
and does not change with a value of a resource the originator may not retrieve.
-/
import TinyIoT.Discovery.Retrieve

namespace TinyIoT

/-! ## The rows a query reads -/

/-- The row is below an address, as LIKE compares. -/
def Row.below (b : Backend) (uri : CStr) (r : Row) : Bool := b.like (uri ++ ['/', '%']) r.uri

/-- The same rows are below the address, in the same places of the order. -/
def SameRowsBelow (b : Backend) (uri : CStr) (db db' : Db) : Prop :=
  ((entriesDesc db').filter fun e => e.1.below b uri) = (entriesDesc db).filter fun e => e.1.below b uri

section Query

variable {b : Backend} {print : Json → CStr} {forbidden : List CStr} {uri : CStr} {fc : FilterCriteria} {db db' : Db}
  {details : Bool}

theorem below_of_baseCond {r : Row} (h : baseCond b forbidden uri fc r = true) : r.below b uri = true := by
  unfold baseCond at h
  simp only [Bool.and_eq_true] at h
  exact h.1.1

/-- What is on the page is a row below the target. -/
theorem below_of_pageRows {e : Entry} (h : e ∈ pageRows b print forbidden db uri fc details) :
    e.1 ∈ db ∧ e.1.below b uri = true := by
  obtain ⟨hdb, hbase⟩ := base_of_matching (matching_of_pageRows h)
  exact ⟨hdb, below_of_baseCond hbase⟩

namespace SameRowsBelow

theorem filter_eq (h : SameRowsBelow b uri db db') {f : Entry → Bool} (hf : ∀ e, f e = true → e.1.below b uri = true) :
    (entriesDesc db').filter f = (entriesDesc db).filter f := by
  have hsub : ∀ l : List Entry, (l.filter fun e => e.1.below b uri).filter f = l.filter f := by
    intro l
    rw [List.filter_filter]
    refine List.filter_congr fun e _ => ?_
    cases hfe : f e with
    | false => rfl
    | true => exact hf e hfe
  rw [← hsub, ← hsub (entriesDesc db), h]

theorem rowsWhere_eq (h : SameRowsBelow b uri db db') {c : Cond} (hc : ∀ r, c r = true → r.below b uri = true) :
    rowsWhere db' c = rowsWhere db c :=
  h.filter_eq fun e he => hc e.1 he

theorem typeQuery_eq (h : SameRowsBelow b uri db db') {c : Cond} (hc : ∀ r, c r = true → r.below b uri = true)
    (ty : ResourceType) : typeQuery db' c ty = typeQuery db c ty :=
  h.filter_eq fun e he => hc e.1 (Bool.and_eq_true_iff.mp he).2

theorem unionQuery_eq (h : SameRowsBelow b uri db db') {cond : ResourceType → Option Cond}
    (hc : ∀ ty, ∀ c ∈ cond ty, ∀ r, c r = true → r.below b uri = true) (tys : List ResourceType) :
    unionQuery b db' fc cond tys = unionQuery b db fc cond tys := by
  have hquery : ∀ (f : List Entry → List Entry) ty,
      ((cond ty).map fun c => f (typeQuery db' c ty)) = (cond ty).map fun c => f (typeQuery db c ty) :=
    fun f ty => Option.map_congr fun c hmem => by rw [h.typeQuery_eq (hc ty c hmem)]
  unfold unionQuery
  cases b with
  | postgresql => simp only [hquery (List.take _)]
  | sqlite => simp only [hquery fun l => l]

theorem queryDescendants_eq (h : SameRowsBelow b uri db db') :
    queryDescendants b print forbidden db' uri fc details = queryDescendants b print forbidden db uri fc details := by
  unfold queryDescendants
  cases hw : generalWhere b print forbidden uri fc with
  | none => rfl
  | some cond =>
    have hcond : ∀ r, cond r = true → r.below b uri = true :=
      fun r hr => below_of_baseCond (base_of_generalWhere hw hr)
    dsimp only
    rw [h.rowsWhere_eq hcond, h.unionQuery_eq fun ty c hc r hr => below_of_baseCond (base_of_joinedWhere hc hr)]
    simp only [@unionQuery_eq b uri fc db db' h (fun _ => some cond) fun ty c hc => Option.some.inj hc ▸ hcond]

theorem dbGetDescendants_eq (h : SameRowsBelow b uri db db') {f : Forbidden} {cols : CStr} :
    dbGetDescendants b print f db' uri fc cols details = dbGetDescendants b print f db uri fc cols details := by
  have hfound : typesFound b print f db' uri fc = typesFound b print f db uri fc := by
    unfold typesFound
    cases hw : generalWhere b print f.patterns uri fc with
    | none => rfl
    | some cond =>
      dsimp only
      rw [h.rowsWhere_eq fun r hr => below_of_baseCond (base_of_generalWhere hw hr)]
  unfold dbGetDescendants textsFit
  rw [h.queryDescendants_eq]
  cases b <;> simp only [hfound]

end SameRowsBelow

/-- Rows that are changed only where they are not below the address. -/
theorem sameRowsBelow_of_forall₂
    (h : List.Forall₂ (fun r r' : Row => r'.uri = r.uri ∧ (r' = r ∨ r.below b uri = false)) db db') :
    SameRowsBelow b uri db db' := by
  have hfrom : ∀ k, ((db'.zipIdx k).filter fun e => e.1.below b uri) = (db.zipIdx k).filter fun e => e.1.below b uri := by
    induction h with
    | nil => exact fun _ => rfl
    | @cons r r' _ _ hr _ ih =>
      intro k
      have hbelow : r'.below b uri = r.below b uri := congrArg (b.like _) hr.1
      rw [List.zipIdx_cons, List.zipIdx_cons, List.filter_cons, List.filter_cons, ih, hbelow]
      obtain ⟨-, rfl | hno⟩ := hr
      · rfl
      · rw [hno]
        rfl
  unfold SameRowsBelow entriesDesc
  rw [List.filter_reverse, List.filter_reverse, hfrom 0]

end Query

/-! ## Hidden values -/

namespace Server

/-- Another server with the same resources at the same addresses, which differs only in values of resources the originator
may not retrieve. -/
structure Varied (now : CStr) (req : Req) (s s' : Server) : Prop where
  rows : List.Forall₂ (fun r r' : Row => r'.uri = r.uri ∧ (r' = r ∨ ¬ s.Grants now req r.uri)) s.db s'.db
  found : ∀ addr, Option.Rel (fun m m' : RTNode => m'.uri = m.uri ∧ m'.ri = m.ri ∧ (m' = m ∨ ¬ s.Grants now req m.uri))
    ((s.findNode now addr).deref s) ((s'.findNode now addr).deref s')

/-- What a response could show of what is below an address, whatever the criteria are: the rows, and what `arp` names
below them. -/
def couldShow (b : Backend) (now : CStr) (s : Server) (uri : CStr) (arp : Option CStr) : List CStr :=
  (s.db.filter (Row.below b uri)).map Row.uri ++ arp.toList.flatMap fun arp =>
    (s.db.filter (Row.below b uri)).filterMap fun r => (s.arpNode now arp (r, 0)).map RTNode.uri

section Hidden

variable {b : Backend} {print : Json → CStr} {now : CStr} {s s' : Server} {req : Req} {uri target : CStr} {n : RTNode}
  {fc : Option (FilterCriteria × Option CStr)}

theorem couldShow_row {r : Row} (hr : r ∈ s.db) (hb : r.below b uri = true) (arp : Option CStr) :
    r.uri ∈ s.couldShow b now uri arp :=
  List.mem_append_left _ (List.mem_map.mpr ⟨r, List.mem_filter.mpr ⟨hr, hb⟩, rfl⟩)

theorem couldShow_arp {r : Row} {m : RTNode} {arp : CStr} (hr : r ∈ s.db) (hb : r.below b uri = true)
    (hm : (s.findNode now (r.uri ++ '/' :: arp)).deref s = some m) : m.uri ∈ s.couldShow b now uri (some arp) := by
  refine List.mem_append_right _ (List.mem_flatMap.mpr ⟨arp, List.mem_singleton.mpr rfl, ?_⟩)
  exact List.mem_filterMap.mpr ⟨r, List.mem_filter.mpr ⟨hr, hb⟩, congrArg (Option.map RTNode.uri) hm⟩

/-- What a request asks for is among it. -/
theorem asked_couldShow {u : CStr} (h : u ∈ s.asked b print now uri fc) : u ∈ s.couldShow b now uri (fc.bind Prod.snd) := by
  rcases fc with _ | ⟨fc, arp⟩
  · cases h
  cases arp with
  | none =>
    obtain ⟨e, he, rfl⟩ := List.mem_map.mp h
    exact couldShow_row (below_of_pageRows he).1 (below_of_pageRows he).2 _
  | some arp =>
    obtain ⟨e, he, hm⟩ := List.mem_filterMap.mp h
    obtain ⟨m, hfound, rfl⟩ := Option.map_eq_some_iff.mp hm
    exact couldShow_arp (below_of_pageRows he).1 (below_of_pageRows he).2 hfound

/-- Hidden values do not change the descendants where nothing below the address is hidden. -/
theorem descendantArr_eq (hv : Varied now req s s')
    (hgrants : ∀ u ∈ s.couldShow b now uri (fc.bind Prod.snd), s.Grants now req u) :
    s'.descendantArr b print now uri fc = s.descendantArr b print now uri fc := by
  have hsame : SameRowsBelow b uri s.db s'.db := by
    refine sameRowsBelow_of_forall₂ (((List.forall₂_and_left _ _).mpr ⟨fun _ hr => hr, hv.rows⟩).imp ?_)
    rintro r r' ⟨hr, huri, heq⟩
    refine ⟨huri, heq.imp_right fun hhidden => Bool.eq_false_iff.mpr fun hb => ?_⟩
    exact hhidden (hgrants _ (couldShow_row hr hb _))
  rcases fc with _ | ⟨fc, arp⟩
  · rfl
  unfold descendantArr
  cases arp with
  | none =>
    dsimp only
    rw [hsame.dbGetDescendants_eq]
  | some arp =>
    dsimp only
    rw [hsame.dbGetDescendants_eq]
    refine Option.map_congr fun l hl => List.filterMap_congr fun e he => congrArg _ ?_
    -- the row of the element is below the target, and what `arp` names below it may be retrieved
    have hrows : queryDescendants b print [] s.db uri fc true = some l := queryDescendants_of_some hl
    have hpage : e ∈ pageRows b print [] s.db uri fc true := by
      rw [← getD_pageRows, hrows]
      exact he
    unfold arpNode
    have hfound := hv.found (e.1.uri ++ '/' :: arp)
    cases hm : (s.findNode now (e.1.uri ++ '/' :: arp)).deref s with
    | none =>
      rw [hm] at hfound
      generalize (s'.findNode now (e.1.uri ++ '/' :: arp)).deref s' = o at hfound
      cases hfound
      rfl
    | some m =>
      rw [hm] at hfound
      generalize (s'.findNode now (e.1.uri ++ '/' :: arp)).deref s' = o at hfound
      cases hfound with
      | some hrel =>
        rcases hrel.2.2 with rfl | hhidden
        · rfl
        · exact absurd (hgrants _ (couldShow_arp (below_of_pageRows hpage).1 (below_of_pageRows hpage).2 hm)) hhidden

end Hidden

/-! ## A change of values -/

/-- A node, with other values if it is at the address. -/
def renewed (uri : CStr) (f : Obj → Obj) (m : RTNode) : RTNode := if m.uri = uri then { m with obj := f m.obj } else m

/-- The values of the resource at an address are changed, in memory and in the database. -/
def withValues (s : Server) (uri : CStr) (f : Obj → Obj) : Server :=
  { s with
    tree := s.tree.modify (fun _ => true) (renewed uri f)
    db := s.db.map fun r => if r.uri = uri then { r with obj := f r.obj } else r }

/-- The attributes a lookup reads are kept. -/
def KeepsNames (f : Obj → Obj) : Prop := ∀ o, ∀ k ∈ [Attr.ri, .rn, .et], (f o).get k = o.get k

/-- The types whose resources are looked up in the database. -/
def instanceTypes : List ResourceType := [.cin, .fcin, .tsi]

/-- The end of a walk, with the nodes renewed. -/
def renewedWalk (uri : CStr) (f : Obj → Obj) : Walk → Walk
  | .found n => .found (renewed uri f n)
  | .missed parent name rest => .missed (parent.map (renewed uri f)) name rest

section Values

variable {uri : CStr} {f : Obj → Obj} {s : Server} {now : CStr} {req : Req} {ty : ResourceType}

theorem renewed_same (uri : CStr) (f : Obj → Obj) (m : RTNode) : (renewed uri f m).id = m.id ∧
    (renewed uri f m).ty = m.ty ∧ (renewed uri f m).rn = m.rn ∧ (renewed uri f m).uri = m.uri := by
  unfold renewed
  split <;> exact ⟨rfl, rfl, rfl, rfl⟩

theorem str_renewed (hf : KeepsNames f) (m : RTNode) {k : Attr} (hk : k ∈ [Attr.ri, .rn, .et]) :
    (renewed uri f m).obj.str k = m.obj.str k := by
  refine Obj.str_congr ?_
  unfold renewed
  split
  · exact hf m.obj k hk
  · rfl

theorem sibling?_renewed (name : CStr) (t : Forest RTNode) : sibling? name (t.modify (fun _ => true) (renewed uri f)) =
    (sibling? name t).map fun e => (renewed uri f e.1, e.2.modify (fun _ => true) (renewed uri f)) := by
  induction t with
  | nil => rfl
  | node a c t _ ih =>
    simp only [Forest.modify, sibling?, if_true, (renewed_same uri f a).2.2.1, ih]
    split <;> rfl

theorem walk_renewed (rest : List CStr) : ∀ (parent : Option RTNode) (name : CStr) (t : Forest RTNode),
    walk (parent.map (renewed uri f)) name rest (t.modify (fun _ => true) (renewed uri f)) =
      renewedWalk uri f (walk parent name rest t) := by
  induction rest with
  | nil =>
    intro parent name t
    unfold walk
    rw [sibling?_renewed]
    cases sibling? name t <;> rfl
  | cons name' rest ih =>
    intro parent name t
    unfold walk
    rw [sibling?_renewed]
    cases sibling? name t with
    | none => rfl
    | some e => exact ih (some e.1) name' e.2

theorem find?_withValues {p : RTNode → Bool} (hp : ∀ m, p (renewed uri f m) = p m) :
    (s.withValues uri f).tree.find? p = (s.tree.find? p).map (renewed uri f) := by
  unfold Forest.find? withValues
  dsimp only
  rw [Forest.nodes_modify, List.find?_map]
  exact congrArg _ (congrArg (List.find? · _) (funext hp))

theorem node?_withValues (i : Nat) : (s.withValues uri f).node? i = (s.node? i).map (renewed uri f) :=
  find?_withValues fun m => congrArg (fun id => decide (id = i)) (renewed_same uri f m).1

theorem children_withValues (i : Nat) : (s.withValues uri f).children i =
    (s.children i).modify (fun _ => true) (renewed uri f) := by
  unfold children Forest.cell? withValues
  dsimp only
  rw [Forest.cells_modify, List.find?_map]
  have hid : ((fun e : RTNode × Forest RTNode => RTNode.hasId i e.1) ∘ fun e =>
      (if true = true then renewed uri f e.1 else e.1, e.2.modify (fun _ => true) (renewed uri f))) =
      fun e : RTNode × Forest RTNode => RTNode.hasId i e.1 :=
    funext fun e => congrArg (fun id => decide (id = i)) (renewed_same uri f e.1).1
  rw [hid]
  cases s.tree.cells.find? fun e => RTNode.hasId i e.1 <;> rfl

theorem firstChildNamed_withValues (hf : KeepsNames f) (parent : RTNode) (name : CStr) :
    (s.withValues uri f).firstChildNamed (renewed uri f parent) name =
      (s.firstChildNamed parent name).map (renewed uri f) := by
  unfold firstChildNamed
  rw [(renewed_same uri f parent).1, children_withValues]
  cases s.children parent.id with
  | nil => rfl
  | node a c t =>
    show (if (renewed uri f a).obj.str .rn = some name then some (renewed uri f a) else none) =
      (if a.obj.str .rn = some name then some a else none).map (renewed uri f)
    rw [str_renewed hf a (by simp)]
    split <;> rfl

/-- What a pointer of the tree reaches is renewed; a node made from a row stays. -/
theorem deref_withValues (s : Server) (uri : CStr) (f : Obj → Obj) (p : Ptr) : p.deref (s.withValues uri f) = p.deref s ∨
    p.deref (s.withValues uri f) = (p.deref s).map (renewed uri f) := by
  cases p with
  | null => exact .inl rfl
  | inTree i => exact .inr (node?_withValues i)
  | loose n p => exact .inl rfl

section Names

variable (hf : KeepsNames f) (hno : ∀ r ∈ s.db, r.uri = uri → r.ty ∉ instanceTypes)

include hno

/-- A query for instances gives what it gave, where no instance is at the address. -/
theorem filter_withValues (hty : ty ∈ instanceTypes)
    {p : Row → Bool} (hp : ∀ r, p r = true → r.ty = ty) : (s.withValues uri f).db.filter p = s.db.filter p := by
  unfold withValues
  dsimp only
  generalize s.db = db at hno
  induction db with
  | nil => rfl
  | cons r db ih =>
    rw [List.map_cons, List.filter_cons, List.filter_cons, ih fun q hq => hno q (List.mem_cons_of_mem _ hq)]
    by_cases h : r.uri = uri
    · have hskip : ∀ q : Row, q.ty = r.ty → p q = false := fun q hq => Bool.eq_false_iff.mpr fun hpq =>
        hno r List.mem_cons_self h (hq ▸ hp q hpq ▸ hty)
      rw [if_pos h, hskip r rfl, hskip { r with obj := f r.obj } rfl]
      rfl
    · rw [if_neg h]

theorem dbGetLaol_withValues (hty : ty ∈ instanceTypes)
    (pi : CStr) (latest : Bool) : (s.withValues uri f).db.dbGetLaol ty pi latest = s.db.dbGetLaol ty pi latest := by
  unfold Db.dbGetLaol Db.instances
  rw [filter_withValues hno hty fun r hr => of_decide_eq_true (Bool.and_eq_true_iff.mp hr).1]

theorem dbGetResourceByUri_withValues (hty : ty ∈ instanceTypes)
    (addr : CStr) : (s.withValues uri f).db.dbGetResourceByUri addr ty = s.db.dbGetResourceByUri addr ty := by
  unfold Db.dbGetResourceByUri
  rw [← List.head?_filter, filter_withValues hno hty fun r hr => of_decide_eq_true (Bool.and_eq_true_iff.mp hr).2,
    List.head?_filter]

theorem dbGetResource_withValues (hty : ty ∈ instanceTypes)
    (ri : CStr) : (s.withValues uri f).db.dbGetResource ri ty = s.db.dbGetResource ri ty := by
  unfold Db.dbGetResource
  rw [← List.head?_filter, filter_withValues hno hty fun r hr => of_decide_eq_true (Bool.and_eq_true_iff.mp hr).2,
    List.head?_filter]

include hf

/-- Which instance is found depends on nothing that is changed. -/
theorem findInstance_withValues (hty : ty ∈ instanceTypes) (parent : RTNode) (name addr : CStr) :
    (s.withValues uri f).findInstance (renewed uri f parent) ty name addr = s.findInstance parent ty name addr := by
  have hri : (renewed uri f parent).ri = parent.ri := str_renewed hf parent (by simp)
  unfold findInstance
  simp only [hri, (renewed_same uri f parent).1, dbGetLaol_withValues hno hty, dbGetResourceByUri_withValues hno hty]

theorem findFrom_withValues (addr : CStr) (w : Walk) :
    (s.withValues uri f).findFrom addr (renewedWalk uri f w) = s.findFrom addr w := by
  cases w with
  | found n => exact congrArg Ptr.inTree (renewed_same uri f n).1
  | missed parent name rest =>
    cases parent with
    | none => rfl
    | some parent =>
      show (s.withValues uri f).findBelow (renewed uri f parent) name rest addr = s.findBelow parent name rest addr
      unfold findBelow
      rw [(renewed_same uri f parent).2.1, firstChildNamed_withValues hf]
      have hinstance : ∀ ty ∈ instanceTypes, (s.withValues uri f).findInstance (renewed uri f parent) ty name addr =
          s.findInstance parent ty name addr := fun ty hty => findInstance_withValues hf hno hty parent name addr
      simp only [hinstance .cin (by decide), hinstance .fcin (by decide), hinstance .tsi (by decide)]
      cases parent.ty <;> try rfl
      cases s.firstChildNamed parent name with
      | none => rfl
      | some a => exact congrArg Ptr.inTree (renewed_same uri f a).1

theorem findRtnodeByRn_withValues (addr : CStr) :
    (s.withValues uri f).findRtnodeByRn addr = s.findRtnodeByRn addr := by
  have hwalk : ∀ name rest t, (s.withValues uri f).findFrom addr
      (walk none name rest (t.modify (fun _ => true) (renewed uri f))) = s.findFrom addr (walk none name rest t) := by
    intro name rest t
    have h : walk none name rest (t.modify (fun _ => true) (renewed uri f)) = renewedWalk uri f (walk none name rest t) :=
      walk_renewed rest none name t
    rw [h, findFrom_withValues hf hno]
  unfold findRtnodeByRn
  cases tokens addr with
  | nil => rfl
  | cons name rest =>
    dsimp only
    rw [show (s.withValues uri f).tree = s.tree.modify (fun _ => true) (renewed uri f) from rfl, hwalk]
    cases s.tree with
    | nil => rfl
    | node a c t =>
      cases rest with
      | nil =>
        cases c with
        | nil => rfl
        | node a' c' t' => simp only [Forest.modify, if_true, (renewed_same uri f a').1]
      | cons name' rest => simp only [Forest.modify, hwalk]

theorem findRtnodeByRi_withValues (ri : CStr) :
    (s.withValues uri f).findRtnodeByRi ri = s.findRtnodeByRi ri := by
  have hsearch : (s.withValues uri f).rtSearchRi ri = (s.rtSearchRi ri).map (renewed uri f) :=
    find?_withValues fun m => congrArg (fun x => decide (x = some ri)) (str_renewed hf m (by simp))
  unfold findRtnodeByRi
  rw [dbGetResource_withValues hno (by decide), hsearch]
  simp only [findRtnodeByRn_withValues hf hno]
  cases s.rtSearchRi ri with
  | none => rfl
  | some n => simp only [Option.map_some, (renewed_same uri f n).1]

theorem findRtnodeByHybrid_withValues (addr : CStr) :
    (s.withValues uri f).findRtnodeByHybrid addr = s.findRtnodeByHybrid addr := by
  have hchild : ∀ p name, (s.withValues uri f).findChild p name = s.findChild p name := by
    intro p name
    cases p with
    | null => rfl
    | loose n p => rfl
    | inTree i =>
      unfold findChild
      dsimp only
      rw [children_withValues, sibling?_renewed]
      cases sibling? name (s.children i) with
      | none => rfl
      | some e => exact congrArg Ptr.inTree (renewed_same uri f e.1).1
  have hvirtual : ∀ p n n' name, n'.ty = n.ty → n'.ri = n.ri →
      (s.withValues uri f).findVirtual p n' name = s.findVirtual p n name := by
    intro p n n' name hty hri
    unfold findVirtual
    rw [hty, hri, hchild]
    cases hinst : instanceType n.ty with
    | none => rfl
    | some ty =>
      have hin : ty ∈ instanceTypes := by
        unfold instanceType at hinst
        split at hinst <;> cases hinst <;> decide
      simp only [dbGetLaol_withValues hno hin]
  unfold findRtnodeByHybrid
  cases cutSlash addr with
  | none => rfl
  | some e =>
    obtain ⟨parentRi, rest⟩ := e
    dsimp only
    rw [findRtnodeByRi_withValues hf hno]
    rcases deref_withValues s uri f (s.findRtnodeByRi parentRi) with h | h
    · rw [h]
      simp only [hvirtual _ _ _ _ rfl rfl]
    · rw [h]
      cases (s.findRtnodeByRi parentRi).deref s with
      | none => rfl
      | some n =>
        simp only [Option.map_some, (renewed_same uri f n).2.1,
          hvirtual _ n _ _ (renewed_same uri f n).2.1 (str_renewed hf n (by simp))]

/-- An address leads where it led. -/
theorem resolve_withValues (addr : CStr) :
    (s.withValues uri f).resolve addr = s.resolve addr := by
  unfold resolve
  rw [findRtnodeByRn_withValues hf hno, findRtnodeByHybrid_withValues hf hno, findRtnodeByRi_withValues hf hno,
    show (s.withValues uri f).tree = s.tree.modify (fun _ => true) (renewed uri f) from rfl]
  cases s.tree with
  | nil => rfl
  | node a c t => simp only [Forest.modify, if_true, (renewed_same uri f a).1]

/-- A change of the values of a resource that the originator may not retrieve, and that is no instance. -/
theorem varied_withValues (hhidden : ¬ s.Grants now req uri) : Varied now req s (s.withValues uri f) where
  rows := by
    unfold withValues
    dsimp only
    rw [List.forall₂_map_right_iff, List.forall₂_same]
    intro r _
    split
    · rename_i h
      exact ⟨rfl, .inr (h ▸ hhidden)⟩
    · exact ⟨rfl, .inl rfl⟩
  found := by
    intro addr
    have hrel : ∀ m : RTNode, (renewed uri f m).uri = m.uri ∧ (renewed uri f m).ri = m.ri ∧
        (renewed uri f m = m ∨ ¬ s.Grants now req m.uri) := by
      intro m
      refine ⟨(renewed_same uri f m).2.2.2, str_renewed hf m (by simp), ?_⟩
      unfold renewed
      split
      · rename_i h
        exact .inr (h ▸ hhidden)
      · exact .inl rfl
    have hexpired : ∀ m : RTNode, isExpired now (renewed uri f m) = isExpired now m := by
      intro m
      unfold isExpired
      rw [str_renewed hf m (by simp)]
    have hsame : ∀ p : Ptr, Option.Rel (fun m m' : RTNode => m'.uri = m.uri ∧ m'.ri = m.ri ∧
        (m' = m ∨ ¬ s.Grants now req m.uri)) (p.deref s) (p.deref (s.withValues uri f)) := by
      intro p
      rcases deref_withValues s uri f p with h | h
      · rw [h]
        cases p.deref s with
        | none => exact .none
        | some m => exact .some ⟨rfl, rfl, .inl rfl⟩
      · rw [h]
        cases p.deref s with
        | none => exact .none
        | some m => exact .some (hrel m)
    have hnode : (s.withValues uri f).findNode now addr = s.findNode now addr := by
      unfold findNode findRtnode
      rw [resolve_withValues hf hno]
      dsimp only
      rcases deref_withValues s uri f (s.resolve addr) with h | h
      · rw [h]
        cases (s.resolve addr).deref s with
        | none => rfl
        | some m =>
          dsimp only
          split <;> rfl
      · rw [h]
        cases (s.resolve addr).deref s with
        | none => rfl
        | some m =>
          simp only [Option.map_some, hexpired]
          split <;> rfl
    rw [hnode]
    exact hsame _

end Names

end Values

end Server

/-- A container under a policy for everybody, with a content instance in it, and beside it a container under the default
policy. -/
def lockedBeside : Option Server := do
  let s ← boot firstDay
  let s ← s.place 0 .acp "open" "1-1" "TinyIoT/open" [(.pv, .obj [(.acr, .arr [acrEntry ["all".toList] allAcop])])]
  let s ← s.place 0 .cnt "c" "3-1" "TinyIoT/c" [(.acpi, .arr [.str "TinyIoT/open".toList])]
  let s ← s.place 0 .cnt "e" "3-2" "TinyIoT/e" [(.acpi, .arr [.str "TinyIoT/defaultACP".toList])]
  let db ← s.db.dbStoreResource [(.rn, .str "i".toList), (.ri, .str "4-1".toList), (.pi, .str "3-1".toList),
    (.ty, .int ResourceType.cin.code), (.con, .str "1".toList)] "TinyIoT/c/i".toList
  return { s with db := db }

/-- A stranger's request for the open container with its child resources. -/
def Server.askOpen (s : Server) : Option (List (CStr × Descendant)) :=
  s.retrieveOnem2mResource .sqlite (fun _ => []) firstDay.now (strangerReq .retrieve .cnt)
    (s.findNode firstDay.now "TinyIoT/c".toList) (some (noCriteria, none))

/-- A label is added. -/
def labelled (o : Obj) : Obj := Assoc.add o .lbl (.arr [.str "moved".toList])

/-- A content instance made from its row below a node of the tree, without a policy. -/
def plainInstanceOf (i : Nat) : Ptr → Bool
  | .loose d (.inTree j) => decide (j = i) && !d.obj.has .acpi && decide (d.ty = .cin)
  | _ => false

theorem loose_of_plainInstanceOf {i : Nat} {p : Ptr} (h : plainInstanceOf i p = true) :
    ∃ d, p = .loose d (.inTree i) ∧ d.obj.has .acpi = false ∧ d.ty = .cin := by
  unfold plainInstanceOf at h
  split at h
  · simp only [Bool.and_eq_true, decide_eq_true_eq, Bool.not_eq_true'] at h
    obtain ⟨⟨rfl, hacpi⟩, hty⟩ := h
    exact ⟨_, rfl, hacpi, hty⟩
  · cases h

end TinyIoT
