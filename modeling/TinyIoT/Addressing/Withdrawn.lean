/-
What a withdrawn announcement leaves of the lists `at` below the resource (`deregister_remote_annc`, `removeChildAnnc`).
The CSE is cut out of the address by `strtok_r`. The resources in memory are compared with its ID as a whole segment, the
content instances in the database with its characters only; and the walk starts at the children in memory, so that the
instances of the resource itself are never seen.
-/
import Mathlib.Data.List.Forall2
import TinyIoT.Addressing.Announce
import TinyIoT.Resource.Built
import TinyIoT.Server.Resolve
import TinyIoT.Server.Rows

namespace TinyIoT

/-! ## The lists -/

/-- The entries that are not gone; no result where one is no string. -/
def keepAt (gone : CStr → Bool) : List Json → Option (List CStr)
  | [] => some []
  | j :: l => j.valuestring.bind fun v => (keepAt gone l).map fun kept => if gone v then kept else v :: kept

/-- `db_clear_attribute`. -/
def Db.dbClearAttribute (db : Db) (ri : CStr) (k : Attr) : Db :=
  db.map fun r => if r.ri = some ri then { r with obj := Assoc.drop r.obj k } else r

/-- The object with its new list, without the attribute where nothing is left. -/
def putAt (kept : List CStr) (o : Obj) : Obj :=
  if kept = [] then o.del .at else (o.del .at).add .at (.arr (kept.map Json.str))

/-- The rewriting of one resource, in its object and in its row. -/
def rewriteAt (gone : CStr → Bool) (o : Obj) (db : Db) : Option (Obj × Db) :=
  match o.get .at with
  | none => some (o, db)
  | some j => do
    let kept ← keepAt gone j.items
    let ri ← o.str .ri
    let cleared := if kept = [] then db.dbClearAttribute ri .at else db
    return (putAt kept o, cleared.dbUpdateResource (putAt kept o) ri)

/-- The loop over the content instances of a container. -/
def rewriteCins (cse : CStr) : List RTNode → Db → Option Db
  | [], db => some db
  | cin :: l, db => (rewriteAt (fun v => cse.isPrefixOf v) cin.obj db).bind fun r => rewriteCins cse l r.2

/-- The content instances of a child, where it is a container. -/
def rewriteInstances (cse : CStr) (n : RTNode) (db : Db) : Option Db :=
  if n.ty = .cnt then rewriteCins cse (db.dbGetCinRtnodeList (n.ri.getD [])) db else some db

/-- `removeChildAnnc`: the children with what is below them, and the database. -/
def removeChildAnnc (cse : CStr) : Forest RTNode → Db → Option (Forest RTNode × Db)
  | .nil, db => some (.nil, db)
  | .node n c s, db => do
    let (c, db) ← removeChildAnnc cse c db
    let db ← rewriteInstances cse n db
    let (o, db) ← rewriteAt (fun v => checkResourceCseID v cse) n.obj db
    let (s, db) ← removeChildAnnc cse s db
    return (.node { n with obj := o } c s, db)

namespace Server

/-- `removeChildAnnc` on the node with address `t`. -/
def removeChildAnnc (s : Server) (t : Nat) (cse : CStr) : Option Server :=
  (TinyIoT.removeChildAnnc cse (s.children t) s.db).map fun r =>
    { s with tree := s.tree.graft (RTNode.hasId t) fun _ => r.1, db := r.2 }

/-- The buffer of an entry once `strtok_r` has ended it behind the first token. -/
def cseOfEntry (o : CStr) : Option CStr := (strtok (o.drop 1)).map fun p => o.take 1 ++ p.1 ++ p.2

/-- `deregister_remote_annc`, with what it does to the lists below the resource and the entries it keeps. -/
def deregisterRemoteAnnc (e : AnncEnv) (t : Nat) : List CStr → Server → Option (Server × List CStr)
  | [], s => some (s, [])
  | o :: l, s =>
    if o.head? = some '/' then
      match csrTarget o with
      | none => none
      | some _ =>
        if e.deleted o then
          (cseOfEntry o).bind fun cse => (s.removeChildAnnc t cse).bind fun s => deregisterRemoteAnnc e t l s
        else (deregisterRemoteAnnc e t l s).map fun r => (r.1, o :: r.2)
    else (cseOfEntry o).bind fun cse => (s.removeChildAnnc t cse).bind fun s => deregisterRemoteAnnc e t l s

end Server

/-! ## What is meant -/

/-- An address lies under a CSE. -/
def LiesUnder (cse v : CStr) : Prop := ∃ rest, v = cse ++ '/' :: rest

theorem liesUnder_iff {cse v : CStr} : LiesUnder cse v ↔ checkResourceCseID v cse = true := by
  unfold LiesUnder checkResourceCseID
  rw [List.isPrefixOf_iff_prefix]
  constructor
  · rintro ⟨rest, rfl⟩
    exact ⟨rest, by simp⟩
  · rintro ⟨rest, h⟩
    exact ⟨rest, by simp [← h]⟩

instance (cse v : CStr) : Decidable (LiesUnder cse v) := decidable_of_iff _ liesUnder_iff.symm

/-- The attribute that a list of addresses is kept in. -/
def atOf (l : List CStr) : Option Json := if l = [] then none else some (.arr (l.map Json.str))

/-- The new attribute is what the old one leaves without the entries under the CSE, in the old order. -/
def LeftWithout (cse : CStr) (old new : Option Json) : Prop :=
  (old = none → new = none) ∧
  ∀ l : List CStr, old = some (.arr (l.map Json.str)) → new = atOf (l.filter fun v => ¬ LiesUnder cse v)

/-- The row is a content instance of the resource or of a container below it. -/
def InstanceBelow (s : Server) (t : RTNode) (r : Row) : Prop :=
  r.ty = .cin ∧ ∃ n, (n = t ∨ n ∈ (s.children t.id).nodes) ∧ n.ty = .cnt ∧ r.pi = n.ri

/-- Below the resource every list has lost just the entries under the CSE. -/
structure AnncWithdrawn (cse : CStr) (t : RTNode) (s s' : Server) : Prop where
  memory : List.Forall₂ (fun n n' => n'.id = n.id ∧ LeftWithout cse (n.obj.get .at) (n'.obj.get .at))
    (s.children t.id).nodes (s'.children t.id).nodes
  stored : List.Forall₂ (fun r r' => r'.ty = r.ty ∧
    (InstanceBelow s t r → r'.ri = r.ri ∧ LeftWithout cse (r.obj.get .at) (r'.obj.get .at))) s.db s'.db

/-- The attribute `at` of a resource: absent, or once a list of addresses. -/
def ListsAddresses (o : Obj) : Prop :=
  (Assoc.entries o .at).length ≤ 1 ∧ ∀ j, o.get .at = some j → ∃ l : List CStr, j = .arr (l.map Json.str)

/-- A row of a content instance as CREATE makes it. -/
structure Row.IsInstance (r : Row) : Prop where
  ri : ∃ ri : CStr, r.obj.get .ri = some (.str ri) ∧ ri ≠ []
  pi : ∃ pi : CStr, r.obj.get .pi = some (.str pi) ∧ pi ≠ []
  rn : ∃ rn : CStr, r.obj.get .rn = some (.str rn) ∧ rn ≠ []
  lists : ListsAddresses r.obj

/-- A content instance in memory is as its row says. -/
structure ReadFrom (db : Db) (n : RTNode) : Prop where
  row : ∃ r ∈ db, r.ty = .cin ∧ ∀ k ∈ [Attr.ri, .pi, .rn, .at], n.obj.get k = r.obj.get k
  lists : ListsAddresses n.obj

/-- A node in memory has an identifier and a list; a cached instance shares them with its row, and no other node has its
identifier from a content instance. -/
structure NodeFits (db : Db) (n : RTNode) : Prop where
  lists : ListsAddresses n.obj
  ri : ∃ ri, n.ri = some ri
  cached : n.ty = .cin → ReadFrom db n
  apart : n.ty ≠ .cin → ∀ r ∈ db, r.ty = .cin → r.ri ≠ n.ri

/-- A cached instance hangs below the container it is an instance of. -/
def HangsBelow (pi : Option CStr) : Forest RTNode → Prop
  | .nil => True
  | .node n c s => (n.ty = .cin → n.obj.str .pi = pi) ∧ HangsBelow n.ri c ∧ HangsBelow pi s

/-- The resources below `t`, cached instances among them, and the content instances are as the server keeps them: each has
an identifier of its own, which only a cached instance shares with its row. -/
structure Announceable (t : RTNode) (s : Server) : Prop where
  found : s.node? t.id = some t
  nodes : ∀ n ∈ (s.children t.id).nodes, n.ri ≠ t.ri ∧ NodeFits s.db n
  distinctNodes : ((s.children t.id).nodes.map RTNode.ri).Nodup
  placed : HangsBelow t.ri (s.children t.id)
  rows : ∀ r ∈ s.db, r.ty = .cin → r.IsInstance
  distinct : ((s.db.filter fun r => r.ty = .cin).map Row.ri).Nodup

/-- No content instance is mistaken: none of the resource itself that is not cached has an entry under the CSE (or an empty
list), and none of a container below has one that only begins with the same characters. -/
structure NoneMistaken (cse : CStr) (t : RTNode) (s : Server) : Prop where
  own : t.ty = .cnt → ∀ r ∈ s.db, r.ty = .cin → r.pi = t.ri → (∀ n ∈ (s.children t.id).nodes, n.ty = .cin → n.ri ≠ r.ri) →
    ∀ l : List CStr, r.obj.get .at = some (.arr (l.map Json.str)) → l ≠ [] ∧ ∀ v ∈ l, ¬ LiesUnder cse v
  below : ∀ n ∈ (s.children t.id).nodes, n.ty = .cnt → ∀ r ∈ s.db, r.ty = .cin → r.pi = n.ri →
    ∀ l : List CStr, r.obj.get .at = some (.arr (l.map Json.str)) → ∀ v ∈ l, cse <+: v → LiesUnder cse v

/-! ## One list -/

section Lists

variable {gone : CStr → Bool} {o : Obj} {r : Row} {ri : CStr} {db : Db}

/-- What `gone` leaves of the attribute. -/
def leftBy (gone : CStr → Bool) (j : Option Json) : Option Json :=
  j.bind fun j => atOf ((j.items.filterMap Json.valuestring).filter fun v => !gone v)

theorem filterMap_strings (l : List CStr) : (l.map Json.str).filterMap Json.valuestring = l := by
  induction l with
  | nil => rfl
  | cons v l ih => simp [Json.valuestring, ih]

theorem leftBy_strings (l : List CStr) : leftBy gone (some (.arr (l.map Json.str))) = atOf (l.filter fun v => !gone v) := by
  show atOf (((l.map Json.str).filterMap Json.valuestring).filter _) = _
  rw [filterMap_strings]

theorem leftBy_leftBy (gone' : CStr → Bool) (j : Option Json) :
    leftBy gone' (leftBy gone j) = leftBy (fun v => gone v || gone' v) j := by
  cases j with
  | none => rfl
  | some j =>
    have hlist : ∀ g, leftBy g (some j) = atOf ((j.items.filterMap Json.valuestring).filter fun v => !g v) := fun _ => rfl
    rw [hlist, hlist]
    generalize (j.items.filterMap Json.valuestring) = l
    have htwice : (l.filter fun v => !gone v).filter (fun v => !gone' v) = l.filter fun v => !(gone v || gone' v) := by
      rw [List.filter_filter]
      refine List.filter_congr fun v _ => ?_
      rw [Bool.not_or, Bool.and_comm]
    by_cases hl : (l.filter fun v => !gone v) = []
    · rw [← htwice, hl]
      rfl
    · have hat : atOf (l.filter fun v => !gone v) = some (.arr ((l.filter fun v => !gone v).map Json.str)) := if_neg hl
      rw [hat, leftBy_strings, htwice]

/-- What the walk leaves of the attribute of a content instance: it cuts at the characters of the CSE where a container
holds it, and else at the entries under the CSE where it is cached. -/
def cutBy (cse : CStr) (held cached : Bool) (j : Option Json) : Option Json :=
  if held then leftBy (fun v => cse.isPrefixOf v) j
  else if cached then leftBy (fun v => checkResourceCseID v cse) j
  else j

theorem isPrefixOf_of_checkResourceCseID {cse v : CStr} (h : checkResourceCseID v cse = true) : cse.isPrefixOf v = true := by
  obtain ⟨rest, rfl⟩ := liesUnder_iff.mpr h
  exact List.isPrefixOf_iff_prefix.mpr ⟨_, rfl⟩

/-- Two cuts one after the other. -/
theorem cutBy_cutBy (cse : CStr) (held cached held' cached' : Bool) (j : Option Json) :
    cutBy cse held' cached' (cutBy cse held cached j) = cutBy cse (held || held') (cached || cached') j := by
  have habsorb : ∀ v, (cse.isPrefixOf v || checkResourceCseID v cse) = cse.isPrefixOf v := by
    intro v
    cases h : checkResourceCseID v cse with
    | false => exact Bool.or_false _
    | true => rw [isPrefixOf_of_checkResourceCseID h, Bool.or_true]
  have habsorb' : ∀ v, (checkResourceCseID v cse || cse.isPrefixOf v) = cse.isPrefixOf v := fun v =>
    (Bool.or_comm _ _).trans (habsorb v)
  cases held <;> cases held' <;> cases cached <;> cases cached' <;>
    simp [cutBy, leftBy_leftBy, habsorb, habsorb']

theorem keepAt_strings (l : List CStr) : keepAt gone (l.map Json.str) = some (l.filter fun v => !gone v) := by
  induction l with
  | nil => rfl
  | cons v l ih =>
    cases hg : gone v <;> simp [keepAt, Json.valuestring, ih, hg]

/-- What the rewriting of an object does to the rows: those under its identifier get its list. -/
structure Rewrites (gone : CStr → Bool) (o : Obj) (ri : CStr) (f : Row → Row) : Prop where
  others : ∀ r : Row, r.ri ≠ some ri → f r = r
  ty : ∀ r, (f r).ty = r.ty
  keys : ∀ (r : Row) k, k ≠ .at → k ≠ .uri → o.get k = r.obj.get k → (∀ v, r.obj.get k = some v → column v = some v) →
    (f r).obj.get k = r.obj.get k
  list : ∀ r : Row, r.ri = some ri → o.get .at = r.obj.get .at → (f r).obj.get .at = leftBy gone (r.obj.get .at)
  once : ∀ r : Row, (Assoc.entries r.obj .at).length ≤ 1 → (Assoc.entries (f r).obj .at).length ≤ 1

theorem ri_drop_at (r : Row) : Row.ri { r with obj := Assoc.drop r.obj .at } = r.ri := by
  unfold Row.ri Obj.str Obj.get
  rw [Assoc.get_drop, if_neg (by decide)]

/-- The row of a resource whose list is rewritten. -/
def rewriteRow (kept : List CStr) (o : Obj) (ri : CStr) (r : Row) : Row :=
  if r.ri = some ri then
    { r with
      uri := ((putAt kept o).str .uri).getD r.uri
      obj := Assoc.drop (Assoc.overlay column (putAt kept o) (if kept = [] then Assoc.drop r.obj .at else r.obj)) .uri }
  else r

theorem rows_rewritten (kept : List CStr) (o : Obj) (ri : CStr) (db : Db) :
    (if kept = [] then db.dbClearAttribute ri .at else db).dbUpdateResource (putAt kept o) ri = db.map (rewriteRow kept o ri) := by
  by_cases hk : kept = []
  · rw [if_pos hk, Db.dbUpdateResource, Db.dbClearAttribute, List.map_map]
    refine List.map_congr_left fun r _ => ?_
    unfold rewriteRow
    by_cases hr : r.ri = some ri
    · simp only [Function.comp_apply, hr, if_true, ri_drop_at, hk]
    · simp [hr]
  · rw [if_neg hk, Db.dbUpdateResource]
    refine List.map_congr_left fun r _ => ?_
    simp only [rewriteRow, hk, if_false]

theorem get_putAt_ne {kept : List CStr} {k : Attr} (hk : k ≠ .at) : (putAt kept o).get k = o.get k := by
  unfold putAt
  split
  · exact Assoc.get_del_ne (Ne.symm hk)
  · exact (Assoc.get_add_ne (Ne.symm hk)).trans (Assoc.get_del_ne (Ne.symm hk))

theorem get_putAt {kept : List CStr} (h : (Assoc.entries o .at).length ≤ 1) : (putAt kept o).get .at = atOf kept := by
  have hdel : Assoc.get (o.del .at) .at = none := Assoc.get_del_self h
  unfold putAt atOf
  split
  · exact hdel
  · show Assoc.get (Assoc.add _ _ _) _ = _
    rw [Assoc.get_add, hdel]
    simp

theorem rewrites_rewriteRow {l : List CStr} (honce : (Assoc.entries o .at).length ≤ 1)
    (hat : o.get .at = some (.arr (l.map Json.str))) :
    Rewrites gone o ri (rewriteRow (l.filter fun v => !gone v) o ri) where
  others r hr := if_neg hr
  ty r := by
    unfold rewriteRow
    split <;> rfl
  keys r k hk hu ho hc := by
    unfold rewriteRow
    split
    · show Assoc.get (Assoc.drop _ _) k = _
      rw [Assoc.get_drop, if_neg (Ne.symm hu), Assoc.get_overlay, ← Obj.get, get_putAt_ne hk, ho]
      cases hg : r.obj.get k with
      | some v => exact hc v hg
      | none =>
        dsimp only
        by_cases hl : (l.filter fun v => !gone v) = []
        · rw [if_pos hl]
          exact (Assoc.get_drop _ _ _).trans ((if_neg (Ne.symm hk)).trans hg)
        · rw [if_neg hl]
          exact hg
    · rfl
  list r hr ho := by
    rw [← ho, hat, leftBy_strings]
    unfold rewriteRow
    rw [if_pos hr]
    show Assoc.get (Assoc.drop _ _) _ = _
    rw [Assoc.get_drop, if_neg (by decide), Assoc.get_overlay, ← Obj.get, get_putAt honce]
    by_cases hl : (l.filter fun v => !gone v) = []
    · simp [atOf, hl]
    · simp [atOf, hl, column]
  once r hr := by
    unfold rewriteRow
    split
    · rw [show ∀ m : Obj, Assoc.entries (Assoc.drop m .uri) .at = Assoc.entries m .at from
        fun m => (Assoc.entries_drop m .uri .at).trans (if_neg (by decide))]
      refine Assoc.length_entries_overlay ?_
      split
      · simp [Assoc.entries_drop]
      · exact hr
    · exact hr

/-- The object of a resource and the rows after `rewriteAt`. -/
theorem rewriteAt_spec (ho : ListsAddresses o) (hri : o.str .ri = some ri) :
    ∃ o' f, rewriteAt gone o db = some (o', db.map f) ∧ o'.get .at = leftBy gone (o.get .at) ∧ Rewrites gone o ri f := by
  obtain ⟨honce, hlist⟩ := ho
  cases hat : o.get .at with
  | none =>
    refine ⟨o, id, by simp [rewriteAt, hat], by simpa [leftBy] using hat, fun _ _ => rfl, fun _ => rfl,
      fun _ _ _ _ _ _ => rfl, ?_, fun _ h => h⟩
    intro r _ h
    rw [hat] at h
    rw [id_eq, ← h]
    rfl
  | some j =>
    obtain ⟨l, rfl⟩ := hlist j hat
    refine ⟨putAt (l.filter fun v => !gone v) o, rewriteRow (l.filter fun v => !gone v) o ri, ?_, ?_,
      rewrites_rewriteRow honce hat⟩
    · simp [rewriteAt, hat, Json.items, keepAt_strings, hri, ← rows_rewritten]
    · rw [get_putAt honce, leftBy_strings]

end Lists

/-! ## The rows through the walk -/

section Rows

variable {cse : CStr} {db db' : Db} {H C H' C' : Option CStr → Option CStr → Bool} {r r' r'' : Row}

/-- A content instance keeps what it is known by, and its list is cut as `H` and `C` of its `ri` and `pi` say. -/
structure CutAt (cse : CStr) (H C : Option CStr → Option CStr → Bool) (r r' : Row) : Prop where
  ty : r'.ty = r.ty
  known : r.ty = .cin → ∀ k ∈ [Attr.ri, .pi, .rn], r'.obj.get k = r.obj.get k
  list : r.ty = .cin → r'.obj.get .at = cutBy cse (H r.ri r.pi) (C r.ri r.pi) (r.obj.get .at)
  once : r.ty = .cin → (Assoc.entries r.obj .at).length ≤ 1 → (Assoc.entries r'.obj .at).length ≤ 1

theorem CutAt.ri (h : CutAt cse H C r r') (ht : r.ty = .cin) : r'.ri = r.ri := Obj.str_congr (h.known ht .ri (by simp))

theorem CutAt.pi (h : CutAt cse H C r r') (ht : r.ty = .cin) : r'.pi = r.pi := Obj.str_congr (h.known ht .pi (by simp))

theorem CutAt.refl (r : Row) : CutAt cse (fun _ _ => false) (fun _ _ => false) r r :=
  ⟨rfl, fun _ _ _ => rfl, fun _ => rfl, fun _ h => h⟩

theorem CutAt.trans (h : CutAt cse H C r r') (h' : CutAt cse H' C' r' r'') :
    CutAt cse (fun i p => H i p || H' i p) (fun i p => C i p || C' i p) r r'' where
  ty := h'.ty.trans h.ty
  known ht k hk := (h'.known (h.ty.trans ht) k hk).trans (h.known ht k hk)
  list ht := by
    rw [h'.list (h.ty.trans ht), h.ri ht, h.pi ht, h.list ht, cutBy_cutBy]
  once ht ho := h'.once (h.ty.trans ht) (h.once ht ho)

theorem CutAt.isInstance (h : CutAt cse H C r r') (ht : r.ty = .cin) (hr : r.IsInstance) : r'.IsInstance where
  ri := by rw [h.known ht .ri (by simp)]; exact hr.ri
  pi := by rw [h.known ht .pi (by simp)]; exact hr.pi
  rn := by rw [h.known ht .rn (by simp)]; exact hr.rn
  lists := by
    -- what is left of a list is a list
    have hleft : ∀ gone j, leftBy gone (r.obj.get .at) = some j → ∃ l : List CStr, j = .arr (l.map Json.str) := by
      intro gone j hj
      cases hat : r.obj.get .at with
      | none =>
        rw [hat] at hj
        cases hj
      | some j₀ =>
        rw [hat] at hj
        obtain ⟨l, rfl⟩ := hr.lists.2 j₀ hat
        rw [leftBy_strings] at hj
        unfold atOf at hj
        split at hj
        · cases hj
        · cases hj
          exact ⟨_, rfl⟩
    refine ⟨h.once ht hr.lists.1, fun j hj => ?_⟩
    rw [h.list ht] at hj
    unfold cutBy at hj
    split at hj
    · exact hleft _ j hj
    · split at hj
      · exact hleft _ j hj
      · exact hr.lists.2 j hj

/-- The database with the lists of the content instances cut as `H` and `C` say. -/
def CutRows (cse : CStr) (H C : Option CStr → Option CStr → Bool) (db db' : Db) : Prop :=
  List.Forall₂ (CutAt cse H C) db db'

theorem CutRows.refl (db : Db) : CutRows cse (fun _ _ => false) (fun _ _ => false) db db :=
  List.forall₂_same.mpr fun r _ => .refl r

theorem CutRows.trans {db'' : Db} (h : CutRows cse H C db db') (h' : CutRows cse H' C' db' db'') :
    CutRows cse (fun i p => H i p || H' i p) (fun i p => C i p || C' i p) db db'' := by
  induction h generalizing db'' with
  | nil =>
    cases h'
    exact .nil
  | cons hr _ ih =>
    cases h' with
    | cons hr' h' => exact .cons (hr.trans hr') (ih h')

theorem CutRows.congr (h : CutRows cse H C db db') (hH : ∀ r ∈ db, r.ty = .cin → H r.ri r.pi = H' r.ri r.pi)
    (hC : ∀ r ∈ db, r.ty = .cin → C r.ri r.pi = C' r.ri r.pi) : CutRows cse H' C' db db' := by
  induction h with
  | nil => exact .nil
  | @cons r r' _ _ hr _ ih =>
    refine .cons ⟨hr.ty, hr.known, fun ht => ?_, hr.once⟩ (ih (fun q hq => hH q (List.mem_cons_of_mem _ hq))
      fun q hq => hC q (List.mem_cons_of_mem _ hq))
    rw [← hH r List.mem_cons_self ht, ← hC r List.mem_cons_self ht]
    exact hr.list ht

/-- The database is as the walk needs it: content instances have all they are known by, and identifiers of their own. -/
structure InstanceRows (db : Db) : Prop where
  rows : ∀ r ∈ db, r.ty = .cin → r.IsInstance
  distinct : ((db.filter fun r => r.ty = .cin).map Row.ri).Nodup

theorem CutRows.ris (h : CutRows cse H C db db') :
    (db'.filter fun r => r.ty = .cin).map Row.ri = (db.filter fun r => r.ty = .cin).map Row.ri := by
  induction h with
  | nil => rfl
  | @cons r r' _ _ hr _ ih =>
    by_cases ht : r.ty = .cin
    · simp [hr.ty, ht, ih, hr.ri ht]
    · simp [hr.ty, ht, ih]

theorem CutRows.mem_of (h : CutRows cse H C db db') (hr' : r' ∈ db') : ∃ r ∈ db, CutAt cse H C r r' := by
  induction h with
  | nil => cases hr'
  | cons hr _ ih =>
    rcases List.mem_cons.mp hr' with rfl | hm
    · exact ⟨_, List.mem_cons_self, hr⟩
    · obtain ⟨r, hm', hc⟩ := ih hm
      exact ⟨r, List.mem_cons_of_mem _ hm', hc⟩

theorem CutRows.mem (h : CutRows cse H C db db') (hr : r ∈ db) : ∃ r' ∈ db', CutAt cse H C r r' := by
  induction h with
  | nil => cases hr
  | cons hc _ ih =>
    rcases List.mem_cons.mp hr with rfl | hm
    · exact ⟨_, List.mem_cons_self, hc⟩
    · obtain ⟨r', hm', hc'⟩ := ih hm
      exact ⟨r', List.mem_cons_of_mem _ hm', hc'⟩

theorem CutRows.instanceRows (h : CutRows cse H C db db') (hd : InstanceRows db) : InstanceRows db' where
  rows r' hr' ht := by
    obtain ⟨r, hr, hc⟩ := h.mem_of hr'
    exact hc.isInstance (hc.ty.symm.trans ht) (hd.rows r hr (hc.ty.symm.trans ht))
  distinct := by
    rw [h.ris]
    exact hd.distinct

theorem InstanceRows.eq (hd : InstanceRows db) (hr : r ∈ db) (hr' : r' ∈ db) (ht : r.ty = .cin) (ht' : r'.ty = .cin)
    (h : r.ri = r'.ri) : r = r' :=
  List.inj_on_of_nodup_map hd.distinct (by simpa using ⟨hr, ht⟩) (by simpa using ⟨hr', ht'⟩) h

/-- The walk over a resource in memory leaves the content instances alone. -/
theorem cutRows_memory {o : Obj} {ri : CStr} {g : CStr → Bool} {f : Row → Row} (h : Rewrites g o ri f)
    (hri : ∀ r ∈ db, r.ty = .cin → r.ri ≠ some ri) : CutRows cse (fun _ _ => false) (fun _ _ => false) db (db.map f) := by
  refine List.forall₂_map_right_iff.mpr (List.forall₂_same.mpr fun r hr => ?_)
  refine ⟨h.ty r, fun ht _ _ => ?_, fun ht => ?_, fun ht ho => ?_⟩
  · rw [h.others r (hri r hr ht)]
  · simp [h.others r (hri r hr ht), cutBy]
  · rwa [h.others r (hri r hr ht)]

/-- The rewriting of a content instance that is as its row says. -/
theorem cutRows_instance {gone : CStr → Bool} {held cached : Bool} (hgone : ∀ j, leftBy gone j = cutBy cse held cached j)
    {o : Obj} {ri : CStr} {f : Row → Row} (h : Rewrites gone o ri f) (hd : InstanceRows db)
    (hr : r ∈ db) (ht : r.ty = .cin) (hri : r.ri = some ri) (ho : ∀ k ∈ [Attr.ri, .pi, .rn, .at], o.get k = r.obj.get k) :
    CutRows cse (fun i _ => held && i = some ri) (fun i _ => cached && i = some ri) db (db.map f) := by
  have hcol : ∀ k ∈ [Attr.ri, .pi, .rn], ∀ v, r.obj.get k = some v → column v = some v := by
    have hi := hd.rows r hr ht
    intro k hk v hv
    obtain ⟨x, hx, hne⟩ : ∃ x : CStr, r.obj.get k = some (.str x) ∧ x ≠ [] := by
      simp only [List.mem_cons, List.not_mem_nil, or_false] at hk
      rcases hk with rfl | rfl | rfl
      · exact hi.ri
      · exact hi.pi
      · exact hi.rn
    rw [hx] at hv
    cases hv
    exact column_str hne
  refine List.forall₂_map_right_iff.mpr (List.forall₂_same.mpr fun q hq => ?_)
  refine ⟨h.ty q, fun htq k hk => ?_, fun htq => ?_, fun _ hon => h.once q hon⟩
  · by_cases hqi : q.ri = some ri
    · obtain rfl := hd.eq hq hr htq ht (hqi.trans hri.symm)
      have hk' : k ≠ .at ∧ k ≠ .uri := by
        simp only [List.mem_cons, List.not_mem_nil, or_false] at hk
        rcases hk with rfl | rfl | rfl <;> exact ⟨by decide, by decide⟩
      exact h.keys q k hk'.1 hk'.2 (ho k (by simp at hk ⊢; tauto)) (hcol k hk)
    · rw [h.others q hqi]
  · by_cases hqi : q.ri = some ri
    · obtain rfl := hd.eq hq hr htq ht (hqi.trans hri.symm)
      simp [hqi, h.list q hqi (ho .at (by simp)), hgone]
    · simp [hqi, h.others q hqi, cutBy]

end Rows

/-! ## The walk -/

section Walk

variable {cse : CStr} {db db' : Db}

/-- A row that is not cut stays as the node has it. -/
theorem CutRows.readFrom {H C : Option CStr → Option CStr → Bool} (h : CutRows cse H C db db') {n : RTNode}
    (hn : ReadFrom db n) (hH : H n.ri (n.obj.str .pi) = false) (hC : C n.ri (n.obj.str .pi) = false) : ReadFrom db' n := by
  obtain ⟨⟨r, hr, ht, hk⟩, hl⟩ := hn
  obtain ⟨r', hr', hc⟩ := h.mem hr
  have hri : n.ri = r.ri := Obj.str_congr (hk .ri (by simp))
  have hpi : n.obj.str .pi = r.pi := Obj.str_congr (hk .pi (by simp))
  rw [hri, hpi] at hH hC
  refine ⟨⟨r', hr', hc.ty.trans ht, fun k hmem => ?_⟩, hl⟩
  by_cases hat : k = .at
  · subst hat
    rw [hk .at (by simp), hc.list ht, hH, hC]
    rfl
  · rw [hk k hmem, hc.known ht k (by simp at hmem ⊢; tauto)]

/-- The loop over instances read from rows cuts the list of each. -/
theorem rewriteCins_spec {l : List RTNode} (hd : InstanceRows db) (hl : ∀ n ∈ l, ReadFrom db n)
    (hn : (l.map RTNode.ri).Nodup) : ∃ db', rewriteCins cse l db = some db' ∧
      CutRows cse (fun i _ => decide (i ∈ l.map RTNode.ri)) (fun _ _ => false) db db' := by
  induction l generalizing db with
  | nil => exact ⟨db, rfl, by simpa using CutRows.refl db⟩
  | cons n l ih =>
    obtain ⟨⟨r, hr, ht, hk⟩, hlists⟩ := hl n List.mem_cons_self
    have hrn : n.ri = r.ri := Obj.str_congr (hk .ri (by simp))
    obtain ⟨ri, hri, -⟩ := (hd.rows r hr ht).ri
    have hrri : r.ri = some ri := by simp [Row.ri, Obj.str, hri, Json.valuestring]
    obtain ⟨o', f, hf, -, hw⟩ := @rewriteAt_spec (fun v => cse.isPrefixOf v) _ _ db hlists (hrn.trans hrri)
    have hcut := @cutRows_instance cse _ _ _ true false (fun _ => rfl) _ _ _ hw hd hr ht hrri hk
    rw [List.map_cons, List.nodup_cons] at hn
    -- the rows of the instances to come are not touched
    have hrest : ∀ m ∈ l, ReadFrom (db.map f) m := by
      intro m hm
      obtain ⟨⟨q, hq, htq, hkq⟩, hlm⟩ := hl m (List.mem_cons_of_mem _ hm)
      have hqm : m.ri = q.ri := Obj.str_congr (hkq .ri (by simp))
      have hne : q.ri ≠ some ri := by
        intro h
        refine hn.1 ?_
        rw [hrn, hrri, ← h, ← hqm]
        exact List.mem_map_of_mem hm
      exact ⟨⟨q, List.mem_map.mpr ⟨q, hq, hw.others q hne⟩, htq, hkq⟩, hlm⟩
    obtain ⟨db', hdb', hcut'⟩ := ih (hcut.instanceRows hd) hrest hn.2
    refine ⟨db', by simp [rewriteCins, hf, hdb'], ?_⟩
    refine (hcut.trans hcut').congr (fun q _ _ => ?_) fun q _ _ => ?_
    · simp [hrn, hrri]
    · simp

theorem readFrom_instance {r : Row} (hd : InstanceRows db) (hr : r ∈ db) (ht : r.ty = .cin) {n : RTNode}
    (h : createRtnode 0 r.load .cin = some n) : ReadFrom db n := by
  have hent : ∀ k ∈ [Attr.ri, .pi, .rn, .at], Assoc.entries n.obj k = Assoc.entries r.obj k := by
    intro k hk
    have hout : k ∉ rewritten ∧ Attr.uri ≠ k := by
      simp only [List.mem_cons, List.not_mem_nil, or_false] at hk
      rcases hk with rfl | rfl | rfl | rfl <;> exact ⟨by decide, by decide⟩
    rw [entries_createRtnode h hout.1]
    exact List.filter_cons_of_neg (by simpa using hout.2)
  refine ⟨⟨r, hr, ht, fun k hk => Assoc.get_congr (hent k hk)⟩, ?_⟩
  have hlists := (hd.rows r hr ht).lists
  refine ⟨by rw [hent .at (by simp)]; exact hlists.1, fun j hj => hlists.2 j ?_⟩
  rw [← hj]
  exact (Assoc.get_congr (hent .at (by simp))).symm

/-- The instances of a container, read from their rows. -/
theorem instances_read (hd : InstanceRows db) (pi : CStr) : (∀ n ∈ db.dbGetCinRtnodeList pi, ReadFrom db n) ∧
    (db.dbGetCinRtnodeList pi).map RTNode.ri = (db.instances .cin pi).map Row.ri := by
  have hmem : ∀ r ∈ db.instances .cin pi, r ∈ db ∧ r.ty = .cin := by
    intro r hr
    simp only [Db.instances, List.mem_filter, Bool.and_eq_true, decide_eq_true_eq] at hr
    exact ⟨hr.1, hr.2.1⟩
  constructor
  · intro n hn
    obtain ⟨r, hr, hnode⟩ := List.mem_filterMap.mp hn
    exact readFrom_instance hd (hmem r hr).1 (hmem r hr).2 hnode
  · unfold Db.dbGetCinRtnodeList
    rw [List.map_filterMap]
    generalize db.instances .cin pi = l at hmem
    induction l with
    | nil => rfl
    | cons r l ih =>
      obtain ⟨hr, ht⟩ := hmem r List.mem_cons_self
      obtain ⟨rn, hrn, -⟩ := (hd.rows r hr ht).rn
      have hstr : r.load.str .rn = some rn := by
        show ((Assoc.get ((Attr.uri, Json.str r.uri) :: r.obj) .rn).bind Json.valuestring) = _
        rw [Assoc.get_cons, if_neg (by decide)]
        exact congrArg (·.bind Json.valuestring) hrn
      obtain ⟨n, hn⟩ := createRtnode_isSome hstr rfl 0 .cin
      have hri : n.ri = r.ri := by
        obtain ⟨⟨q, hq, htq, hk⟩, -⟩ := readFrom_instance hd hr ht hn
        have h := (createRtnode_some hn).2.2.2.2.2.2.2.1 .ri (by decide)
        refine Obj.str_congr (h.trans ?_)
        show Assoc.get ((Attr.uri, Json.str r.uri) :: r.obj) .ri = _
        rw [Assoc.get_cons, if_neg (by decide)]
      rw [List.filterMap_cons_some (b := n.ri) (by simp [hn]), List.map_cons, hri,
        ih fun q hq => hmem q (List.mem_cons_of_mem _ hq)]

/-- The content instances of one container. -/
theorem rewriteCins_instances (hd : InstanceRows db) (pi : CStr) : ∃ db', rewriteCins cse (db.dbGetCinRtnodeList pi) db = some db' ∧
    CutRows cse (fun _ p => decide (p = some pi)) (fun _ _ => false) db db' := by
  obtain ⟨hread, hris⟩ := instances_read hd pi
  have hsub : (db.instances .cin pi).Sublist (db.filter fun r => r.ty = .cin) := by
    rw [show db.instances .cin pi = (db.filter fun r => r.ty = .cin).filter fun r => r.pi = some pi from by
      simp only [Db.instances, List.filter_filter, Bool.and_comm]]
    exact List.filter_sublist
  have hnd : ((db.dbGetCinRtnodeList pi).map RTNode.ri).Nodup := by
    rw [hris]
    exact (hsub.map Row.ri).nodup hd.distinct
  obtain ⟨db', h, hcut⟩ := rewriteCins_spec hd hread hnd
  refine ⟨db', h, ?_⟩
  rw [hris] at hcut
  refine hcut.congr (fun r hr ht => decide_eq_decide.mpr ?_) fun _ _ _ => rfl
  have hmem : ∀ q ∈ db, q ∈ db.instances .cin pi ↔ q.ty = .cin ∧ q.pi = some pi := by
    intro q hq
    simp [Db.instances, hq]
  constructor
  · intro h
    obtain ⟨q, hq, hqr⟩ := List.mem_map.mp h
    have hqdb : q ∈ db := (hsub.trans List.filter_sublist).subset hq
    obtain ⟨htq, hpq⟩ := (hmem q hqdb).mp hq
    rwa [← hd.eq hqdb hr htq ht hqr]
  · exact fun h => List.mem_map_of_mem ((hmem r hr).mpr ⟨ht, h⟩)

/-- A node fits still where its own row is not cut. -/
theorem CutRows.nodeFits {H C : Option CStr → Option CStr → Bool} (h : CutRows cse H C db db') {n : RTNode} (hn : NodeFits db n)
    (hno : n.ty = .cin → H n.ri (n.obj.str .pi) = false ∧ C n.ri (n.obj.str .pi) = false) : NodeFits db' n where
  lists := hn.lists
  ri := hn.ri
  cached ht := h.readFrom (hn.cached ht) (hno ht).1 (hno ht).2
  apart hne r' hr' ht := by
    obtain ⟨r, hr, hc⟩ := h.mem_of hr'
    have ht' : r.ty = .cin := hc.ty.symm.trans ht
    rw [hc.ri ht']
    exact hn.apart hne r hr ht'

/-- The containers of a forest. -/
def heldIn (c : Forest RTNode) (pi : Option CStr) : Bool := c.nodes.any fun n => n.ty = .cnt && n.ri = pi

/-- The cached instances of a forest. -/
def cachedIn (c : Forest RTNode) (ri : Option CStr) : Bool := c.nodes.any fun n => n.ty = .cin && n.ri = ri

/-- A cached instance is one of the resource the forest hangs below, or of one in it. -/
theorem HangsBelow.pi {c : Forest RTNode} {pi : Option CStr} (h : HangsBelow pi c) {n : RTNode} (hn : n ∈ c.nodes) (ht : n.ty = .cin) :
    n.obj.str .pi = pi ∨ ∃ m ∈ c.nodes, n.obj.str .pi = m.ri := by
  induction c generalizing pi with
  | nil => cases hn
  | node m c s ihc ihs =>
    obtain ⟨hm, hc, hs⟩ := h
    rw [Forest.nodes, List.mem_cons, List.mem_append] at hn
    rcases hn with rfl | hn | hn
    · exact .inl (hm ht)
    · rcases ihc hc hn with hp | ⟨k, hk, hp⟩
      · exact .inr ⟨m, by simp [Forest.nodes], hp⟩
      · exact .inr ⟨k, by simp [Forest.nodes, hk], hp⟩
    · rcases ihs hs hn with hp | ⟨k, hk, hp⟩
      · exact .inl hp
      · exact .inr ⟨k, by simp [Forest.nodes, hk], hp⟩

/-- What one node of the walk has become. -/
def NodeCut (cse : CStr) (n n' : RTNode) : Prop :=
  n'.id = n.id ∧ n'.obj.get .at = leftBy (fun v => checkResourceCseID v cse) (n.obj.get .at)

theorem heldIn_eq_false {c : Forest RTNode} {pi : Option CStr} (h : ∀ n ∈ c.nodes, n.ri ≠ pi) : heldIn c pi = false := by
  unfold heldIn
  rw [List.any_eq_false]
  intro n hn
  simp [h n hn]

theorem cachedIn_eq_false {c : Forest RTNode} {ri : Option CStr} (h : ∀ n ∈ c.nodes, n.ri ≠ ri) : cachedIn c ri = false := by
  unfold cachedIn
  rw [List.any_eq_false]
  intro n hn
  simp [h n hn]

/-- The instances of a node, where it is a container. -/
theorem rewriteInstances_spec (hd : InstanceRows db) {n : RTNode} {ri : CStr} (hri : n.ri = some ri) :
    ∃ db', rewriteInstances cse n db = some db' ∧
      CutRows cse (fun _ p => n.ty = .cnt && n.ri = p) (fun _ _ => false) db db' := by
  unfold rewriteInstances
  by_cases ht : n.ty = .cnt
  · obtain ⟨db₂, h, hcut⟩ := @rewriteCins_instances cse db hd ri
    refine ⟨db₂, by rw [if_pos ht, hri]; exact h, hcut.congr (fun r _ _ => ?_) fun _ _ _ => rfl⟩
    rw [hri]
    simp [ht, eq_comm]
  · refine ⟨db, if_neg ht, (CutRows.refl db).congr (fun r _ _ => ?_) fun _ _ _ => rfl⟩
    simp [ht]

/-- The list of a node in memory, and of the row of a cached instance. -/
theorem rewriteNode_spec (hd : InstanceRows db) {n : RTNode} (hn : NodeFits db n) :
    ∃ o' db', rewriteAt (fun v => checkResourceCseID v cse) n.obj db = some (o', db') ∧
      o'.get .at = leftBy (fun v => checkResourceCseID v cse) (n.obj.get .at) ∧
      CutRows cse (fun _ _ => false) (fun i _ => n.ty = .cin && n.ri = i) db db' := by
  obtain ⟨ri, hri⟩ := hn.ri
  obtain ⟨o', f, hf, hat, hw⟩ := @rewriteAt_spec (fun v => checkResourceCseID v cse) _ _ db hn.lists hri
  refine ⟨o', _, hf, hat, ?_⟩
  by_cases ht : n.ty = .cin
  · obtain ⟨⟨r, hr, htr, hk⟩, -⟩ := hn.cached ht
    have hrri : r.ri = some ri := (Obj.str_congr (hk .ri (by simp))).symm.trans hri
    refine (@cutRows_instance cse _ _ _ false true (fun _ => rfl) _ _ _ hw hd hr htr hrri hk).congr
      (fun _ _ _ => Bool.false_and _) fun q _ _ => ?_
    rw [hri]
    simp [ht, eq_comm]
  · refine (cutRows_memory hw fun r hr htr => ?_).congr (fun _ _ _ => rfl) fun q _ _ => ?_
    · rw [← hri]
      exact hn.apart ht r hr htr
    · simp [ht]

/-- The walk cuts the lists of the nodes under the CSE, with those of the rows of cached instances, and those of the
instances of the containers it comes to at what begins with the same characters. -/
theorem removeChildAnnc_spec (c : Forest RTNode) {pi : Option CStr} (hd : InstanceRows db) (hc : ∀ n ∈ c.nodes, NodeFits db n)
    (hnd : (c.nodes.map RTNode.ri).Nodup) (hpi : ∀ n ∈ c.nodes, n.ri ≠ pi) (hplaced : HangsBelow pi c) :
    ∃ c' db', removeChildAnnc cse c db = some (c', db') ∧ List.Forall₂ (NodeCut cse) c.nodes c'.nodes ∧
      CutRows cse (fun _ p => heldIn c p) (fun i _ => cachedIn c i) db db' := by
  induction c generalizing db pi with
  | nil => exact ⟨.nil, db, rfl, .nil, .refl db⟩
  | node n c s ihc ihs =>
    obtain ⟨hplacedn, hplacedc, hplaceds⟩ := hplaced
    rw [Forest.nodes, List.map_cons, List.map_append, List.nodup_cons, List.mem_append, not_or] at hnd
    obtain ⟨⟨hnc, hns⟩, hnd⟩ := hnd
    rw [List.nodup_append] at hnd
    obtain ⟨hndc, hnds, hapart⟩ := hnd
    have hcn : ∀ m ∈ c.nodes, m.ri ≠ n.ri := fun m hm he => hnc (he ▸ List.mem_map_of_mem hm)
    have hsn : ∀ m ∈ s.nodes, m.ri ≠ n.ri := fun m hm he => hns (he ▸ List.mem_map_of_mem hm)
    have hcs : ∀ m ∈ c.nodes, ∀ k ∈ s.nodes, m.ri ≠ k.ri := fun m hm k hk =>
      hapart _ (List.mem_map_of_mem hm) _ (List.mem_map_of_mem hk)
    have hpin : n.ri ≠ pi := hpi n (by simp [Forest.nodes])
    have hpic : ∀ m ∈ c.nodes, m.ri ≠ pi := fun m hm => hpi m (by simp [Forest.nodes, hm])
    have hpis : ∀ m ∈ s.nodes, m.ri ≠ pi := fun m hm => hpi m (by simp [Forest.nodes, hm])
    have hfits : NodeFits db n := hc n (by simp [Forest.nodes])
    obtain ⟨ri, hri⟩ := hfits.ri
    obtain ⟨c', db₁, hc', hnodes, hcut₁⟩ := ihc hd (fun m hm => hc m (by simp [Forest.nodes, hm])) hndc hcn hplacedc
    have hd₁ := hcut₁.instanceRows hd
    obtain ⟨db₂, hins, hcut₂⟩ := @rewriteInstances_spec cse _ hd₁ n ri hri
    have hd₂ := hcut₂.instanceRows hd₁
    -- the row of a cached instance is not touched before the walk comes to it
    have hfits₂ : NodeFits db₂ n := by
      refine (hcut₁.trans hcut₂).nodeFits hfits fun ht => ?_
      rw [hplacedn ht, heldIn_eq_false hpic, cachedIn_eq_false hcn]
      simp [hpin]
    obtain ⟨o', db₃, hf, hat, hcut₃⟩ := @rewriteNode_spec cse _ hd₂ _ hfits₂
    have hcut := (hcut₁.trans hcut₂).trans hcut₃
    have hfitss : ∀ m ∈ s.nodes, NodeFits db₃ m := by
      intro m hm
      refine hcut.nodeFits (hc m (by simp [Forest.nodes, hm])) fun ht => ?_
      have hno : (∀ k ∈ c.nodes, k.ri ≠ m.obj.str .pi) ∧ n.ri ≠ m.obj.str .pi := by
        rcases hplaceds.pi hm ht with hp | ⟨k, hk, hp⟩
        · rw [hp]
          exact ⟨hpic, hpin⟩
        · rw [hp]
          exact ⟨fun q hq => hcs q hq k hk, (hsn k hk).symm⟩
      rw [heldIn_eq_false hno.1, cachedIn_eq_false fun k hk => hcs k hk m hm]
      simp [hno.2, (hsn m hm).symm]
    obtain ⟨s', db', hs', hnodes', hcut₄⟩ := ihs (hcut₃.instanceRows hd₂) hfitss hnds hpis hplaceds
    refine ⟨.node { n with obj := o' } c' s', db', ?_, .cons ⟨rfl, hat⟩ (List.rel_append hnodes hnodes'), ?_⟩
    · simp [removeChildAnnc, hc', hins, hf, hs']
    · refine (hcut.trans hcut₄).congr (fun r _ _ => ?_) fun r _ _ => ?_
      · simp only [heldIn, Forest.nodes, List.any_cons, List.any_append, Bool.or_false]
        cases c.nodes.any fun m => m.ty = .cnt && m.ri = r.pi <;> simp
      · simp only [cachedIn, Forest.nodes, List.any_cons, List.any_append, Bool.or_false]
        cases c.nodes.any fun m => m.ty = .cin && m.ri = r.ri <;> simp

end Walk

/-! ## The withdrawn announcement -/

section Withdrawn

variable {cse : CStr} {t : RTNode} {s : Server} {r r' : Row}

theorem leftWithout_leftBy {old : Option Json} : LeftWithout cse old (leftBy (fun v => checkResourceCseID v cse) old) := by
  refine ⟨fun h => by rw [h]; rfl, ?_⟩
  rintro l rfl
  rw [leftBy_strings]
  congr 1
  refine List.filter_congr fun v _ => ?_
  cases h : checkResourceCseID v cse <;> simp [liesUnder_iff, h]

theorem strings_inj {l l' : List CStr} (h : l.map Json.str = l'.map Json.str) : l = l' :=
  List.map_injective_iff.mpr (fun _ _ h => Json.str.inj h) h

theorem leftWithout_strings {l : List CStr} {new : Option Json} :
    LeftWithout cse (some (.arr (l.map Json.str))) new ↔ new = atOf (l.filter fun v => ¬ LiesUnder cse v) := by
  constructor
  · intro h
    exact h.2 l rfl
  · intro h
    refine ⟨nofun, fun l' hl => ?_⟩
    obtain rfl : l = l' := strings_inj (by simpa using hl)
    exact h

theorem atOf_inj {l l' : List CStr} (h : atOf l = atOf l') : l = l' := by
  unfold atOf at h
  split at h <;> split at h
  · simp_all
  · cases h
  · cases h
  · exact strings_inj (by simpa using h)

/-- The two comparisons leave the same of a list when none of its entries only begins with the characters of the CSE. -/
theorem leftWithout_prefix_iff {l : List CStr} :
    LeftWithout cse (some (.arr (l.map Json.str))) (leftBy (fun v => cse.isPrefixOf v) (some (.arr (l.map Json.str)))) ↔
      ∀ v ∈ l, cse <+: v → LiesUnder cse v := by
  rw [leftWithout_strings, leftBy_strings]
  constructor
  · intro h v hv hp
    by_contra hn
    -- the entry stays in the one list and goes from the other
    have hin : v ∈ l.filter fun v => ¬ LiesUnder cse v := List.mem_filter.mpr ⟨hv, by simpa using hn⟩
    rw [← atOf_inj h] at hin
    have hnot := (List.mem_filter.mp hin).2
    rw [List.isPrefixOf_iff_prefix.mpr hp] at hnot
    cases hnot
  · intro h
    congr 1
    refine List.filter_congr fun v hv => ?_
    by_cases hu : LiesUnder cse v
    · have hp : cse <+: v := by
        obtain ⟨rest, rfl⟩ := hu
        exact ⟨_, rfl⟩
      simp [hu, List.isPrefixOf_iff_prefix.mpr hp]
    · have hp : cse.isPrefixOf v = false := by
        by_contra hp
        exact hu (h v hv (List.isPrefixOf_iff_prefix.mp (by simpa using hp)))
      simp [hu, hp]

theorem leftWithout_same_iff {l : List CStr} :
    LeftWithout cse (some (.arr (l.map Json.str))) (some (.arr (l.map Json.str))) ↔ l ≠ [] ∧ ∀ v ∈ l, ¬ LiesUnder cse v := by
  rw [leftWithout_strings]
  constructor
  · intro h
    have hne : l ≠ [] := by
      rintro rfl
      cases h
    have hat : atOf l = some (.arr (l.map Json.str)) := if_neg hne
    have hl := atOf_inj (hat.trans h)
    exact ⟨hne, fun v hv => by simpa using List.filter_eq_self.mp hl.symm v hv⟩
  · rintro ⟨hne, h⟩
    rw [List.filter_eq_self.mpr fun v hv => by simpa using h v hv]
    exact (if_neg hne).symm

theorem removeChildAnnc_withdrawn (hs : Announceable t s) : ∃ s', s.removeChildAnnc t.id cse = some s' ∧
    List.Forall₂ (NodeCut cse) (s.children t.id).nodes (s'.children t.id).nodes ∧
    CutRows cse (fun _ p => heldIn (s.children t.id) p) (fun i _ => cachedIn (s.children t.id) i) s.db s'.db := by
  obtain ⟨c', db', h, hnodes, hrows⟩ := @removeChildAnnc_spec cse _ (s.children t.id) _ ⟨hs.rows, hs.distinct⟩
    (fun n hn => (hs.nodes n hn).2) hs.distinctNodes (fun n hn => (hs.nodes n hn).1) hs.placed
  refine ⟨_, by simp [Server.removeChildAnnc, h]; rfl, ?_, hrows⟩
  have hchildren : Server.children { s with tree := s.tree.graft (RTNode.hasId t.id) fun _ => c', db := db' } t.id = c' := by
    unfold Server.children
    obtain ⟨e, he⟩ : ∃ e, s.tree.cell? (RTNode.hasId t.id) = some e := by
      have hfound := hs.found
      unfold Server.node? Forest.find? at hfound
      rw [← Forest.cells_map_fst, List.find?_map] at hfound
      obtain ⟨e, he, -⟩ := Option.map_eq_some_iff.mp hfound
      exact ⟨e, he⟩
    rw [Forest.cell?_graft, he]
    rfl
  rw [hchildren]
  exact hnodes

theorem heldIn_iff {c : Forest RTNode} {pi : Option CStr} :
    heldIn c pi = true ↔ ∃ n ∈ c.nodes, n.ty = .cnt ∧ n.ri = pi := by
  simp [heldIn]

theorem cachedIn_iff {c : Forest RTNode} {ri : Option CStr} :
    cachedIn c ri = true ↔ ∃ n ∈ c.nodes, n.ty = .cin ∧ n.ri = ri := by
  simp [cachedIn]

/-- A row that the walk leaves as it is, or cuts at the characters of the CSE or at the entries under it. -/
theorem row_withdrawn_iff (hs : Announceable t s) (hr : r ∈ s.db)
    (h : CutAt cse (fun _ p => heldIn (s.children t.id) p) (fun i _ => cachedIn (s.children t.id) i) r r') :
    (r'.ty = r.ty ∧ (InstanceBelow s t r → r'.ri = r.ri ∧ LeftWithout cse (r.obj.get .at) (r'.obj.get .at))) ↔
      (r.ty = .cin → ∀ l : List CStr, r.obj.get .at = some (.arr (l.map Json.str)) →
        (heldIn (s.children t.id) r.pi = true → ∀ v ∈ l, cse <+: v → LiesUnder cse v) ∧
        (t.ty = .cnt → r.pi = t.ri → cachedIn (s.children t.id) r.ri = false → l ≠ [] ∧ ∀ v ∈ l, ¬ LiesUnder cse v)) := by
  -- the instances of the resource itself are in no container below it
  have hown : r.pi = t.ri → heldIn (s.children t.id) r.pi = false := by
    intro hp
    by_contra hh
    obtain ⟨n, hn, -, hri⟩ := heldIn_iff.mp (by simpa using hh)
    exact (hs.nodes n hn).1 (hri.trans hp)
  constructor
  · rintro ⟨-, hw⟩ ht l hl
    have hlist := h.list ht
    constructor
    · intro hh
      obtain ⟨n, hn, htn, hri⟩ := heldIn_iff.mp hh
      obtain ⟨-, hleft⟩ := hw ⟨ht, n, .inr hn, htn, hri.symm⟩
      rw [hlist, hh, hl] at hleft
      exact leftWithout_prefix_iff.mp hleft
    · intro htt hp hcached
      obtain ⟨-, hleft⟩ := hw ⟨ht, t, .inl rfl, htt, hp⟩
      rw [hlist, hown hp, hcached, hl] at hleft
      exact leftWithout_same_iff.mp hleft
  · intro hw
    refine ⟨h.ty, ?_⟩
    rintro ⟨ht, n, hn, htn, hri⟩
    refine ⟨h.ri ht, ?_⟩
    rw [h.list ht]
    cases hat : r.obj.get .at with
    | none =>
      refine ⟨fun _ => ?_, nofun⟩
      unfold cutBy
      split
      · rfl
      · split <;> rfl
    | some j =>
      obtain ⟨l, rfl⟩ := (hs.rows r hr ht).lists.2 j hat
      obtain ⟨hbelow, hself⟩ := hw ht l hat
      rcases hn with rfl | hn
      · rw [hown hri]
        cases hcached : cachedIn (s.children n.id) r.ri with
        | false => exact leftWithout_same_iff.mpr (hself htn hri hcached)
        | true => exact leftWithout_leftBy
      · have hh : heldIn (s.children t.id) r.pi = true := heldIn_iff.mpr ⟨n, hn, htn, hri.symm⟩
        rw [hh]
        exact leftWithout_prefix_iff.mpr (hbelow hh)

/-- Where a relation holds of a step from an element on just a condition on the element, it holds of lists related by
the steps on that condition on all of them. -/
theorem forall₂_iff_of {α β : Type} {P Q : α → β → Prop} {C : α → Prop} {l : List α} {l' : List β} (h : List.Forall₂ Q l l')
    (hC : ∀ a ∈ l, ∀ b, Q a b → (P a b ↔ C a)) : List.Forall₂ P l l' ↔ ∀ a ∈ l, C a := by
  induction h with
  | nil => simp
  | @cons a b l l' hab _ ih =>
    rw [List.forall₂_cons, List.forall_mem_cons, hC a List.mem_cons_self b hab,
      ih fun a ha => hC a (List.mem_cons_of_mem _ ha)]

/-- The walk withdraws the announcement below the resource just when no content instance is mistaken. -/
theorem withdrawn_iff {s' : Server} (hs : Announceable t s)
    (hnodes : List.Forall₂ (NodeCut cse) (s.children t.id).nodes (s'.children t.id).nodes)
    (hrows : CutRows cse (fun _ p => heldIn (s.children t.id) p) (fun i _ => cachedIn (s.children t.id) i) s.db s'.db) :
    AnncWithdrawn cse t s s' ↔ NoneMistaken cse t s := by
  have hmem : List.Forall₂ (fun n n' => n'.id = n.id ∧ LeftWithout cse (n.obj.get .at) (n'.obj.get .at))
      (s.children t.id).nodes (s'.children t.id).nodes := by
    refine hnodes.imp fun n n' h => ⟨h.1, ?_⟩
    rw [h.2]
    exact leftWithout_leftBy
  have hstored : List.Forall₂ (fun r r' => r'.ty = r.ty ∧
      (InstanceBelow s t r → r'.ri = r.ri ∧ LeftWithout cse (r.obj.get .at) (r'.obj.get .at))) s.db s'.db ↔
      ∀ r ∈ s.db, r.ty = .cin → ∀ l : List CStr, r.obj.get .at = some (.arr (l.map Json.str)) →
        (heldIn (s.children t.id) r.pi = true → ∀ v ∈ l, cse <+: v → LiesUnder cse v) ∧
        (t.ty = .cnt → r.pi = t.ri → cachedIn (s.children t.id) r.ri = false → l ≠ [] ∧ ∀ v ∈ l, ¬ LiesUnder cse v) :=
    forall₂_iff_of hrows fun r hr r' hc => row_withdrawn_iff hs hr hc
  constructor
  · rintro ⟨-, h⟩
    have h := hstored.mp h
    refine ⟨fun ht r hr htr hp hno l hl => (h r hr htr l hl).2 ht hp (Bool.eq_false_iff.mpr fun hin => ?_), fun n hn htn r hr htr hp l hl => ?_⟩
    · obtain ⟨n, hn, htn, hri⟩ := cachedIn_iff.mp hin
      exact hno n hn htn hri
    · exact (h r hr htr l hl).1 (heldIn_iff.mpr ⟨n, hn, htn, hp.symm⟩)
  · intro h
    refine ⟨hmem, hstored.mpr fun r hr htr l hl => ⟨fun hh => ?_, fun ht hp hno => ?_⟩⟩
    · obtain ⟨n, hn, htn, hri⟩ := heldIn_iff.mp hh
      exact h.below n hn htn r hr htr hri.symm l hl
    · refine h.own ht r hr htr hp (fun n hn htn hri => ?_) l hl
      rw [cachedIn_iff.mpr ⟨n, hn, htn, hri⟩] at hno
      cases hno

/-- An instance of the container `pi`, with what it is announced to. -/
def announcedInstance (ri pi : String) (entries : List CStr) : Obj :=
  [(.ri, .str ri.toList), (.pi, .str pi.toList), (.rn, .str ri.toList), (.at, .arr (entries.map Json.str))]

def announcedNode : RTNode := ⟨1, .cnt, "c".toList, [], [(.ri, .str "3-1".toList)], [], [], 0⟩

/-- What is below the container: another one, and the latest instance of each in memory. -/
def belowAnnounced (own entries : List CStr) : Forest RTNode :=
  .node ⟨2, .cnt, "d".toList, [], [(.ri, .str "3-2".toList)], [], [], 0⟩
    (.node ⟨3, .cin, "4-1".toList, [], announcedInstance "4-1" "3-2" entries, [], [], 0⟩ .nil .nil)
    (.node ⟨4, .cin, "4-2".toList, [], announcedInstance "4-2" "3-1" own, [], [], 0⟩ .nil .nil)

/-- The container over another, each with one instance: that of the container itself is announced to `own`, the other one
to `entries`. -/
def announcedTree (own entries : List CStr) : Server where
  tree := .node ⟨0, .cse, cseBaseName, [], [(.ri, .str cseBaseRi)], [], [], 0⟩
    (.node announcedNode (belowAnnounced own entries) .nil) .nil
  csrList := []
  db := [⟨"TinyIoT/c/d/4-1".toList, .cin, announcedInstance "4-1" "3-2" entries⟩,
    ⟨"TinyIoT/c/4-2".toList, .cin, announcedInstance "4-2" "3-1" own⟩]
  nextId := 5
  riCount := 0

/-- Every remote CSE answers. -/
def answering : AnncEnv := ⟨fun _ => true, fun _ => none⟩

theorem listsAddresses_announcedInstance (ri pi : String) (entries : List CStr) :
    ListsAddresses (announcedInstance ri pi entries) := by
  refine ⟨Nat.le_refl 1, fun j hj => ?_⟩
  cases hj
  exact ⟨entries, rfl⟩

theorem announceable_announcedTree (own entries : List CStr) : Announceable announcedNode (announcedTree own entries) where
  found := rfl
  nodes := by
    intro n hn
    replace hn : n ∈ (belowAnnounced own entries).nodes := hn
    simp only [belowAnnounced, Forest.nodes, List.nil_append, List.cons_append, List.mem_cons, List.not_mem_nil, or_false] at hn
    rcases hn with rfl | rfl | rfl
    · refine ⟨by decide, ⟨Nat.zero_le 1, fun j hj => by cases hj⟩, ⟨"3-2".toList, rfl⟩, fun hty => (by cases hty),
        fun _ r hr _ => ?_⟩
      rcases List.mem_pair.mp hr with rfl | rfl
      · exact fun h : some "4-1".toList = some "3-2".toList => absurd h (by decide)
      · exact fun h : some "4-2".toList = some "3-2".toList => absurd h (by decide)
    · refine ⟨fun h : some "4-1".toList = some "3-1".toList => absurd h (by decide), listsAddresses_announcedInstance ..,
        ⟨_, rfl⟩, fun _ => ⟨⟨_, List.mem_cons_self, rfl, fun _ _ => rfl⟩, listsAddresses_announcedInstance ..⟩,
        fun hty => absurd rfl hty⟩
    · refine ⟨fun h : some "4-2".toList = some "3-1".toList => absurd h (by decide), listsAddresses_announcedInstance ..,
        ⟨_, rfl⟩, fun _ => ⟨⟨_, List.mem_pair.mpr (.inr rfl), rfl, fun _ _ => rfl⟩, listsAddresses_announcedInstance ..⟩,
        fun hty => absurd rfl hty⟩
  distinctNodes := by
    show ([some "3-2".toList, some "4-1".toList, some "4-2".toList]).Nodup
    decide
  placed := ⟨fun hty => (by cases hty), ⟨fun _ => rfl, trivial, trivial⟩, fun _ => rfl, trivial, trivial⟩
  rows := by
    intro r hr _
    rcases List.mem_pair.mp hr with rfl | rfl
    · exact ⟨⟨_, rfl, by decide⟩, ⟨_, rfl, by decide⟩, ⟨_, rfl, by decide⟩, listsAddresses_announcedInstance ..⟩
    · exact ⟨⟨_, rfl, by decide⟩, ⟨_, rfl, by decide⟩, ⟨_, rfl, by decide⟩, listsAddresses_announcedInstance ..⟩
  distinct := by
    show ([some "4-1".toList, some "4-2".toList]).Nodup
    decide

end Withdrawn

end TinyIoT
