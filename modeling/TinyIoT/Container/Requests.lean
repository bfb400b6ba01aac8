/-
The accounting invariant over the server's own operations: writing a node back, leaving groups,
counting an instance in and out, freeing a node.
-/
import TinyIoT.Container.Eviction

namespace TinyIoT

/-- `s'` has the rows of `s` as far as the accounting goes, and the invariant. -/
structure KeepsBooks (d : Pending) (s s' : Server) : Prop where
  inv : CntInv d s'
  keys : s'.db.keys .cin = s.db.keys .cin

namespace CntInv

variable {d : Pending} {s s' : Server}

/-- Nothing but the counter of `resource_identifier` and the like changes. -/
theorem congr (h : CntInv d s) (ht : s'.tree = s.tree) (hdb : s'.db = s.db) (hn : s'.nextId = s.nextId) :
    CntInv d s' := by
  refine ⟨h.shape.congr ht hn.ge, ?_, ?_⟩
  · rw [ht, hdb]; exact h.books
  · rw [hdb]; exact h.rows

/-- Assignment to the object of a node that keeps the counted attributes. -/
theorem setObj_same (h : CntInv d s) {n : RTNode} {o : Obj} (hn : n ∈ s.tree.nodes)
    (ho : ∀ k ∈ counted, o.get k = n.obj.get k) : CntInv d (s.setObj n.id o) := by
  refine ⟨h.shape.modify rfl (fun m _ _ => ⟨rfl, rfl, rfl, rfl⟩) rfl, ?_, h.rows⟩
  refine h.books.same fun m hm => ?_
  rw [Server.setObj, Server.nodes_modifyNode] at hm
  obtain ⟨m₀, hm₀, rfl⟩ := List.mem_map.mp hm
  refine ⟨m₀, hm₀, ?_⟩
  by_cases hid : m₀.id = n.id
  · rw [if_pos hid]
    obtain rfl := h.shape.ids.eq hm₀ hn hid
    exact ⟨rfl, rfl, ho⟩
  · rw [if_neg hid]
    exact SameCounts.refl m₀

/-- A write to the rows that keeps the ledger. -/
theorem setDb (h : CntInv d s) {db : Db} (hk : db.keys .cin = s.db.keys .cin)
    (hp : ∀ r ∈ db, PlainRow r) : CntInv d { s with db := db } := by
  refine ⟨h.shape.congr rfl le_rfl, ?_, hp⟩
  rw [hk]
  exact h.books

theorem keys_eq_of_ri (h : CntInv d s) {k k' : Key} (hk : k ∈ s.db.keys .cin) (hk' : k' ∈ s.db.keys .cin)
    (he : k.ri = k'.ri) : k = k' :=
  List.inj_on_of_nodup_map h.books.nodupRi hk hk' he

theorem freeRtnode (h : CntInv d s) (i : Nat) : CntInv d (s.freeRtnode i) := by
  refine ⟨h.shape.remove rfl rfl, ?_, h.rows⟩
  exact h.books.mono fun m hm => (Forest.nodes_remove_sublist _ _).subset hm

theorem freePtr (h : CntInv d s) (p : Ptr) : CntInv d (s.freePtr p) := by
  unfold Server.freePtr
  split
  · exact h.freeRtnode _
  · exact h

/-- A write to the row of a node that is no content instance. -/
theorem updateRow (h : CntInv d s) {n : RTNode} {ri : CStr} (hn : n ∈ s.tree.nodes) (hty : n.ty ≠ .cin)
    (hri : n.ri = some ri) (o : Obj) : KeepsBooks d s { s with db := s.db.dbUpdateResource o ri } := by
  have hkeys : (s.db.dbUpdateResource o ri).keys .cin = s.db.keys .cin := by
    apply Db.keys_dbUpdateResource_of_apart
    intro k hk
    rw [← hri]
    exact h.books.apart k hk n hn hty
  exact ⟨h.setDb hkeys (plain_dbUpdate h.rows), hkeys⟩

/-- An assignment to a container that moves its counters. -/
theorem setObj_counters (h : CntInv d s) {n : RTNode} {ri : CStr} {o : Obj} {a b : Int}
    (hn : n ∈ s.tree.nodes) (hty : n.ty = .cnt) (hri : n.obj.get .ri = some (.str ri)) (hri0 : ri ≠ [])
    (hcni : o.get .cni = some (.int (s.db.count .cin ri + (d ri).1 + a)))
    (hcbs : o.get .cbs = some (.int (s.db.total .cin ri + (d ri).2 + b)))
    (hsame : ∀ k ∈ [Attr.ri, .pi, .cs], o.get k = n.obj.get k) :
    CntInv (d.bump ri a b) (s.setObj n.id o) := by
  refine ⟨h.shape.modify rfl (fun m _ _ => ⟨rfl, rfl, rfl, rfl⟩) rfl, ?_, h.rows⟩
  refine h.books.bumpNode hn hty hri hri0 hcni hcbs hsame fun m hm => ?_
  rw [Server.setObj, Server.nodes_modifyNode] at hm
  obtain ⟨m₀, hm₀, rfl⟩ := List.mem_map.mp hm
  by_cases hid : m₀.id = n.id
  · obtain rfl := h.shape.ids.eq hm₀ hn hid
    rw [if_pos rfl]
    exact .inl ⟨rfl, hty, rfl⟩
  · rw [if_neg hid]
    exact .inr ⟨hm₀, hid⟩

/-- Writing a container back once its object has been assigned. -/
theorem persist_of_setObj {n : RTNode} {ri : CStr} {o : Obj} (hn : n ∈ s.tree.nodes) (hty : n.ty ≠ .cin)
    (hri : o.str .ri = some ri) (h : CntInv d (s.setObj n.id o)) :
    KeepsBooks d s (s.persist (.inTree n.id) o) := by
  have hk := h.updateRow (n := { n with obj := o }) (Server.mem_setObj hn o) hty hri o
  unfold Server.persist Server.assign
  simp only [hri]
  exact ⟨hk.inv, hk.keys⟩

/-- Writing a container back with its counters moved. -/
theorem persist_counters (h : CntInv d s) {n : RTNode} {ri : CStr} {o : Obj} {a b : Int}
    (hn : n ∈ s.tree.nodes) (hty : n.ty = .cnt) (hri : n.obj.get .ri = some (.str ri)) (hri0 : ri ≠ [])
    (hcni : o.get .cni = some (.int (s.db.count .cin ri + (d ri).1 + a)))
    (hcbs : o.get .cbs = some (.int (s.db.total .cin ri + (d ri).2 + b)))
    (hsame : ∀ k ∈ [Attr.ri, .pi, .cs], o.get k = n.obj.get k) :
    KeepsBooks (d.bump ri a b) s (s.persist (.inTree n.id) o) := by
  have hori : o.str .ri = some ri := by
    unfold Obj.str
    rw [hsame .ri (by decide), hri]
    rfl
  exact persist_of_setObj hn (by rw [hty]; decide) hori (h.setObj_counters hn hty hri hri0 hcni hcbs hsame)

/-- A row is taken out by its identifier. -/
theorem dropRow (h : CntInv d s) {k : Key} {pi : CStr} {db : Db} (hk : k ∈ s.db.keys .cin)
    (hpi : k.pi = some pi) (hkeys : db.keys .cin = (s.db.keys .cin).filter fun k' => k'.ri ≠ k.ri)
    (hp : ∀ r ∈ db, PlainRow r) : CntInv (d.bump pi 1 k.size) { s with db := db } := by
  refine ⟨h.shape.congr rfl le_rfl, ?_, hp⟩
  rw [hkeys]
  exact h.books.dropKey hk hpi

theorem plain_dbDelete (h : CntInv d s) (n : RTNode) : ∀ r ∈ s.db.dbDeleteOnem2mResource n, PlainRow r :=
  fun r hr => h.rows r (Db.mem_dbDelete hr)

/-- What `bumpCnt` does to a container, where nothing overflows. -/
theorem bumpCnt_counts {cnt cin o : Obj} {sign x y : Int} {j : Json} (hx : cnt.get .cni = some (.int x))
    (hy : cnt.get .cbs = some (.int y)) (hc : cin.get .cs = some j) (h : bumpCnt cnt cin sign = some o)
    (hxr : intMin ≤ x ∧ x ≤ intMax) (hyr : intMin ≤ y ∧ y ≤ intMax)
    (hx' : intMin ≤ x + sign ∧ x + sign ≤ intMax)
    (hy' : intMin ≤ y + sign * j.valueint ∧ y + sign * j.valueint ≤ intMax) :
    o.get .cni = some (.int (x + sign)) ∧ o.get .cbs = some (.int (y + sign * j.valueint)) ∧
      ∀ k, k ∉ [Attr.cni, .cbs, .st] → o.get k = cnt.get k := by
  unfold bumpCnt at h
  simp only [hx, hy, hc, Option.bind_eq_bind, Option.bind_some] at h
  obtain ⟨st, hst, h⟩ := Option.bind_eq_some_iff.mp h
  simp only [Option.pure_def, Option.some.injEq, Json.valueint_int hxr.1 hxr.2, Json.valueint_int hyr.1 hyr.2,
    cInt_eq hx'.1 hx'.2, cInt_eq hy'.1 hy'.2, Json.setIntValue_int] at h
  subst h
  refine ⟨?_, ?_, ?_⟩
  · show Assoc.get _ _ = _
    rw [Assoc.get_set_ne (by decide), Assoc.get_set_ne (by decide), Assoc.get_set_self hx]
  · have hy₁ : Assoc.get (Obj.set cnt .cni (.int (x + sign))) .cbs = some (.int y) := by
      rw [Assoc.get_set_ne (by decide)]
      exact hy
    show Assoc.get _ _ = _
    rw [Assoc.get_set_ne (by decide), Assoc.get_set_self hy₁]
  · intro k hk
    simp only [List.mem_cons, List.not_mem_nil, or_false, not_or] at hk
    show Assoc.get _ _ = _
    rw [Assoc.get_set_ne (Ne.symm hk.2.2), Assoc.get_set_ne (Ne.symm hk.2.1), Assoc.get_set_ne (Ne.symm hk.1)]

theorem bumpCnt_spec {cnt cin o : Obj} {sign x y c : Int} (hx : cnt.get .cni = some (.int x))
    (hy : cnt.get .cbs = some (.int y)) (hc : cin.get .cs = some (.int c)) (h : bumpCnt cnt cin sign = some o)
    (hxr : intMin ≤ x ∧ x ≤ intMax) (hyr : intMin ≤ y ∧ y ≤ intMax) (hcr : intMin ≤ c ∧ c ≤ intMax)
    (hx' : intMin ≤ x + sign ∧ x + sign ≤ intMax) (hy' : intMin ≤ y + sign * c ∧ y + sign * c ≤ intMax) :
    o.get .cni = some (.int (x + sign)) ∧ o.get .cbs = some (.int (y + sign * c)) ∧
      ∀ k, k ∉ [Attr.cni, .cbs, .st] → o.get k = cnt.get k := by
  have hv := Json.valueint_int hcr.1 hcr.2
  rw [← hv] at hy'
  have hcounts := bumpCnt_counts hx hy hc h hxr hyr hx' hy'
  rwa [hv] at hcounts

end CntInv

end TinyIoT
