/-
The row of a container against its object in memory. Every handler writes twice, to the object and to
the row of its identifier; this module says what one such write leaves of the agreement between the two.
-/
import TinyIoT.Container.Handlers

namespace TinyIoT

/-! ## Objects -/

/-- The limits of a container, which a client may set. -/
def limits : List Attr := [.mni, .mbs, .mia]

/-- The state tag, the counters and the limits. -/
def measures : List Attr := [.st, .cni, .cbs, .mni, .mbs, .mia]

/-- A value that a column of numbers gives back as it is: a whole number in the range of `int`. -/
def Json.isCount : Json → Bool
  | .num v => v == ((Json.num v).valueint : ℚ)
  | _ => false

theorem Json.eq_int_of_isCount {j : Json} (h : j.isCount = true) : j = .int j.valueint := by
  cases j with
  | num v => exact congrArg Json.num (beq_iff_eq.mp h)
  | _ => cases h

theorem column_count {j : Json} (h : j.isCount = true) : column j = some j := by
  rw [Json.eq_int_of_isCount h, column_int j.valueint_ge j.valueint_le]

theorem isCount_int {n : Int} (h0 : intMin ≤ n) (h1 : n ≤ intMax) : (Json.int n).isCount = true := by
  show (((n : ℚ)) == ((Json.int n).valueint : ℚ)) = true
  rw [Json.valueint_int h0 h1, beq_self_eq_true]

theorem isCount_setIntValue {j : Json} (h : j.isCount = true) {n : Int} (h0 : intMin ≤ n) (h1 : n ≤ intMax) :
    (j.setIntValue n).isCount = true := by
  cases j with
  | num v => exact isCount_int h0 h1
  | _ => cases h

/-- What an `int` takes is a count. -/
theorem isCount_cInt {j : Json} (h : j.isCount = true) (n : Int) : (j.setIntValue (cInt n)).isCount = true :=
  isCount_setIntValue h (le_cInt n) (cInt_le n)

theorem isCount_assignInt {j : Json} (h : j.isCount = true) {n : Int} (h0 : intMin ≤ n) (h1 : n ≤ intMax) :
    (j.assignInt n).isCount = true := by
  unfold Json.assignInt
  split
  · exact isCount_setIntValue h h0 h1
  · exact h

/-- Every measure the object has is a count, a limit is there once at most, and there is no `uri`. -/
structure Measured (o : Obj) : Prop where
  count : ∀ k ∈ measures, ∀ v, o.get k = some v → v.isCount = true
  once : ∀ k ∈ limits, (Assoc.entries o k).length ≤ 1
  unplaced : o.get .uri = none

namespace Measured

variable {o o' body : Obj}

/-- A measure that is there takes another count. -/
theorem set (h : Measured o) {k : Attr} {v : Json} (hk : k ∈ measures) (hv : v.isCount = true) :
    Measured (o.set k v) ∧ ∀ k', (o.set k v).get k' = none → o.get k' = none := by
  have hnone : ∀ k', (o.set k v).get k' = none → o.get k' = none := by
    intro k' hn
    by_cases hkk : k = k'
    · subst hkk
      cases ho : Obj.get o k with
      | none => rfl
      | some w =>
        have hs : Obj.get (o.set k v) k = some v := Assoc.get_set_self ho
        cases hs.symm.trans hn
    · exact (Assoc.get_set_ne hkk).symm.trans hn
  refine ⟨⟨?_, ?_, ?_⟩, hnone⟩
  · intro k' hk' w hw
    by_cases hkk : k = k'
    · subst hkk
      obtain ⟨u, hu⟩ : ∃ u, Obj.get o k = some u := by
        cases ho : Obj.get o k with
        | none => cases hw.symm.trans (Assoc.get_set_none ho)
        | some u => exact ⟨u, rfl⟩
      have hs : Obj.get (o.set k v) k = some v := Assoc.get_set_self hu
      cases hs.symm.trans hw
      exact hv
    · exact h.count k' hk' w ((Assoc.get_set_ne hkk).symm.trans hw)
  · intro k' hk'
    by_cases hkk : k = k'
    · subst hkk
      rw [show Assoc.entries (o.set k v) k = Assoc.entries (Assoc.set o k v) k from rfl, Assoc.length_entries_set]
      exact h.once k hk'
    · rw [show Assoc.entries (o.set k v) k' = Assoc.entries (Assoc.set o k v) k' from rfl, Assoc.entries_set_ne hkk]
      exact h.once k' hk'
  · refine (Assoc.get_set_ne ?_).trans h.unplaced
    rintro rfl
    exact absurd hk (by decide)

end Measured

/-- What an update may say about the measures: a count, or null for a limit; each at most once. -/
structure Measurable (body : Obj) : Prop where
  once : ∀ k ∈ measures, (Assoc.entries body k).length ≤ 1
  value : ∀ k ∈ measures, ∀ v, body.get k = some v → v.isCount = true ∨ (v.isNull = true ∧ k ∈ limits)
  unplaced : body.get .uri = none

theorem Measured.updateResource {o body : Obj} (h : Measured o) (hb : Measurable body) :
    Measured (o.updateResource body) ∧ ∀ k ∈ measures, (o.updateResource body).get k =
      ((body.get k).map fun v => if v.isNull then none else some v).getD (o.get k) := by
  have hget : ∀ k ∈ measures, (o.updateResource body).get k =
      ((body.get k).map fun v => if v.isNull then none else some v).getD (o.get k) := by
    intro k hk
    refine Obj.get_updateResource_once ?_ (hb.once k hk)
    by_cases hl : k ∈ limits
    · exact .inl (h.once k hl)
    · refine .inr fun v hv => ?_
      have hc := (hb.value k hk v hv).resolve_right fun hn => hl hn.2
      cases v <;> first | rfl | cases hc
  refine ⟨⟨fun k hk w hw => ?_, fun k hk => Obj.length_entries_updateResource (h.once k hk) body, ?_⟩, hget⟩
  · rw [hget k hk] at hw
    cases hg : Obj.get body k with
    | none =>
      rw [hg] at hw
      exact h.count k hk w hw
    | some v =>
      rw [hg] at hw
      rcases hb.value k hk v hg with hc | ⟨hn, -⟩
      · have hv : v.isNull = false := by cases v <;> first | rfl | cases hc
        simp only [Option.map_some, hv, Bool.false_eq_true, if_false, Option.getD_some, Option.some.injEq] at hw
        exact hw ▸ hc
      · simp [hn] at hw
  · exact (Obj.get_updateResource_of_not_has hb.unplaced).trans h.unplaced

/-! ## Rows -/

/-- The row holds the measures of the object. -/
def Copies (r : Row) (o : Obj) : Prop := ∀ k ∈ measures, r.obj.get k = (o.get k).bind column

/-- The rows of an identifier, of which there is one at least, hold the measures of the object. -/
structure RowsHold (db : Db) (ri : CStr) (o : Obj) : Prop where
  found : ∃ r ∈ db, r.ri = some ri
  rows : ∀ r ∈ db, r.ri = some ri → r.ty = .cnt ∧ Copies r o

/-- A row after the UPDATE statement for an object. -/
def Row.written (r : Row) (o : Obj) : Row :=
  { r with uri := (o.str .uri).getD r.uri, obj := Assoc.drop (Assoc.overlay column o r.obj) .uri }

theorem mem_dbUpdateResource {db : Db} {o : Obj} {ri : CStr} {q : Row} :
    q ∈ db.dbUpdateResource o ri ↔ ∃ r ∈ db, (r.ri = some ri ∧ q = r.written o) ∨ (r.ri ≠ some ri ∧ q = r) := by
  unfold Db.dbUpdateResource
  rw [List.mem_map]
  constructor
  · rintro ⟨r, hr, rfl⟩
    refine ⟨r, hr, ?_⟩
    split
    · rename_i h
      exact .inl ⟨h, rfl⟩
    · rename_i h
      exact .inr ⟨h, rfl⟩
  · rintro ⟨r, hr, ⟨h, rfl⟩ | ⟨h, rfl⟩⟩
    · exact ⟨r, hr, by rw [if_pos h]; rfl⟩
    · exact ⟨q, hr, by rw [if_neg h]⟩

theorem get_written (r : Row) (o : Obj) {k : Attr} (hk : k ≠ .uri) :
    (r.written o).obj.get k = (o.get k).elim (r.obj.get k) column := by
  show Assoc.get (Assoc.drop _ _) _ = (Assoc.get o k).elim _ _
  rw [Assoc.get_drop, if_neg (Ne.symm hk), Assoc.get_overlay]
  cases Assoc.get o k <;> rfl

theorem measure_ne_uri {k : Attr} (h : k ∈ measures) : k ≠ .uri := by
  rintro rfl
  exact absurd h (by decide)

/-- An object says nothing about the identifier, or gives the one it is written under. -/
def Addresses (o : Obj) (ri : CStr) : Prop := o.get .ri = none ∨ o.get .ri = some (.str ri)

theorem Addresses.ri_written {o : Obj} {ri : CStr} (h : Addresses o ri) {r : Row} (hr : r.ri = some ri) :
    (r.written o).ri = some ri ∨ (r.written o).ri = none := by
  rcases h with h | h
  · exact .inl ((Obj.str_congr (by rw [get_written r o (by decide), h]; rfl)).trans hr)
  · have hget : (r.written o).obj.get .ri = column (.str ri) := by rw [get_written r o (by decide), h]; rfl
    unfold Row.ri Obj.str
    rw [hget]
    cases ri with
    | nil => exact .inr rfl
    | cons c l => exact .inl rfl

theorem Addresses.ri_eq {o : Obj} {ri : CStr} (h : Addresses o ri) (hne : ri ≠ []) {r : Row} (hr : r.ri = some ri) :
    (r.written o).ri = some ri := by
  rcases h with h | h
  · exact (Obj.str_congr (by rw [get_written r o (by decide), h]; rfl)).trans hr
  · exact Obj.str_of_get (by rw [get_written r o (by decide), h]; exact column_str hne)

/-- The rows of another identifier stay. -/
theorem mem_dbUpdateResource_ne {db : Db} {o : Obj} {ri q : CStr} (h : Addresses o ri) {r : Row} (hr : r.ri = some q)
    (hne : q ≠ ri) : r ∈ db.dbUpdateResource o ri ↔ r ∈ db := by
  have hne' : r.ri ≠ some ri := fun he => hne (Option.some.inj (hr.symm.trans he))
  rw [mem_dbUpdateResource]
  constructor
  · rintro ⟨r₀, hr₀, ⟨h₀, rfl⟩ | ⟨-, rfl⟩⟩
    · rcases h.ri_written h₀ with he | he
      · exact absurd he hne'
      · cases he.symm.trans hr
    · exact hr₀
  · exact fun hm => ⟨r, hm, .inr ⟨hne', rfl⟩⟩

/-- A write to rows after which they hold the measures of `m`. -/
theorem RowsHold.update {db : Db} {o m : Obj} {ri : CStr} (h : Addresses o ri) (hne : ri ≠ []) (hf : ∃ r ∈ db, r.ri = some ri)
    (hr : ∀ r ∈ db, r.ri = some ri → r.ty = .cnt ∧ Copies (r.written o) m) : RowsHold (db.dbUpdateResource o ri) ri m := by
  constructor
  · obtain ⟨r, hm, hri⟩ := hf
    exact ⟨r.written o, mem_dbUpdateResource.mpr ⟨r, hm, .inl ⟨hri, rfl⟩⟩, h.ri_eq hne hri⟩
  · intro q hq hqri
    obtain ⟨r, hm, ⟨hri, rfl⟩ | ⟨hri, rfl⟩⟩ := mem_dbUpdateResource.mp hq
    · exact hr r hm hri
    · exact absurd hqri hri

/-- The whole object is written. -/
theorem Copies.whole {r : Row} {c o : Obj} (h : Copies r c) (hn : ∀ k ∈ measures, o.get k = none → c.get k = none) :
    Copies (r.written o) o := by
  intro k hk
  rw [get_written r o (measure_ne_uri hk)]
  cases ho : Obj.get o k with
  | none =>
    show r.obj.get k = none
    rw [h k hk, hn k hk ho]
    rfl
  | some v => rfl

/-- The body of an update is written. -/
theorem Copies.body {r : Row} {c body : Obj} (h : Copies r c) (hc : Measured c) (hb : Measurable body) :
    Copies (r.written body) (c.updateResource body) := by
  intro k hk
  rw [get_written r body (measure_ne_uri hk), (hc.updateResource hb).2 k hk]
  cases hg : Obj.get body k with
  | none => exact h k hk
  | some v => cases v <;> rfl

/-- A write that leaves the measures alone. -/
theorem Copies.other {r : Row} {c o : Obj} (h : Copies r c) (ho : ∀ k ∈ measures, o.get k = none) : Copies (r.written o) c := by
  intro k hk
  rw [get_written r o (measure_ne_uri hk), ho k hk]
  exact h k hk

/-! ## The agreement -/

/-- Every container has an identifier of its own, and its rows hold the measures of its object. -/
structure Mirror (s : Server) : Prop where
  shape : Shape s
  alone : ∀ c ∈ s.tree.nodes, c.ty = .cnt → ∀ n ∈ s.tree.nodes, n.ri = c.ri → n = c
  held : ∀ c ∈ s.tree.nodes, c.ty = .cnt → Measured c.obj ∧ ∃ ri, c.obj.get .ri = some (.str ri) ∧ ri ≠ [] ∧ RowsHold s.db ri c.obj

theorem RowsHold.congr {db db' : Db} {ri : CStr} {o : Obj} (h : RowsHold db ri o)
    (hr : ∀ r : Row, r.ri = some ri → (r ∈ db' ↔ r ∈ db)) : RowsHold db' ri o := by
  obtain ⟨r, hm, hri⟩ := h.found
  exact ⟨⟨r, (hr r hri).mpr hm, hri⟩, fun q hq hqri => h.rows q ((hr q hqri).mp hq) hqri⟩

namespace Mirror

variable {s s' : Server}

/-- No container changes, nor the rows of one. -/
theorem frame (h : Mirror s) (hs : Shape s') (hnodes : ∀ n ∈ s'.tree.nodes, n ∈ s.tree.nodes ∨
      (n.ty ≠ .cnt ∧ ∀ c ∈ s.tree.nodes, c.ty = .cnt → n.ri ≠ c.ri))
    (hrows : ∀ c ∈ s.tree.nodes, c.ty = .cnt → ∀ r : Row, r.ri = c.ri → (r ∈ s'.db ↔ r ∈ s.db)) : Mirror s' := by
  have hold : ∀ c ∈ s'.tree.nodes, c.ty = .cnt → c ∈ s.tree.nodes :=
    fun c hc hty => (hnodes c hc).resolve_right fun hn => hn.1 hty
  refine ⟨hs, fun c hc hty n hn he => ?_, fun c hc hty => ?_⟩
  · rcases hnodes n hn with hm | ⟨-, hm⟩
    · exact h.alone c (hold c hc hty) hty n hm he
    · exact absurd he (hm c (hold c hc hty) hty)
  · obtain ⟨hm, ri, hri, hne, hh⟩ := h.held c (hold c hc hty) hty
    exact ⟨hm, ri, hri, hne, hh.congr fun r hr => hrows c (hold c hc hty) hty r (hr.trans (Obj.str_of_get hri).symm)⟩

/-- The object of a container and its rows are written. -/
theorem write (h : Mirror s) {c : RTNode} {ri : CStr} {o : Obj} (hc : c ∈ s.tree.nodes)
    (hri : c.obj.get .ri = some (.str ri)) (ho : Measured o) (hori : o.get .ri = some (.str ri)) (hne : ri ≠ [])
    (hw : RowsHold s'.db ri o) (hothers : ∀ q : CStr, q ≠ ri → ∀ r : Row, r.ri = some q → (r ∈ s'.db ↔ r ∈ s.db))
    (ht : s'.tree = (s.setObj c.id o).tree) (hn : s'.nextId = s.nextId) : Mirror s' := by
  have hnodes : ∀ m ∈ s'.tree.nodes, ∃ m₀ ∈ s.tree.nodes, m = (if m₀.id = c.id then { m₀ with obj := o } else m₀) ∧
      m.ri = m₀.ri ∧ m.ty = m₀.ty := by
    intro m hm
    rw [ht, Server.setObj, Server.nodes_modifyNode] at hm
    obtain ⟨m₀, hm₀, rfl⟩ := List.mem_map.mp hm
    refine ⟨m₀, hm₀, rfl, ?_⟩
    by_cases hid : m₀.id = c.id
    · obtain rfl := h.shape.ids.eq hm₀ hc hid
      rw [if_pos rfl]
      exact ⟨(Obj.str_of_get hori).trans (Obj.str_of_get hri).symm, rfl⟩
    · rw [if_neg hid]
      exact ⟨rfl, rfl⟩
  refine ⟨h.shape.modify ht (fun m _ _ => ⟨rfl, rfl, rfl, rfl⟩) hn, ?_, ?_⟩
  · intro d hd hty n hn he
    obtain ⟨d₀, hd₀, rfl, hdri, hdty⟩ := hnodes d hd
    obtain ⟨n₀, hn₀, rfl, hnri, -⟩ := hnodes n hn
    obtain rfl := h.alone d₀ hd₀ (hdty.symm.trans hty) n₀ hn₀ (hnri.symm.trans (he.trans hdri))
    rfl
  · intro d hd hty
    obtain ⟨d₀, hd₀, rfl, -, hdty⟩ := hnodes d hd
    have hty₀ := hdty.symm.trans hty
    by_cases hid : d₀.id = c.id
    · rw [if_pos hid]
      exact ⟨ho, ri, hori, hne, hw⟩
    · rw [if_neg hid]
      obtain ⟨hm, q, hq, hqne, hh⟩ := h.held d₀ hd₀ hty₀
      refine ⟨hm, q, hq, hqne, hh.congr (hothers q fun hqri => hid ?_)⟩
      subst hqri
      exact congrArg RTNode.id (h.alone d₀ hd₀ hty₀ c hc ((Obj.str_of_get hri).trans (Obj.str_of_get hq).symm)).symm

/-- Nothing but the counter of `resource_identifier` and the like changes. -/
theorem congr (h : Mirror s) (ht : s'.tree = s.tree) (hdb : s'.db = s.db) (hn : s.nextId ≤ s'.nextId) : Mirror s' := by
  refine h.frame (h.shape.congr ht hn) (fun n hn => .inl (ht ▸ hn)) fun c _ _ r _ => by rw [hdb]

theorem ri_of (h : Mirror s) {c : RTNode} (hc : c ∈ s.tree.nodes) (hty : c.ty = .cnt) :
    ∃ ri, c.ri = some ri ∧ c.obj.get .ri = some (.str ri) ∧ ri ≠ [] ∧ RowsHold s.db ri c.obj := by
  obtain ⟨-, ri, hri, hne, hh⟩ := h.held c hc hty
  exact ⟨ri, Obj.str_of_get hri, hri, hne, hh⟩

/-- A node that is no container has none of their identifiers. -/
theorem apart (h : Mirror s) {n : RTNode} (hn : n ∈ s.tree.nodes) (hty : n.ty ≠ .cnt) :
    ∀ c ∈ s.tree.nodes, c.ty = .cnt → n.ri ≠ c.ri := by
  rintro c hc hcty he
  exact hty (h.alone c hc hcty n hn he ▸ hcty)

/-- Assignment to the object of a node that is no container. -/
theorem setObj_other (h : Mirror s) {i : Nat} {o : Obj} (hty : ∀ m ∈ s.tree.nodes, m.id = i → m.ty ≠ .cnt)
    (hri : ∀ c ∈ s.tree.nodes, c.ty = .cnt → o.str .ri ≠ c.ri) : Mirror (s.setObj i o) := by
  refine h.frame (h.shape.modify rfl (fun m _ _ => ⟨rfl, rfl, rfl, rfl⟩) rfl) ?_ fun _ _ _ _ _ => Iff.rfl
  intro n hn
  rw [Server.setObj, Server.nodes_modifyNode] at hn
  obtain ⟨m, hm, rfl⟩ := List.mem_map.mp hn
  by_cases hid : m.id = i
  · rw [if_pos hid]
    exact .inr ⟨hty m hm hid, hri⟩
  · rw [if_neg hid]
    exact .inl hm

/-- An UPDATE statement for an identifier that no container has. -/
theorem updateRow_other (h : Mirror s) {o : Obj} {ri : CStr} (ho : Addresses o ri)
    (hri : ∀ c ∈ s.tree.nodes, c.ty = .cnt → c.ri ≠ some ri) : Mirror { s with db := s.db.dbUpdateResource o ri } := by
  refine h.frame (h.shape.congr rfl le_rfl) (fun _ hn => .inl hn) fun c hc hty r hr => ?_
  obtain ⟨q, hq, -⟩ := h.ri_of hc hty
  exact mem_dbUpdateResource_ne ho (hr.trans hq) fun he => hri c hc hty (hq.trans (congrArg some he))

theorem apart_deref (h : Mirror s) {p : Ptr} {n : RTNode} (hp : p.deref s = some n) (hok : p.Ok s.db)
    (hty : n.ty ≠ .cnt) : ∀ c ∈ s.tree.nodes, c.ty = .cnt → n.ri ≠ c.ri := by
  cases p with
  | null => cases hp
  | inTree i => exact h.apart (Server.node?_mem hp).1 hty
  | loose m q =>
    cases hp
    obtain ⟨⟨r, hr, hrty, -, -, hattr, -⟩, -⟩ := hok
    intro c hc hcty he
    obtain ⟨ri, hri, -, -, hh⟩ := h.ri_of hc hcty
    have hrri : r.ri = some ri := (Obj.str_congr (hattr .ri (by decide)).symm).trans (he.trans hri)
    exact hty (hrty.symm.trans (hh.rows r hr hrri).1)

/-- A container that a pointer reaches is a node of the tree. -/
theorem mem_of_deref {p : Ptr} {n : RTNode} (hp : p.deref s = some n) (hok : p.Ok s.db) (hty : n.ty = .cnt) :
    n ∈ s.tree.nodes := by
  cases p with
  | null => cases hp
  | inTree i => exact (Server.node?_mem hp).1
  | loose m q =>
    cases hp
    rcases hok.2 with hi | hi | hi <;> cases hty.symm.trans hi

theorem freeRtnode (h : Mirror s) (i : Nat) : Mirror (s.freeRtnode i) :=
  h.frame (h.shape.remove rfl rfl) (fun _ hn => .inl ((Forest.nodes_remove_sublist _ _).subset hn)) fun _ _ _ _ _ => Iff.rfl

theorem freePtr (h : Mirror s) (p : Ptr) : Mirror (s.freePtr p) := by
  unfold Server.freePtr
  split
  · exact h.freeRtnode _
  · exact h

end Mirror

end TinyIoT
