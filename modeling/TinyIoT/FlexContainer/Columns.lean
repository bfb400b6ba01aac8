/-
The column of the custom attributes: what `db_store_fcnt_custom_attributes` leaves of an object with repeated
names, and what the writers of rows do to the custom attributes of an identifier.
-/
import TinyIoT.FlexContainer.Handlers
import TinyIoT.Container.Stored

namespace TinyIoT

/-! ## Values without a repeated name -/

mutual

/-- No object in a value, at any depth, names a member twice. -/
def Json.single : Json → Bool
  | .arr l => singleItems l
  | .obj m => decide (m.map Prod.fst).Nodup && singleMembers m
  | _ => true
termination_by structural j => j

def singleItems : List Json → Bool
  | [] => true
  | j :: l => j.single && singleItems l
termination_by structural l => l

def singleMembers : List (Attr × Json) → Bool
  | [] => true
  | (_, j) :: m => j.single && singleMembers m
termination_by structural m => m

end

theorem lastOfEach_of_nodup {o : Obj} (h : (o.map Prod.fst).Nodup) : lastOfEach o = o := by
  induction o with
  | nil => rfl
  | cons e o ih =>
    obtain ⟨hne, ho⟩ := List.nodup_cons.mp h
    unfold lastOfEach
    rw [if_neg, ih ho]
    intro hany
    obtain ⟨d, hd, hde⟩ := List.any_eq_true.mp hany
    exact hne (of_decide_eq_true hde ▸ List.mem_map_of_mem hd)

mutual

/-- Such a value is stored as `jsonb` as it is. -/
theorem jsonb_of_single : ∀ j : Json, j.single = true → j.jsonb = j
  | .null, _ => rfl
  | .bool _, _ => rfl
  | .num _, _ => rfl
  | .str _, _ => rfl
  | .arr l, h => by
    rw [Json.single] at h
    rw [Json.jsonb, jsonbItems_of_single l h]
  | .obj m, h => by
    rw [Json.single, Bool.and_eq_true, decide_eq_true_eq] at h
    rw [Json.jsonb, jsonbMembers_of_single m h.2, lastOfEach_of_nodup h.1]

theorem jsonbItems_of_single : ∀ l : List Json, singleItems l = true → jsonbItems l = l
  | [], _ => rfl
  | j :: l, h => by
    rw [singleItems, Bool.and_eq_true] at h
    rw [jsonbItems, jsonb_of_single j h.1, jsonbItems_of_single l h.2]

theorem jsonbMembers_of_single : ∀ m : List (Attr × Json), singleMembers m = true → jsonbMembers m = m
  | [], _ => rfl
  | (k, j) :: m, h => by
    rw [singleMembers, Bool.and_eq_true] at h
    rw [jsonbMembers, jsonb_of_single j h.1, jsonbMembers_of_single m h.2]

end

/-! ## The last value of a name -/

/-- The value of the last member of a name. -/
def lastValue (c : Obj) (k : Attr) : Option Json := (Assoc.entries c k).getLast?.map (·.2)

section Last

variable {o c : Obj} {k : Attr} {v : Json}

theorem lastValue_cons (e : Attr × Json) (c : Obj) (k : Attr) :
    lastValue (e :: c) k = (lastValue c k).or (if e.1 = k then some e.2 else none) := by
  unfold lastValue Assoc.entries
  rw [List.filter_cons]
  by_cases hk : e.1 = k
  · rw [if_pos (by simpa using hk), if_pos hk, List.getLast?_cons]
    cases (List.filter (fun e : Attr × Json => decide (e.1 = k)) c).getLast? <;> rfl
  · rw [if_neg (by simpa using hk), if_neg hk, Option.or_none]

theorem lastValue_eq_none : lastValue c k = none ↔ c.get k = none := by
  unfold lastValue Obj.get
  rw [Assoc.get_eq_head, Option.map_eq_none_iff, Option.map_eq_none_iff, List.getLast?_eq_none_iff, List.head?_eq_none_iff]

/-- The loop of an update leaves the last value of a name it has, and other names alone. -/
theorem entries_applyCustom (o c : Obj) (k : Attr) (h : (Assoc.entries o k).length ≤ 1) :
    Assoc.entries (applyCustom o c) k = (lastValue c k).elim (Assoc.entries o k) fun v => [(k, v)] := by
  induction c generalizing o with
  | nil => rfl
  | cons e c ih =>
    obtain ⟨k', v⟩ := e
    show Assoc.entries (applyCustom ((o.del k').add k' v) c) k = _
    rw [lastValue_cons]
    by_cases hk : k' = k
    · subst hk
      have hone : Assoc.entries ((o.del k').add k' v) k' = [(k', v)] := by
        have htail : (Assoc.entries o k').tail = [] := List.length_eq_zero_iff.mp (by rw [List.length_tail]; omega)
        rw [Obj.add, Assoc.entries_add_self, Obj.del, Assoc.entries_del_self, htail, List.nil_append]
      rw [ih _ (by rw [hone]; simp), hone, if_pos rfl]
      cases lastValue c k' <;> rfl
    · have hsame : Assoc.entries ((o.del k').add k' v) k = Assoc.entries o k := by
        rw [Obj.add, Assoc.entries_add_ne hk, Obj.del, Assoc.entries_del_ne hk]
      rw [ih _ (by rw [hsame]; exact h), hsame, if_neg hk, Option.or_none]

/-- So does an update of the object by values that are not null. -/
theorem entries_updateResource (o c : Obj) (k : Attr) (h : (Assoc.entries o k).length ≤ 1)
    (hn : ∀ e ∈ c, e.2.isNull = false) :
    Assoc.entries (o.updateResource c) k = (lastValue c k).elim (Assoc.entries o k) fun v => [(k, v)] := by
  induction c generalizing o with
  | nil => rfl
  | cons e c ih =>
    obtain ⟨k', v⟩ := e
    have hv : v.isNull = false := hn _ List.mem_cons_self
    have ih := fun (o : Obj) h => ih o h fun e he => hn e (List.mem_cons_of_mem _ he)
    show Assoc.entries ((o.updateMember k' v).updateResource c) k = _
    rw [lastValue_cons]
    by_cases hk : k' = k
    · subst hk
      have hlen : (Assoc.entries (o.updateMember k' v) k').length ≤ 1 := Obj.length_entries_updateResource h [(k', v)]
      have hone : Assoc.entries (o.updateMember k' v) k' = [(k', v)] := by
        have hself : Assoc.entries [(k', v)] k' = [(k', v)] := by simp [Assoc.entries]
        rw [← hself]
        refine Assoc.entries_eq_of_get (by rw [hself]; simp) hlen ?_
        exact (Obj.get_updateMember_self hv).trans (by simp)
      rw [ih _ hlen, hone, if_pos rfl]
      cases lastValue c k' <;> rfl
    · have hsame : Assoc.entries (o.updateMember k' v) k = Assoc.entries o k := Obj.entries_updateMember_ne hk
      rw [ih _ (by rw [hsame]; exact h), hsame, if_neg hk, Option.or_none]

/-- The column has every name with its last value, where no name is given twice or the column is `jsonb`, and the values
are ones that `jsonb` keeps. -/
theorem entries_document {b : Backend} (h : b = .postgresql ∨ (c.map Prod.fst).Nodup)
    (hs : b = .sqlite ∨ singleMembers c = true) (k : Attr) :
    Assoc.entries (b.document c) k = (lastValue c k).toList.map fun v => (k, v) := by
  have hlast : ∀ (c : Obj), Assoc.entries (lastOfEach c) k = (lastValue c k).toList.map fun v => (k, v) := by
    intro c
    induction c with
    | nil => rfl
    | cons e c ih =>
      rw [lastValue_cons]
      unfold lastOfEach
      split
      · rename_i hany
        obtain ⟨d, hd, hde⟩ := List.any_eq_true.mp hany
        rw [ih]
        by_cases hk : e.1 = k
        · have hsome : lastValue c k ≠ none := by
            rw [Ne, lastValue_eq_none, Obj.get, Assoc.get_eq_none_iff, not_not]
            exact List.mem_map.mpr ⟨d, hd, (of_decide_eq_true hde).trans hk⟩
          cases hv : lastValue c k with
          | none => exact absurd hv hsome
          | some v => rfl
        · rw [if_neg hk, Option.or_none]
      · rename_i hany
        by_cases hk : e.1 = k
        · have hnone : lastValue c k = none := by
            rw [lastValue_eq_none, Obj.get, Assoc.get_eq_none_iff]
            rintro hm
            obtain ⟨d, hd, hdk⟩ := List.mem_map.mp hm
            exact hany (List.any_eq_true.mpr ⟨d, hd, decide_eq_true (hdk.trans hk.symm)⟩)
          unfold Assoc.entries at ih ⊢
          rw [List.filter_cons, if_pos (by simpa using hk), ih, hnone, if_pos hk]
          subst hk
          rfl
        · unfold Assoc.entries at ih ⊢
          rw [List.filter_cons, if_neg (by simpa using hk), ih, if_neg hk, Option.or_none]
  have hnodup : (c.map Prod.fst).Nodup → Assoc.entries c k = (lastValue c k).toList.map fun v => (k, v) := by
    clear h hs
    intro hc
    induction c with
    | nil => rfl
    | cons e c ih =>
      obtain ⟨hne, hc⟩ := List.nodup_cons.mp hc
      rw [lastValue_cons]
      by_cases hk : e.1 = k
      · have hnone : lastValue c k = none := by
          rw [lastValue_eq_none, Obj.get, Assoc.get_eq_none_iff]
          exact hk ▸ hne
        have ih := ih hc
        unfold Assoc.entries at ih ⊢
        rw [List.filter_cons, if_pos (by simpa using hk), ih, hnone, if_pos hk]
        subst hk
        rfl
      · have ih := ih hc
        unfold Assoc.entries at ih ⊢
        rw [List.filter_cons, if_neg (by simpa using hk), ih, if_neg hk, Option.or_none]
  cases b with
  | postgresql =>
    show Assoc.entries (lastOfEach (jsonbMembers c)) k = _
    rw [jsonbMembers_of_single c (hs.resolve_left (by simp))]
    exact hlast c
  | sqlite => exact hnodup (h.resolve_left (by simp))

end Last

/-! ## The column -/

/-- The custom attributes in a row. -/
def Row.customAttrs (r : Row) : Obj :=
  match r.obj.get customColumn with
  | some (.obj custom) => custom
  | _ => []

theorem Row.customAttrs_congr {r q : Row} (h : q.obj.get customColumn = r.obj.get customColumn) : q.customAttrs = r.customAttrs := by
  unfold customAttrs
  rw [h]

/-- The rows of an identifier, of which there is one at least, hold these custom attributes. -/
structure HoldsCustom (db : Db) (ri : CStr) (want : Obj) : Prop where
  found : ∃ r ∈ db, r.ri = some ri
  rows : ∀ r ∈ db, r.ri = some ri → r.ty = .fcnt ∧ ∀ k, Assoc.entries r.customAttrs k = Assoc.entries want k

namespace HoldsCustom

variable {db db' : Db} {ri x : CStr} {want o : Obj} {b : Backend}

theorem reads (h : HoldsCustom db ri want) (k : Attr) :
    Assoc.entries (db.dbGetFcntCustomAttributes ri) k = Assoc.entries want k := by
  obtain ⟨r, hr, hri⟩ := h.found
  obtain ⟨q, hq⟩ : ∃ q, db.find? (fun r => r.ri = some ri) = some q :=
    Option.isSome_iff_exists.mp (List.find?_isSome.mpr ⟨r, hr, decide_eq_true hri⟩)
  rw [← (h.rows q (List.mem_of_find?_eq_some hq) (by simpa using List.find?_some hq)).2 k]
  unfold Db.dbGetFcntCustomAttributes Row.customAttrs
  rw [hq]
  rfl

theorem snoc (h : HoldsCustom db ri want) {q : Row} (hq : q.ri ≠ some ri) : HoldsCustom (db ++ [q]) ri want := by
  obtain ⟨r, hr, hri⟩ := h.found
  refine ⟨⟨r, List.mem_append_left _ hr, hri⟩, fun p hp hpri => ?_⟩
  rcases List.mem_append.mp hp with hp | hp
  · exact h.rows p hp hpri
  · rw [List.mem_singleton.mp hp] at hpri
    exact absurd hpri hq

/-- Rows that stay, under a DELETE that spares them. -/
theorem leaves {K : Row → Prop} (h : HoldsCustom db ri want) (hK : ∀ r ∈ db, r.ri = some ri → K r) (hl : Leaves K db db') :
    HoldsCustom db' ri want := by
  obtain ⟨r, hr, hri⟩ := h.found
  exact ⟨⟨r, hl.keep r hr (hK r hr hri), hri⟩, fun q hq => h.rows q (hl.sub q hq)⟩

/-- `db_update_resource` of attributes with a column. -/
theorem update (h : HoldsCustom db ri want) (hne : ri ≠ []) (ho : Addresses o x) (hc : o.get customColumn = none) :
    HoldsCustom (db.dbUpdateResource o x) ri want := by
  obtain ⟨r, hr, hri⟩ := h.found
  have hsame : ∀ q : Row, (q.written o).customAttrs = q.customAttrs := fun q =>
    Row.customAttrs_congr (by rw [get_written q o (by decide), hc]; rfl)
  refine ⟨?_, fun q hq hqri => ?_⟩
  · by_cases hx : r.ri = some x
    · obtain rfl : ri = x := Option.some.inj (hri.symm.trans hx)
      exact ⟨r.written o, mem_dbUpdateResource.mpr ⟨r, hr, .inl ⟨hx, rfl⟩⟩, ho.ri_eq hne hx⟩
    · exact ⟨r, mem_dbUpdateResource.mpr ⟨r, hr, .inr ⟨hx, rfl⟩⟩, hri⟩
  · obtain ⟨p, hp, ⟨hpx, rfl⟩ | ⟨-, rfl⟩⟩ := mem_dbUpdateResource.mp hq
    · have hx : x = ri := by
        rcases ho.ri_written hpx with h | h
        · exact Option.some.inj (h.symm.trans hqri)
        · cases h.symm.trans hqri
      rw [hsame]
      exact h.rows p hp (hx ▸ hpx)
    · exact h.rows q hp hqri

/-- A row after `db_store_fcnt_custom_attributes`. -/
theorem mem_store {q : Row} (h : q ∈ db.dbStoreFcntCustomAttributes b x o) : ∃ r ∈ db, q.ri = r.ri ∧ q.ty = r.ty ∧
    ((r.ri = some x ∧ q.customAttrs = b.document o) ∨ ((r.ri ≠ some x ∨ r.ty ≠ .fcnt) ∧ q.customAttrs = r.customAttrs)) := by
  unfold Db.dbStoreFcntCustomAttributes at h
  obtain ⟨r, hr, rfl⟩ := List.mem_map.mp h
  refine ⟨r, hr, ?_⟩
  split
  · rename_i hx
    refine ⟨Obj.str_congr ?_, rfl, .inl ⟨hx.1, ?_⟩⟩
    · show Assoc.get _ _ = Assoc.get _ _
      rw [Assoc.get_add_ne (by decide), Assoc.get_drop, if_neg (by decide)]
    · unfold Row.customAttrs
      rw [show Obj.get (Assoc.add (Assoc.drop r.obj customColumn) customColumn (.obj (b.document o))) customColumn =
        some (.obj (b.document o)) by simp [Obj.get]]
  · rename_i hx
    refine ⟨rfl, rfl, .inr ⟨?_, rfl⟩⟩
    by_contra hn
    rw [not_or, not_not, not_not] at hn
    exact hx ⟨hn.1, .inl hn.2⟩

theorem found_store (h : ∃ r ∈ db, r.ri = some ri) : ∃ r ∈ db.dbStoreFcntCustomAttributes b x o, r.ri = some ri := by
  obtain ⟨r, hr, hri⟩ := h
  refine ⟨_, List.mem_map.mpr ⟨r, hr, rfl⟩, ?_⟩
  split
  · refine (Obj.str_congr ?_ : _ = r.ri).trans hri
    show Assoc.get _ _ = Assoc.get _ _
    rw [Assoc.get_add_ne (by decide), Assoc.get_drop, if_neg (by decide)]
  · exact hri

theorem storeOther (h : HoldsCustom db ri want) (hx : x ≠ ri) : HoldsCustom (db.dbStoreFcntCustomAttributes b x o) ri want := by
  refine ⟨found_store h.found, fun q hq hqri => ?_⟩
  obtain ⟨r, hr, hri, hty, ⟨hrx, -⟩ | ⟨-, hc⟩⟩ := mem_store hq
  · exact absurd (Option.some.inj (hrx.symm.trans (hri.symm.trans hqri))) hx
  · rw [hty, hc]
    exact h.rows r hr (hri.symm.trans hqri)

/-- The column is written. -/
theorem store (h : HoldsCustom db ri want) (o : Obj) : HoldsCustom (db.dbStoreFcntCustomAttributes b ri o) ri (b.document o) := by
  refine ⟨found_store h.found, fun q hq hqri => ?_⟩
  obtain ⟨r, hr, hri, hty, ⟨-, hc⟩ | ⟨hne, -⟩⟩ := mem_store hq
  · exact ⟨hty.trans (h.rows r hr (hri.symm.trans hqri)).1, fun k => by rw [hc]⟩
  · rcases hne with hne | hne
    · exact absurd (hri.symm.trans hqri) hne
    · exact absurd (h.rows r hr (hri.symm.trans hqri)).1 hne

theorem congr (h : HoldsCustom db ri want) (hw : ∀ k, Assoc.entries want k = Assoc.entries o k) : HoldsCustom db ri o :=
  ⟨h.found, fun r hr hri => ⟨(h.rows r hr hri).1, fun k => ((h.rows r hr hri).2 k).trans (hw k)⟩⟩

end HoldsCustom

end TinyIoT
