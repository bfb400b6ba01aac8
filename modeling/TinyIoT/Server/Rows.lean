/-
The rows of one instance type seen as a ledger: each by its identifier, its parent and its content
size. What storing, updating and deleting rows does to that view.
-/
import TinyIoT.Server.Db
import TinyIoT.Lib.Ledger

namespace TinyIoT

/-- What the counters of a parent depend on in the row of an instance. -/
structure Key where
  ri : Option CStr
  pi : Option CStr
  cs : Option Json
  uri : CStr

/-- The content size of an instance. -/
def Key.size (k : Key) : Int := (k.cs.map Json.valueint).getD 0

def Row.key (r : Row) : Key := ⟨r.ri, r.pi, r.obj.get .cs, r.uri⟩

/-- An instance has an identifier, a parent and a size. -/
def ProperKey (k : Key) : Prop :=
  ∃ ri pi c, k.ri = some ri ∧ ri ≠ [] ∧ k.pi = some pi ∧ pi ≠ [] ∧ k.cs = some (.int c) ∧ 0 ≤ c ∧ c ≤ intMax

/-- The content size in a row. -/
def Row.size (r : Row) : Int := ((r.obj.get .cs).map Json.valueint).getD 0

namespace Db

/-- The instances of one type, in `id` order. -/
def keys (db : Db) (ty : ResourceType) : List Key := (db.filter fun r => r.ty = ty).map Row.key

/-- How many instances the parent `pi` has, and their content size. -/
abbrev count (db : Db) (ty : ResourceType) (pi : CStr) : Int := Ledger.count Key.pi (some pi) (db.keys ty)

abbrev total (db : Db) (ty : ResourceType) (pi : CStr) : Int :=
  Ledger.total Key.pi Key.size (some pi) (db.keys ty)

variable {db : Db} {ty : ResourceType}

theorem mem_keys {k : Key} : k ∈ db.keys ty ↔ ∃ r ∈ db, r.ty = ty ∧ r.key = k := by
  unfold keys
  rw [List.mem_map]
  constructor
  · rintro ⟨r, hr, rfl⟩
    have hr' := List.mem_filter.mp hr
    exact ⟨r, hr'.1, by simpa using hr'.2, rfl⟩
  · rintro ⟨r, hr, ht, rfl⟩
    exact ⟨r, List.mem_filter.mpr ⟨hr, by simpa using ht⟩, rfl⟩

theorem key_mem {r : Row} (hr : r ∈ db) (ht : r.ty = ty) : r.key ∈ db.keys ty :=
  mem_keys.mpr ⟨r, hr, ht, rfl⟩

theorem mem_instances {pi : CStr} {r : Row} :
    r ∈ db.instances ty pi ↔ r ∈ db ∧ r.ty = ty ∧ r.pi = some pi := by
  unfold instances
  simp

theorem keys_filter_pi (pi : CStr) :
    (db.keys ty).filter (fun k => k.pi = some pi) = (db.instances ty pi).map Row.key := by
  unfold keys instances
  rw [List.filter_map, List.filter_filter]
  congr 1
  apply List.filter_congr
  intro r _
  by_cases ht : r.ty = ty <;> by_cases hp : r.pi = some pi <;> simp [Row.key, ht, hp]

theorem count_eq (pi : CStr) : db.count ty pi = (db.instances ty pi).length := by
  unfold count Ledger.count
  rw [keys_filter_pi, List.length_map]

theorem total_eq (pi : CStr) : db.total ty pi = ((db.instances ty pi).map Row.size).sum := by
  unfold total Ledger.total
  rw [keys_filter_pi, List.map_map]
  rfl

/-! ## Storing and updating -/

theorem dbStoreResource_some {o : Obj} {uri : CStr} {db' : Db} (h : db.dbStoreResource o uri = some db') :
    ∃ t tbl, o.get .ty = some t ∧ ResourceType.ofTable t.valueint = some tbl ∧
      db' = db ++ [⟨uri, tbl, Assoc.drop (Assoc.overlay column o []) .uri⟩] := by
  unfold dbStoreResource at h
  simp only [Option.bind_eq_bind, Option.bind_eq_some_iff, Option.pure_def, Option.some.injEq] at h
  obtain ⟨t, ht, tbl, htbl, rfl⟩ := h
  exact ⟨t, tbl, ht, htbl, rfl⟩

/-- A resource that carries the `ty` of its table goes there. -/
theorem dbStoreResource_code {o : Obj} {uri : CStr} {db' : Db} {t : ResourceType} (ht : t ∈ ResourceType.tables)
    (ho : o.get .ty = some (.int t.code)) :
    db.dbStoreResource o uri = some db' ↔ db' = db ++ [⟨uri, t, Assoc.drop (Assoc.overlay column o []) .uri⟩] := by
  unfold dbStoreResource
  rw [ho]
  simp only [Option.bind_eq_bind, Option.bind_some, ResourceType.ofTable_code ht, Option.pure_def,
    Option.some.injEq]
  exact eq_comm

/-- What a row made from an object holds under an attribute. -/
theorem get_stored (o : Obj) {k : Attr} (hk : k ≠ .uri) :
    Obj.get (Assoc.drop (Assoc.overlay column o []) .uri) k = (o.get k).bind column := by
  show Assoc.get _ _ = _
  rw [Assoc.get_drop, if_neg (Ne.symm hk), Assoc.get_overlay]
  cases h : Assoc.get o k <;> simp [h]

theorem keys_append (db db' : Db) : Db.keys (db ++ db') ty = db.keys ty ++ Db.keys db' ty := by
  simp [keys]

/-- A row of another type leaves the ledger as it is. -/
theorem keys_snoc_ne {r : Row} (h : r.ty ≠ ty) : Db.keys (db ++ [r]) ty = db.keys ty := by
  rw [keys_append]
  simp [keys, h]

theorem keys_snoc {r : Row} (h : r.ty = ty) : Db.keys (db ++ [r]) ty = db.keys ty ++ [r.key] := by
  rw [keys_append]
  simp [keys, h]

/-- An update that agrees with the rows it meets leaves the ledger as it is. -/
theorem keys_dbUpdateResource {o : Obj} {ri : CStr}
    (h : ∀ r ∈ db, r.ty = ty → r.ri = some ri → (∀ k ∈ [Attr.ri, .pi, .cs],
      o.get k = none ∨ (o.get k).bind column = r.obj.get k) ∧ (o.str .uri).getD r.uri = r.uri) :
    (db.dbUpdateResource o ri).keys ty = db.keys ty := by
  unfold keys dbUpdateResource
  rw [List.filter_map, List.map_map]
  have hf : ∀ r ∈ db, ((fun r : Row => decide (r.ty = ty)) ∘ fun r : Row => if r.ri = some ri then
      { r with uri := (o.str .uri).getD r.uri, obj := Assoc.drop (Assoc.overlay column o r.obj) .uri }
      else r) r = decide (r.ty = ty) := by
    intro r _
    simp only [Function.comp]
    split <;> rfl
  rw [List.filter_congr hf]
  apply List.map_congr_left
  intro r hr
  obtain ⟨hr, ht⟩ := List.mem_filter.mp hr
  simp only [Function.comp]
  split
  · rename_i hri
    have hk : ∀ k ∈ [Attr.ri, .pi, .cs],
        Obj.get (Assoc.drop (Assoc.overlay column o r.obj) .uri) k = r.obj.get k := by
      intro k hk
      have hne : k ≠ .uri := by
        rintro rfl
        simp at hk
      show Assoc.get _ _ = _
      rw [Assoc.get_drop, if_neg (Ne.symm hne), Assoc.get_overlay]
      rcases (h r hr (by simpa using ht) hri).1 k hk with hn | hb
      · have hn' : Assoc.get o k = none := hn
        rw [hn']
      · cases ho : Assoc.get o k with
        | none => rfl
        | some v =>
          have hb' : (Assoc.get o k).bind column = r.obj.get k := hb
          simpa [ho] using hb'
    unfold Row.key Row.ri Row.pi
    dsimp only
    rw [(h r hr (by simpa using ht) hri).2]
    unfold Obj.str
    rw [hk .ri (by simp), hk .pi (by simp), hk .cs (by simp)]
  · rfl

/-- An update addressed to an identifier no instance has. -/
theorem keys_dbUpdateResource_of_apart {o : Obj} {ri : CStr}
    (h : ∀ k ∈ db.keys ty, k.ri ≠ some ri) : (db.dbUpdateResource o ri).keys ty = db.keys ty :=
  keys_dbUpdateResource fun _ hr ht hri => absurd hri (h _ (key_mem hr ht))

/-! ## Deleting -/

theorem mem_dbDelete {n : RTNode} {r : Row} (h : r ∈ db.dbDeleteOnem2mResource n) : r ∈ db := by
  unfold Db.dbDeleteOnem2mResource at h
  split at h
  · exact h
  · exact List.mem_of_mem_filter h

/-- The DELETE statement for `n` meets no instance of the type but its own. -/
def HitsOnly (db : Db) (ty : ResourceType) (n : RTNode) : Prop :=
  ∀ k ∈ db.keys ty, like (n.uri ++ ['/', '%']) k.uri = true → k.ri = n.ri

theorem keys_filter_ri {p : Row → Bool} {ri : Option CStr}
    (h : ∀ r ∈ db, r.ty = ty → (p r = true ↔ r.ri ≠ ri)) :
    Db.keys (db.filter p) ty = (db.keys ty).filter fun k => k.ri ≠ ri := by
  unfold keys
  rw [List.filter_map, List.filter_filter, List.filter_filter]
  congr 1
  apply List.filter_congr
  intro r hr
  by_cases ht : r.ty = ty
  · have := h r hr ht
    by_cases hp : p r = true
    · simp [ht, hp, this.mp hp, Row.key]
    · have hri : r.ri = ri := by
        by_contra hne
        exact hp (this.mpr hne)
      simp [ht, hp, hri, Row.key]
  · simp [ht]

theorem keys_dbDeleteOnem2mResource {n : RTNode} {ri : CStr} (hn : n.ri = some ri)
    (h : db.HitsOnly ty n) :
    (db.dbDeleteOnem2mResource n).keys ty = (db.keys ty).filter fun k => k.ri ≠ n.ri := by
  unfold dbDeleteOnem2mResource
  rw [hn]
  apply keys_filter_ri
  intro r hr ht
  simp only [deleteMatches, Bool.not_eq_true', Bool.or_eq_false_iff, decide_eq_false_iff_not]
  constructor
  · exact fun hp => hp.2
  · intro hne
    refine ⟨?_, hne⟩
    by_contra hl
    exact hne ((h _ (key_mem hr ht) (by simpa [Row.key] using hl)).trans hn)

end Db

end TinyIoT
