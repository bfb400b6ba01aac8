/-
What the announced copies of a resource show (`build_annc_attrs`), and the update they are sent when the resource is
updated (`announce_to_annc`). The copies show the mandatory attributes and those of the optional ones that are listed
in `aa`. The update is made from what the request names, from the new `aa` and from the one before; it brings a copy up
to date exactly where the attributes that the server itself has changed need no mention.
-/
import TinyIoT.FlexContainer.Run

namespace TinyIoT

/-! ## Names -/

/-- The attributes with a constructor of their own. -/
def Attr.known : List Attr :=
  [.rn, .ri, .pi, .ct, .et, .lt, .uri, .acpi, .lbl, .ty, .memberOf, .cr, .st, .mni, .mbs, .mia, .cni, .cbs, .cs, .con,
   .cnf, .aa, .at, .lnk, .ast, .mt, .mnm, .cnm, .mid, .macp, .mtv, .csy, .gn, .pv, .pvs, .acr, .acor, .acop, .acco,
   .acip, .ipv4, .pei, .peid, .mdd, .mdn, .mdt, .mdc, .mdlt, .dgt, .snr, .enc, .net, .exc, .nu, .nct, .su, .md, .chty,
   .atr, .aei, .api, .csi, .cb, .dcse, .rr, .poa, .srt, .srv, .fcied, .cnd]

/-- The attribute with a name. -/
def Attr.named (name : CStr) : Attr := (Attr.known.find? fun k => k.name = name).getD (.other name)

theorem Attr.name_named (name : CStr) : (Attr.named name).name = name := by
  unfold Attr.named
  rcases h : Attr.known.find? (fun k => decide (k.name = name)) with _ | k
  · rw [h]
    rfl
  · rw [h]
    exact of_decide_eq_true (List.find?_some (p := fun k : Attr => decide (k.name = name)) h)

/-! ## `ANNC_ATTR_TABLE` -/

/-- `annc_ma_fields`: the attributes every copy shows. -/
def maFields : ResourceType → List Attr
  | .ae => [.et, .acpi, .lbl, .ast, .srv]
  | .cnt => [.et, .acpi, .lbl, .ast]
  | .cin => [.lbl, .ast]
  | .grp => [.et, .acpi, .lbl, .ast]
  | .acp => [.et, .lbl, .ast, .pv, .pvs, .other "adri".toList, .other "apri".toList, .other "airi".toList]
  | .ts => [.et, .acpi, .lbl, .ast]
  | .fcnt => [.et, .acpi, .lbl, .ast, .cnd]
  | .cse => [.acpi, .lbl, .srv]
  | _ => []

theorem named_of_ma {ty : ResourceType} {k : Attr} (h : k ∈ maFields ty) : k = Attr.named k.name ∧ k.name ∉ oaFields ty := by
  revert k
  cases ty <;> decide

/-! ## The copies -/

/-- `annc_copy`, and the same with another source of values: an attribute is added once, where there is a value. -/
def addOnce (f : Attr → Option Json) (dst : Obj) (k : Attr) : Obj :=
  if dst.has k then dst else match f k with
    | none => dst
    | some v => dst.add k v

/-- The strings in `aa`. -/
def aaNames (o : Obj) : List CStr := (o.arr .aa).filterMap Json.valuestring

/-- The attributes `aa` lists that may be announced. -/
def announced (ty : ResourceType) (o : Obj) : List Attr :=
  ((aaNames o).filter fun name => (oaFields ty).contains name).map Attr.named

/-- `build_annc_attrs`. -/
def buildAnncAttrs (ty : ResourceType) (src : Obj) : Obj :=
  (announced ty src).foldl (addOnce src.get) ((maFields ty).foldl (addOnce src.get) [])

/-! ## The update -/

/-- The names of the resource objects in `getResource`. -/
def resourceName : ResourceType → CStr
  | .cse => "m2m:cse".toList
  | .ae => "m2m:ae".toList
  | .cnt => "m2m:cnt".toList
  | .cin => "m2m:cin".toList
  | .acp => "m2m:acp".toList
  | .grp => "m2m:grp".toList
  | .fcnt => "m2m:fcnt".toList
  | .ts => "m2m:ts".toList
  | _ => []

/-- `getResource` of a request with one member, as it is copied before the handler runs; for a flexContainer of another
name `cnd` has to be there. -/
def getResource (ty : ResourceType) (name : CStr) (content : Obj) : Obj :=
  if name = resourceName ty then content
  else if ty = .fcnt ∧ ':' ∈ name ∧ (content.str .cnd).isSome then content
  else []

/-- Part 1 of `announce_to_annc`: the mandatory attributes the request names, with their new values, or null. -/
def mandatoryPart (ty : ResourceType) (new snap : Obj) : Obj :=
  snap.filterMap fun it =>
    if it.1 ∈ maFields ty then match new.get it.1 with
      | some v => some (it.1, v)
      | none => if it.2.isNull then some (it.1, .null) else none
    else none

/-- What part 2 sends for an attribute that is listed in `aa`. -/
def optionalValue (new snap : Obj) (k : Attr) : Option Json :=
  match new.get k with
  | some v => some v
  | none => if (snap.get k).any Json.isNull then some .null else none

/-- The attributes part 3 deletes: those that were listed and are not any more. -/
def withdrawn (old new : Obj) : List Attr :=
  ((aaNames old).filter fun name => !(aaNames new).contains name).map Attr.named

/-- The body of the update of `announce_to_annc`. -/
def anncUpdate (ty : ResourceType) (old new snap : Obj) : Obj :=
  (withdrawn old new).foldl (addOnce fun _ => some .null)
    ((announced ty new).foldl (addOnce (optionalValue new snap)) (mandatoryPart ty new snap))

/-- When the update brings a copy up to date. -/
structure UpToDate (ty : ResourceType) (old new snap : Obj) : Prop where
  changed : ∀ k ∈ maFields ty, ∀ v, new.get k = some v →
    if snap.has k then v ≠ .null else old.get k = some v ∧ (k.name ∈ aaNames old → k.name ∈ aaNames new)
  removed : ∀ k ∈ maFields ty, new.get k = none →
    (k, .null) ∈ snap ∨ (k.name ∈ aaNames old ∧ k.name ∉ aaNames new) ∨ old.get k = none
  listed : ∀ k ∈ announced ty new, ∀ v, new.get k = some v → v ≠ .null
  lost : ∀ k ∈ announced ty new, new.get k = none → snap.get k = some .null ∨ k ∉ announced ty old ∨ old.get k = none

/-! ## Adding once -/

variable {f : Attr → Option Json} {dst : Obj} {k : Attr}

theorem get_addOnce (f : Attr → Option Json) (dst : Obj) (k k' : Attr) :
    (addOnce f dst k).get k' = (dst.get k').or (if k = k' then f k else none) := by
  unfold addOnce
  by_cases hk : k = k'
  · subst hk
    rw [if_pos rfl]
    split
    · rename_i hh
      obtain ⟨v, hv⟩ := Assoc.has_iff.mp hh
      have hv : dst.get k = some v := hv
      rw [hv]
      rfl
    · rename_i hh
      have hnone : dst.get k = none := Assoc.has_eq_false.mp (by simpa using hh)
      cases hf : f k with
      | none => simp
      | some v => simp
  · rw [if_neg hk, Option.or_none]
    split
    · rfl
    · cases f k with
      | none => rfl
      | some v => exact Assoc.get_add_ne hk

/-- Added once, an attribute has the value it had, or the one it is given. -/
theorem get_foldl_addOnce (f : Attr → Option Json) (ks : List Attr) (dst : Obj) (k : Attr) :
    (ks.foldl (addOnce f) dst).get k = (dst.get k).or (if k ∈ ks then f k else none) := by
  induction ks generalizing dst with
  | nil => simp
  | cons k' ks ih =>
    rw [List.foldl_cons, ih, get_addOnce]
    by_cases hk : k' = k
    · subst hk
      cases dst.get k' <;> cases f k' <;> simp
    · have hne : ¬ k = k' := fun h => hk h.symm
      simp [hk, hne]

theorem mem_addOnce {k' : Attr} {v : Json} (h : (k, v) ∈ addOnce f dst k') :
    (k, v) ∈ dst ∨ dst.get k = none ∧ k = k' ∧ f k = some v := by
  unfold addOnce at h
  split at h
  · exact .inl h
  · rename_i hh
    cases hf : f k' with
    | none =>
      rw [hf] at h
      exact .inl h
    | some w =>
      rw [hf] at h
      rcases Assoc.mem_add h with h | h
      · exact .inl h
      · cases h
        exact .inr ⟨Assoc.has_eq_false.mp (by simpa using hh), rfl, hf⟩

theorem mem_foldl_addOnce {ks : List Attr} {v : Json} (h : (k, v) ∈ ks.foldl (addOnce f) dst) :
    (k, v) ∈ dst ∨ dst.get k = none ∧ k ∈ ks ∧ f k = some v := by
  induction ks generalizing dst with
  | nil => exact .inl h
  | cons k' ks ih =>
    rcases ih h with h | ⟨hnone, hk, hf⟩
    · exact (mem_addOnce h).imp_right fun h => ⟨h.1, by rw [h.2.1]; exact List.mem_cons_self, h.2.2⟩
    · rw [get_addOnce, Option.or_eq_none_iff] at hnone
      exact .inr ⟨hnone.1, List.mem_cons_of_mem _ hk, hf⟩

theorem length_entries_foldl_addOnce (ks : List Attr) (h : (Assoc.entries dst k).length ≤ 1) :
    (Assoc.entries (ks.foldl (addOnce f) dst) k).length ≤ 1 := by
  induction ks generalizing dst with
  | nil => exact h
  | cons k' ks ih =>
    apply ih
    unfold addOnce
    split
    · exact h
    · rename_i hh
      cases f k' with
      | none => exact h
      | some v =>
        by_cases hk : k' = k
        · subst hk
          have hnil : Assoc.entries dst k' = [] := Assoc.entries_eq_nil (Assoc.has_eq_false.mp (by simpa using hh))
          show (Assoc.entries (Assoc.add dst k' v) k').length ≤ 1
          rw [Assoc.entries_add_self, hnil]
          exact le_refl _
        · show (Assoc.entries (Assoc.add dst k' v) k).length ≤ 1
          rw [Assoc.entries_add_ne hk]
          exact h

/-! ## Bodies that say one thing about an attribute -/

/-- Every entry of an attribute has the value of the first. -/
def SaysOne (o : Obj) (k : Attr) : Prop := ∀ v, (k, v) ∈ o → o.get k = some v

theorem SaysOne.addOnce (h : SaysOne dst k) (ks : List Attr) : SaysOne (ks.foldl (addOnce f) dst) k := by
  intro v hv
  rw [get_foldl_addOnce]
  rcases mem_foldl_addOnce hv with hv | ⟨hnone, hk, hf⟩
  · rw [h v hv]
    rfl
  · rw [hnone, if_pos hk, hf]
    rfl

/-- A body that says one thing about an attribute does that. -/
theorem SaysOne.updateResource {body o : Obj} {w : Json} (h : SaysOne body k) (ho : (Assoc.entries o k).length ≤ 1)
    (hw : body.get k = some w) : (o.updateResource body).get k = if w.isNull then none else some w := by
  have hall : ∀ v, (k, v) ∈ body → v = w := fun v hv => Option.some.inj ((h v hv).symm.trans hw)
  by_cases hnull : w.isNull = true
  · rw [if_pos hnull]
    clear h
    induction body generalizing o with
    | nil => cases hw
    | cons e body ih =>
      obtain ⟨k', v⟩ := e
      have hall' : ∀ v, (k, v) ∈ body → v = w := fun v hv => hall v (List.mem_cons_of_mem _ hv)
      show ((o.updateMember k' v).updateResource body).get k = none
      by_cases hk : k' = k
      · subst hk
        obtain rfl : v = w := hall v List.mem_cons_self
        have hlen := Obj.length_entries_updateMember (v := v) ho
        have hgone : (o.updateMember k' v).get k' = none := by
          unfold Obj.updateMember
          rw [if_pos hnull, if_pos hnull]
          split
          · exact Assoc.get_del_self ho
          · rename_i hh
            exact Assoc.has_eq_false.mp (by simpa using hh)
        rcases hrest : Obj.get body k' with _ | v'
        · rw [Obj.get_updateResource_of_not_has hrest, hgone]
        · obtain rfl : v' = v := hall' v' (Assoc.mem_of_get hrest)
          exact ih hlen hrest hall'
      · have hlen : (Assoc.entries (o.updateMember k' v) k).length ≤ 1 := by
          rw [Obj.entries_updateMember_ne hk]
          exact ho
        have hrest : Obj.get body k = some w := by
          simpa [Obj.get, hk] using hw
        exact ih hlen hrest hall'
  · rw [if_neg hnull]
    obtain ⟨v, hv, hget⟩ := Obj.get_updateResource_of_has o (Assoc.has_iff.mpr ⟨w, hw⟩) fun v hv => by
      rw [hall v hv]
      simpa using hnull
    rw [hget, hall v hv]

/-! ## What is shown, and what is sent -/

variable {ty : ResourceType} {o old new snap : Obj}

theorem mem_announced : k ∈ announced ty o ↔ k.name ∈ aaNames o ∧ k.name ∈ oaFields ty ∧ Attr.named k.name = k := by
  unfold announced
  rw [List.mem_map]
  constructor
  · rintro ⟨name, hname, rfl⟩
    obtain ⟨haa, hoa⟩ := List.mem_filter.mp hname
    rw [Attr.name_named]
    exact ⟨haa, List.contains_iff_mem.mp hoa, rfl⟩
  · rintro ⟨haa, hoa, hk⟩
    exact ⟨k.name, List.mem_filter.mpr ⟨haa, List.contains_iff_mem.mpr hoa⟩, hk⟩

theorem mem_withdrawn : k ∈ withdrawn old new ↔ k.name ∈ aaNames old ∧ k.name ∉ aaNames new ∧ Attr.named k.name = k := by
  unfold withdrawn
  rw [List.mem_map]
  constructor
  · rintro ⟨name, hname, rfl⟩
    obtain ⟨hold, hnew⟩ := List.mem_filter.mp hname
    rw [Attr.name_named]
    exact ⟨hold, by simpa using hnew, rfl⟩
  · rintro ⟨hold, hnew, hk⟩
    exact ⟨k.name, List.mem_filter.mpr ⟨hold, by simpa using hnew⟩, hk⟩

theorem not_announced_of_ma (h : k ∈ maFields ty) : k ∉ announced ty o := fun hk =>
  (named_of_ma h).2 (mem_announced.mp hk).2.1

/-- A copy shows the mandatory attributes and the announced ones. -/
theorem get_buildAnncAttrs (k : Attr) : (buildAnncAttrs ty o).get k =
    if k ∈ maFields ty ∨ k ∈ announced ty o then o.get k else none := by
  unfold buildAnncAttrs
  rw [get_foldl_addOnce, get_foldl_addOnce]
  by_cases hma : k ∈ maFields ty
  · rw [if_pos hma, if_neg (not_announced_of_ma hma), if_pos (.inl hma)]
    simp
  · by_cases hoa : k ∈ announced ty o
    · rw [if_neg hma, if_pos hoa, if_pos (.inr hoa)]
      simp
    · rw [if_neg hma, if_neg hoa, if_neg (by simp [hma, hoa])]
      simp

theorem length_entries_buildAnncAttrs (k : Attr) : (Assoc.entries (buildAnncAttrs ty o) k).length ≤ 1 :=
  length_entries_foldl_addOnce _ (length_entries_foldl_addOnce _ (Nat.zero_le 1))

theorem isNull_iff {j : Json} : j.isNull = true ↔ j = .null := by
  cases j <;> simp [Json.isNull]

theorem mem_mandatoryPart {v : Json} : (k, v) ∈ mandatoryPart ty new snap ↔
    k ∈ maFields ty ∧ (snap.has k = true ∧ new.get k = some v ∨ (k, .null) ∈ snap ∧ new.get k = none ∧ v = .null) := by
  unfold mandatoryPart
  rw [List.mem_filterMap]
  constructor
  · rintro ⟨⟨k', j⟩, hj, h⟩
    split at h
    · rename_i hma
      split at h
      · rename_i w hw
        cases h
        refine ⟨hma, .inl ⟨?_, hw⟩⟩
        rw [Obj.has, Assoc.has, Option.isSome_iff_ne_none]
        exact fun hnone => Assoc.get_eq_none_iff.mp hnone (List.mem_map_of_mem hj)
      · rename_i hnone
        rw [Option.ite_none_right_eq_some] at h
        obtain ⟨hnull, h⟩ := h
        cases h
        rw [show j = .null from isNull_iff.mp hnull] at hj
        exact ⟨hma, .inr ⟨hj, hnone, rfl⟩⟩
    · cases h
  · rintro ⟨hma, ⟨hhas, hw⟩ | ⟨hnull, hnone, rfl⟩⟩
    · obtain ⟨j, hj⟩ := Assoc.has_iff.mp hhas
      exact ⟨(k, j), Assoc.mem_of_get hj, by simp [hma, hw]⟩
    · exact ⟨(k, .null), hnull, by simp [hma, hnone, Json.isNull]⟩

/-- What part 1 sends for a mandatory attribute. -/
theorem get_mandatoryPart_some {v : Json} (hma : k ∈ maFields ty) (hv : new.get k = some v) :
    (mandatoryPart ty new snap).get k = if snap.has k then some v else none := by
  rcases hw : (mandatoryPart ty new snap).get k with _ | w
  · split
    · rename_i hh
      have hin := mem_mandatoryPart.mpr ⟨hma, .inl ⟨hh, hv⟩⟩
      exact absurd (List.mem_map_of_mem hin) (Assoc.get_eq_none_iff.mp hw)
    · rfl
  · obtain ⟨-, ⟨hh, hv'⟩ | ⟨-, hnone, -⟩⟩ := mem_mandatoryPart.mp (Assoc.mem_of_get hw)
    · rw [if_pos hh, ← hv', hv]
    · rw [hv] at hnone
      cases hnone

theorem get_mandatoryPart_none (hma : k ∈ maFields ty) (hnone : new.get k = none) :
    ((mandatoryPart ty new snap).get k = some .null ∧ (k, .null) ∈ snap) ∨
      ((mandatoryPart ty new snap).get k = none ∧ (k, .null) ∉ snap) := by
  rcases hw : (mandatoryPart ty new snap).get k with _ | w
  · refine .inr ⟨rfl, fun hnull => ?_⟩
    have hin := mem_mandatoryPart.mpr ⟨hma, .inr ⟨hnull, hnone, rfl⟩⟩
    exact absurd (List.mem_map_of_mem hin) (Assoc.get_eq_none_iff.mp hw)
  · obtain ⟨-, ⟨-, hv⟩ | ⟨hnull, -, rfl⟩⟩ := mem_mandatoryPart.mp (Assoc.mem_of_get hw)
    · rw [hnone] at hv
      cases hv
    · exact .inl ⟨rfl, hnull⟩

theorem get_mandatoryPart_of_not_ma (hma : k ∉ maFields ty) : (mandatoryPart ty new snap).get k = none := by
  rcases hw : (mandatoryPart ty new snap).get k with _ | w
  · rfl
  · exact absurd (mem_mandatoryPart.mp (Assoc.mem_of_get hw)).1 hma

theorem saysOne_mandatoryPart (k : Attr) : SaysOne (mandatoryPart ty new snap) k := by
  intro v hv
  obtain ⟨hma, ⟨hh, hnew⟩ | ⟨hnull, hnew, rfl⟩⟩ := mem_mandatoryPart.mp hv
  · rw [get_mandatoryPart_some hma hnew, if_pos hh]
  · rcases get_mandatoryPart_none hma hnew with ⟨h, -⟩ | ⟨-, h⟩
    · exact h
    · exact absurd hnull h

theorem saysOne_anncUpdate (k : Attr) : SaysOne (anncUpdate ty old new snap) k :=
  ((saysOne_mandatoryPart k).addOnce _).addOnce _

theorem get_anncUpdate (k : Attr) : (anncUpdate ty old new snap).get k =
    (((mandatoryPart ty new snap).get k).or (if k ∈ announced ty new then optionalValue new snap k else none)).or
      (if k ∈ withdrawn old new then some .null else none) := by
  unfold anncUpdate
  rw [get_foldl_addOnce, get_foldl_addOnce]

/-- What an update leaves of a copy. -/
theorem get_updated (k : Attr) : ((buildAnncAttrs ty old).updateResource (anncUpdate ty old new snap)).get k =
    (((anncUpdate ty old new snap).get k).map fun w => if w.isNull then none else some w).getD
      ((buildAnncAttrs ty old).get k) := by
  rcases hw : (anncUpdate ty old new snap).get k with _ | w
  · exact Obj.get_updateResource_of_not_has hw
  · exact (saysOne_anncUpdate k).updateResource (length_entries_buildAnncAttrs k) hw

/-! ## One attribute -/

/-- A mandatory attribute is up to date. -/
theorem mandatory_iff (hma : k ∈ maFields ty) :
    ((buildAnncAttrs ty old).updateResource (anncUpdate ty old new snap)).get k = new.get k ↔
      (∀ v, new.get k = some v →
        if snap.has k then v ≠ .null else old.get k = some v ∧ (k.name ∈ aaNames old → k.name ∈ aaNames new)) ∧
      (new.get k = none → (k, .null) ∈ snap ∨ (k.name ∈ aaNames old ∧ k.name ∉ aaNames new) ∨ old.get k = none) := by
  have hname : Attr.named k.name = k := (named_of_ma hma).1.symm
  rw [get_updated, get_buildAnncAttrs, if_pos (.inl hma), get_anncUpdate, if_neg (not_announced_of_ma hma), Option.or_none]
  rcases hnew : new.get k with _ | v
  · -- the attribute is not there any more
    rcases get_mandatoryPart_none hma hnew with ⟨hsent, hnull⟩ | ⟨hsent, hnull⟩
    · rw [hsent]
      simp [hnull, Json.isNull]
    · rw [hsent]
      by_cases hw : k ∈ withdrawn old new
      · have := mem_withdrawn.mp hw
        simp [hw, this.1, this.2.1, Json.isNull]
      · have hno : ¬ (k.name ∈ aaNames old ∧ k.name ∉ aaNames new) := fun h => hw (mem_withdrawn.mpr ⟨h.1, h.2, hname⟩)
        simp only [if_neg hw, Option.or_none, Option.map_none, Option.getD_none, hnull, hno, false_or, reduceCtorEq,
          false_imp_iff, implies_true, true_and, true_imp_iff]
  · rw [get_mandatoryPart_some hma hnew]
    by_cases hh : snap.has k = true
    · -- the request names it
      rw [if_pos hh]
      by_cases hnull : v = .null
      · subst hnull
        simp [hh, Json.isNull]
      · have : v.isNull = false := by simpa using fun h => hnull (isNull_iff.mp h)
        simp [hh, this, hnull]
    · rw [if_neg hh]
      by_cases hw : k ∈ withdrawn old new
      · have := mem_withdrawn.mp hw
        simp [hw, hh, this.1, this.2.1, Json.isNull]
      · have hyes : k.name ∈ aaNames old → k.name ∈ aaNames new := fun h =>
          not_not.mp fun hn => hw (mem_withdrawn.mpr ⟨h, hn, hname⟩)
        simpa [hw, hh] using fun _ => hyes

/-- An attribute that is no mandatory one is up to date. -/
theorem optional_iff (hma : k ∉ maFields ty) :
    ((buildAnncAttrs ty old).updateResource (anncUpdate ty old new snap)).get k =
        (if k ∈ announced ty new then new.get k else none) ↔
      (k ∈ announced ty new → ∀ v, new.get k = some v → v ≠ .null) ∧
      (k ∈ announced ty new → new.get k = none →
        snap.get k = some .null ∨ k ∉ announced ty old ∨ old.get k = none) := by
  have hold : (k ∈ maFields ty ∨ k ∈ announced ty old) ↔ k ∈ announced ty old := by simp [hma]
  rw [get_updated, get_buildAnncAttrs, get_anncUpdate, get_mandatoryPart_of_not_ma hma, Option.none_or]
  by_cases hk : k ∈ announced ty new
  · have hw : k ∉ withdrawn old new := fun h => (mem_withdrawn.mp h).2.1 (mem_announced.mp hk).1
    rw [if_pos hk, if_pos hk, if_neg hw, Option.or_none]
    unfold optionalValue
    rcases hnew : new.get k with _ | v
    · rcases hs : snap.get k with _ | j
      · by_cases ho : k ∈ announced ty old <;> simp [hk, ho, hma]
      · by_cases hj : j.isNull = true
        · have := isNull_iff.mp hj
          simp [this, Json.isNull]
        · have hne : j ≠ .null := fun h => hj (isNull_iff.mpr h)
          by_cases ho : k ∈ announced ty old <;> simp [hk, ho, hma, hj, hne]
    · by_cases hnull : v = .null
      · subst hnull
        simp [hk, Json.isNull]
      · have : v.isNull = false := by simpa using fun h => hnull (isNull_iff.mp h)
        simp [this, hnull]
  · rw [if_neg hk, if_neg hk, Option.none_or]
    by_cases hw : k ∈ withdrawn old new
    · simp [hw, hk, Json.isNull]
    · have ho : k ∉ announced ty old := fun h => by
        obtain ⟨haa, hoa, hname⟩ := mem_announced.mp h
        exact hw (mem_withdrawn.mpr ⟨haa, fun hn => hk (mem_announced.mpr ⟨hn, hoa, hname⟩), hname⟩)
      simp [hw, hk, hma, ho]

/-- The update brings the copy to what the projection of the updated resource shows exactly where it is `UpToDate`. -/
theorem refreshed_iff_upToDate (ty : ResourceType) (old new : Obj) (name : CStr) (content : Obj) :
    (∀ k, ((buildAnncAttrs ty old).updateResource (anncUpdate ty old new (getResource ty name content))).get k =
      (buildAnncAttrs ty new).get k) ↔ UpToDate ty old new (getResource ty name content) := by
  constructor
  · intro h
    have hma : ∀ k ∈ maFields ty, _ := fun k hk => (mandatory_iff hk).mp (by
      rw [h k, get_buildAnncAttrs, if_pos (.inl hk)])
    have hoa : ∀ k ∈ announced ty new, _ := fun k hk => (optional_iff (fun hma => not_announced_of_ma hma hk)).mp (by
      rw [h k, get_buildAnncAttrs, if_pos (.inr hk), if_pos hk])
    exact ⟨fun k hk => (hma k hk).1, fun k hk => (hma k hk).2, fun k hk => (hoa k hk).1 hk, fun k hk => (hoa k hk).2 hk⟩
  · intro h k
    rw [get_buildAnncAttrs]
    by_cases hma : k ∈ maFields ty
    · rw [if_pos (.inl hma)]
      exact (mandatory_iff hma).mpr ⟨h.changed k hma, h.removed k hma⟩
    · have hiff : (k ∈ maFields ty ∨ k ∈ announced ty new) ↔ k ∈ announced ty new := by simp [hma]
      simp only [hiff]
      exact (optional_iff hma).mpr ⟨fun hk => h.listed k hk, fun hk => h.lost k hk⟩

/-! ## Plain updates, and flexContainers under names of their own -/

/-- The resource after an update that does what the request says: its attributes have their new values, or are gone where
those are null, and the others stay. -/
def PlainlyUpdated (old new snap : Obj) : Prop :=
  ∀ k, new.get k = match snap.get k with
    | none => old.get k
    | some v => if v.isNull then none else some v

/-- A plain update that leaves `aa` alone brings the copies up to date. -/
theorem PlainlyUpdated.upToDate (h : PlainlyUpdated old new snap) (hold : ∀ k, old.get k ≠ some .null)
    (haa : aaNames new = aaNames old) : UpToDate ty old new snap := by
  have hcases : ∀ k, snap.get k = none ∧ new.get k = old.get k ∨ snap.get k = some .null ∧ new.get k = none ∨
      ∃ v, snap.get k = some v ∧ v ≠ .null ∧ new.get k = some v := by
    intro k
    have hk := h k
    cases hs : snap.get k with
    | none =>
      rw [hs] at hk
      exact .inl ⟨rfl, hk⟩
    | some v =>
      rw [hs] at hk
      dsimp only at hk
      split at hk
      · rename_i hv
        exact .inr (.inl ⟨by rw [isNull_iff.mp hv], hk⟩)
      · rename_i hv
        exact .inr (.inr ⟨v, rfl, fun he => hv (isNull_iff.mpr he), hk⟩)
  constructor
  · intro k _ v hv
    rcases hcases k with ⟨hs, hk⟩ | ⟨-, hk⟩ | ⟨w, hs, hw, hk⟩
    · rw [if_neg (by rw [Assoc.has_iff]; rintro ⟨w, hw⟩; cases hs.symm.trans hw), haa]
      exact ⟨hk.symm.trans hv, id⟩
    · cases hk.symm.trans hv
    · rw [if_pos (Assoc.has_iff.mpr ⟨w, hs⟩)]
      cases hk.symm.trans hv
      exact hw
  · intro k _ hnone
    rcases hcases k with ⟨-, hk⟩ | ⟨hs, -⟩ | ⟨w, -, -, hk⟩
    · exact .inr (.inr (hk.symm.trans hnone))
    · exact .inl (Assoc.mem_of_get hs)
    · cases hk.symm.trans hnone
  · intro k _ v hv
    rcases hcases k with ⟨-, hk⟩ | ⟨-, hk⟩ | ⟨w, -, hw, hk⟩
    · rintro rfl
      exact hold k (hk.symm.trans hv)
    · cases hk.symm.trans hv
    · cases hk.symm.trans hv
      exact hw
  · intro k _ hnone
    rcases hcases k with ⟨-, hk⟩ | ⟨hs, -⟩ | ⟨w, -, -, hk⟩
    · exact .inr (.inr (hk.symm.trans hnone))
    · exact .inl hs
    · cases hk.symm.trans hnone

/-- An update of a flexContainer under another name than `m2m:fcnt` may change none of the mandatory attributes, and take
away none of the announced ones: `getResource` does not find its content, which may not name `cnd`. -/
theorem upToDate_namedFcnt_iff {name : CStr} {content : Obj} (hname : name ≠ resourceName .fcnt)
    (hcnd : content.str .cnd = none) (haa : ∀ x ∈ aaNames old, x ∈ oaFields .fcnt) :
    UpToDate .fcnt old new (getResource .fcnt name content) ↔ (∀ k ∈ maFields .fcnt, new.get k = old.get k) ∧
      (∀ k ∈ announced .fcnt new, new.get k ≠ some .null) ∧
      ∀ k ∈ announced .fcnt new, k ∈ announced .fcnt old → new.get k = none → old.get k = none := by
  have hsnap : getResource .fcnt name content = [] := by
    unfold getResource
    rw [if_neg hname, if_neg]
    rw [hcnd]
    exact fun h => by cases h.2.2
  have hma : ∀ k ∈ maFields .fcnt, k.name ∉ aaNames old := fun k hk hin => (named_of_ma hk).2 (haa _ hin)
  have hempty : ∀ k, ¬ Obj.has [] k = true := fun k hh => by cases hh
  rw [hsnap]
  constructor
  · intro h
    refine ⟨fun k hk => ?_, fun k hk hnull => h.listed k hk _ hnull rfl, fun k hk hk' hnone => ?_⟩
    · cases hnew : new.get k with
      | some v =>
        have hv := h.changed k hk v hnew
        rw [if_neg (hempty k)] at hv
        exact hv.1.symm
      | none =>
        rcases h.removed k hk hnew with hin | ⟨hin, -⟩ | hold
        · cases hin
        · exact absurd hin (hma k hk)
        · exact hold.symm
    · rcases h.lost k hk hnone with hs | hno | hold
      · cases hs
      · exact absurd hk' hno
      · exact hold
  · rintro ⟨hsame, hlisted, hlost⟩
    refine ⟨fun k hk v hv => ?_, fun k hk hnone => ?_, fun k hk v hv => ?_, fun k hk hnone => ?_⟩
    · rw [if_neg (hempty k)]
      exact ⟨(hsame k hk).symm.trans hv, fun hin => absurd hin (hma k hk)⟩
    · exact .inr (.inr ((hsame k hk).symm.trans hnone))
    · rintro rfl
      exact hlisted k hk hv
    · by_cases hk' : k ∈ announced .fcnt old
      · exact .inr (.inr (hlost k hk hk' hnone))
      · exact .inr (.inl hk')

/-! ## A flexContainer that gives up its instances -/

/-- Announcements go to a remote CSE that takes them. -/
def announcingDay : FcntEnv := { warmDay with remoteAnnc := fun _ => some "/id-b/20003-1".toList }

/-- A flexContainer with instances, announced with the number of them. -/
def announcedWarm : Option Server := do
  let s ← boot firstDay
  let (s, _) ← s.serveFcnt announcingDay (.create none { adminReq .create "TinyIoT" .fcnt [(.rn, .str "w".toList),
    (.cnd, .str "org.onem2m.common.moduleclass.keepWarm".toList), (warmTime, .int 3), (.fcied, .bool true),
    (.at, .arr [.str "/id-b".toList]), (.aa, .arr [.str "cni".toList])] with rvi := 4 })
  return s

/-- The instances are to go. -/
def noMoreInstances : Req := { adminReq .update "TinyIoT/w" .fcnt [(.fcied, .null)] with rvi := 4 }

/-- With its instances the flexContainer loses their number, which the request does not name: the copy keeps it. -/
theorem not_refreshed_without_instances : ∃ s n s' resp n', announcedWarm = some s ∧ s.named "TinyIoT/w".toList = some n ∧
    n.obj.arr .at ≠ [] ∧ s.updateFcnt announcingDay none noMoreInstances n = some (s', resp) ∧ resp.rsc = .updated ∧
    s'.named "TinyIoT/w".toList = some n' ∧
    ¬ ∀ k, ((buildAnncAttrs .fcnt n.obj).updateResource
      (anncUpdate .fcnt n.obj n'.obj (getResource .fcnt "m2m:fcnt".toList noMoreInstances.pc))).get k =
        (buildAnncAttrs .fcnt n'.obj).get k := by
  have hrun : announcedWarm.any (fun s => (s.named "TinyIoT/w".toList).any fun n => !(n.obj.arr .at).isEmpty &&
      (s.updateFcnt announcingDay none noMoreInstances n).any fun x => x.2.rsc = .updated &&
        (x.1.named "TinyIoT/w".toList).any fun n' =>
          ((buildAnncAttrs .fcnt n.obj).updateResource
            (anncUpdate .fcnt n.obj n'.obj (getResource .fcnt "m2m:fcnt".toList noMoreInstances.pc))).has .cni &&
          !(buildAnncAttrs .fcnt n'.obj).has .cni) = true := by decide +kernel
  obtain ⟨s, hs, h⟩ := (Option.any_eq_true _ _).mp hrun
  obtain ⟨n, hn, h⟩ := (Option.any_eq_true _ _).mp h
  rw [Bool.and_eq_true] at h
  obtain ⟨hat, h⟩ := h
  obtain ⟨⟨s', resp⟩, hup, h⟩ := (Option.any_eq_true _ _).mp h
  rw [Bool.and_eq_true, decide_eq_true_eq] at h
  obtain ⟨hrsc, h⟩ := h
  obtain ⟨n', hn', h⟩ := (Option.any_eq_true _ _).mp h
  rw [Bool.and_eq_true, Bool.not_eq_true'] at h
  refine ⟨s, n, s', resp, n', hs, hn, fun he => ?_, hup, hrsc, hn', fun hall => ?_⟩
  · rw [he] at hat
    cases hat
  · obtain ⟨v, hv⟩ := Assoc.has_iff.mp h.1
    exact absurd ((hall .cni).symm.trans hv) (by rw [show Obj.get _ .cni = none from Assoc.has_eq_false.mp h.2]; simp)

end TinyIoT
