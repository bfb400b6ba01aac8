/-
Pages of descendants: what `db_get_descendants` gives for a limit `n` and the offsets 0, n, 2n, ... A limit up to the
default is read as one more than the default, so that the pages are too long where there is more than one of them. On
PostgreSQL a result with attributes takes the types from the page alone and counts the offset over the rows of these
types only: a row that stands first on a page is lost where an earlier row is of a type that the page does not have.
-/
import TinyIoT.Discovery.Texts

namespace TinyIoT

/-! ## What there is to list -/

/-- The same criteria, for the page of `n` rows after `k * n`. -/
def FilterCriteria.page (fc : FilterCriteria) (n k : Nat) : FilterCriteria :=
  { fc with lim := some (.int n), ofst := some (.int (k * n : Nat)) }

/-- The rows the WHERE clauses select, whatever LIMIT and OFFSET are; none where SQL does not accept them. -/
def matching (b : Backend) (print : Json → CStr) (forbidden : List CStr) (db : Db) (uri : CStr) (fc : FilterCriteria) :
    List Entry :=
  match generalWhere b print forbidden uri fc with
  | none => []
  | some cond =>
    if hasResFc b fc then
      if (joinTys b fc (rowsWhere db cond)).all fun ty => (joinedWhere b print forbidden uri fc ty).isSome then
        (entriesDesc db).filter fun e => decide (e.1.ty ∈ joinTys b fc (rowsWhere db cond)) &&
          (joinedWhere b print forbidden uri fc e.1.ty).any fun c => c e.1
      else []
    else rowsWhere db cond

/-- What the queries of `db_get_descendants` give; nothing where it does not return. -/
def queriedPage (b : Backend) (print : Json → CStr) (forbidden : List CStr) (db : Db) (uri : CStr) (fc : FilterCriteria)
    (details : Bool) (n k : Nat) : List Entry :=
  (queryDescendants b print forbidden db uri (fc.page n k) details).getD []

/-- No page is too long, and the pages list every row once. The offsets are those an `int` holds. -/
structure Paged (page : Nat → List Entry) (rows : List Entry) (n : Nat) : Prop where
  short : ∀ k, ((k * n : Nat) : Int) ≤ intMax → (page k).length ≤ n
  listed : ∀ N, rows.length ≤ N * n → (∀ k < N, ((k * n : Nat) : Int) ≤ intMax) →
    ((List.range N).flatMap page).Perm rows

/-- Do the rows come from a union of queries with limits of their own? -/
def limitedUnion (b : Backend) (fc : FilterCriteria) (details : Bool) : Bool :=
  b = .postgresql && (hasResFc b fc || details)

/-- Do the types come from the page? -/
def typesOfPage (b : Backend) (fc : FilterCriteria) (details : Bool) : Bool :=
  b = .postgresql && details && !hasResFc b fc

/-- When the pages are right: there is one page only, or `n` is above the default limit, the limit of a branch is an
`int`, and a page that is to give the types has those of all the rows before it. -/
def PagesFit (b : Backend) (fc : FilterCriteria) (details : Bool) (rows : List Entry) (n : Nat) : Prop :=
  rows.length ≤ n ∨
    (defaultDiscoveryLimit < n ∧
      (limitedUnion b fc details = true → ∀ k, k * n < rows.length → ((n + k * n : Nat) : Int) ≤ intMax) ∧
      (typesOfPage b fc details = true → ∀ k, k * n < rows.length → ∀ e ∈ rows.take (k * n),
        e.1.ty ∈ typesOf (Paging.window n (k * n) rows)))

section Answer

variable {b : Backend} {print : Json → CStr} {forbidden : List CStr} {db : Db} {uri : CStr} {fc : FilterCriteria}
  {details : Bool}

/-! ## The rows selected -/

theorem base_of_generalWhere {c : Cond} {r : Row} (h : generalWhere b print forbidden uri fc = some c) (hr : c r = true) :
    baseCond b forbidden uri fc r = true := by
  obtain ⟨d, -, rfl⟩ := Option.map_eq_some_iff.mp h
  exact (Bool.and_eq_true_iff.mp hr).1

theorem base_of_joinedWhere {c : Cond} {r : Row} {ty : ResourceType} (h : joinedWhere b print forbidden uri fc ty = some c)
    (hr : c r = true) : baseCond b forbidden uri fc r = true := by
  cases b with
  | postgresql =>
    unfold joinedWhere at h
    dsimp only at h
    split at h
    · obtain ⟨d, -, rfl⟩ := Option.map_eq_some_iff.mp h
      exact (Bool.and_eq_true_iff.mp hr).1
    · cases h
  | sqlite =>
    simp only [joinedWhere, Option.bind_eq_bind, Option.bind_eq_some_iff, Option.pure_def, Option.some.injEq] at h
    obtain ⟨g, hg, d, -, rfl⟩ := h
    exact base_of_generalWhere hg (Bool.and_eq_true_iff.mp hr).1

/-- What is selected is in the database and meets the head of the WHERE clause, whatever the criteria are. -/
theorem base_of_matching {e : Entry} (h : e ∈ matching b print forbidden db uri fc) :
    e.1 ∈ db ∧ baseCond b forbidden uri fc e.1 = true := by
  have hdb : ∀ {e : Entry}, e ∈ entriesDesc db → e.1 ∈ db := by
    intro e he
    obtain ⟨r, i⟩ := e
    exact List.fst_mem_of_mem_zipIdx (List.mem_reverse.mp he)
  unfold matching at h
  split at h
  · cases h
  · rename_i cond hcond
    split at h
    · split at h
      · obtain ⟨he, hsel⟩ := List.mem_filter.mp h
        obtain ⟨-, hsel⟩ := Bool.and_eq_true_iff.mp hsel
        obtain ⟨c, hc, hr⟩ := (Option.any_eq_true _ _).mp hsel
        exact ⟨hdb he, base_of_joinedWhere hc hr⟩
      · cases h
    · obtain ⟨he, hr⟩ := List.mem_filter.mp h
      exact ⟨hdb he, base_of_generalWhere hcond hr⟩

/-! ## The rows in order -/

theorem descending_entriesDesc (db : Db) : Paging.Descending Prod.snd (entriesDesc db) := by
  unfold entriesDesc Paging.Descending
  rw [List.pairwise_reverse]
  refine List.Pairwise.of_map Prod.snd (fun _ _ h => h) ?_
  rw [List.zipIdx_map_snd]
  exact List.pairwise_lt_range'

theorem descending_matching : Paging.Descending Prod.snd (matching b print forbidden db uri fc) := by
  unfold matching
  split
  · exact List.Pairwise.nil
  · split
    · split
      · exact (descending_entriesDesc db).filter _
      · exact List.Pairwise.nil
    · exact (descending_entriesDesc db).filter _

theorem mem_typesOf {l : List Entry} {ty : ResourceType} : ty ∈ typesOf l ↔ ∃ e ∈ l, e.1.ty = ty := by
  unfold typesOf
  rw [List.mem_dedup, List.mem_map]

/-! ## The limit and the offset -/

theorem limit_ge (fc : FilterCriteria) : defaultDiscoveryLimit + 1 ≤ fc.limit := by
  unfold FilterCriteria.limit
  split
  · split <;> omega
  · exact le_refl _

theorem limit_le (fc : FilterCriteria) : fc.limit ≤ intMax := by
  unfold FilterCriteria.limit
  split
  · split
    · exact Json.valueint_le _
    · decide
  · decide

theorem offset_le (fc : FilterCriteria) : fc.offset ≤ intMax := by
  unfold FilterCriteria.offset
  split
  · exact Json.valueint_le _
  · decide

theorem window_eq {lim ofst : Int} (hlim : 0 ≤ lim) (hofst : b = .postgresql → 0 ≤ ofst) (l : List Entry) :
    b.window lim ofst l = some (Paging.window lim.toNat ofst.toNat l) := by
  cases b
  · have := hofst rfl
    exact if_neg (by omega)
  · exact congrArg some (if_neg (by omega))

/-- The limit of a branch: above every `int` it wraps around to a negative number. -/
theorem branchLimit_neg_iff {fc : FilterCriteria} (hofst : 0 ≤ fc.offset) :
    cInt (fc.limit + fc.offset) < 0 ↔ intMax < fc.limit + fc.offset := by
  have hle := limit_le fc
  have hge := limit_ge fc
  have hofst' := offset_le fc
  unfold intMax at *
  unfold defaultDiscoveryLimit at hge
  by_cases h : 2147483647 < fc.limit + fc.offset
  · refine iff_of_true ?_ h
    unfold cInt
    rw [← Int.sub_bmod_right, Int.bmod_eq_of_le (by omega) (by omega)]
    omega
  · rw [cInt_eq (by unfold intMin; omega) (by unfold intMax; omega)]
    omega

/-! ## The union -/

theorem mapM_eq_some_map {α β : Type} {f : α → Option β} {g : α → β} {l : List α} (h : ∀ a ∈ l, f a = some (g a)) :
    l.mapM f = some (l.map g) := by
  induction l with
  | nil => rfl
  | cons a l ih =>
    rw [List.mapM_cons, h a (by simp), ih fun x hx => h x (by simp [hx])]
    rfl

theorem mapM_eq_none {α β : Type} {f : α → Option β} {l : List α} {a : α} (ha : a ∈ l) (h : f a = none) :
    l.mapM f = none := by
  induction l with
  | nil => cases ha
  | cons c l ih =>
    rw [List.mapM_cons]
    rcases List.mem_cons.mp ha with rfl | hl
    · rw [h]
      rfl
    · rw [ih hl]
      cases f c <;> rfl

/-- The rows of some types, each by the condition of its type. -/
def rowsOfTypes (db : Db) (cond : ResourceType → Option Cond) (tys : List ResourceType) : List Entry :=
  (entriesDesc db).filter fun e => decide (e.1.ty ∈ tys) && (cond e.1.ty).any fun c => c e.1

theorem typeQuery_eq {cond : ResourceType → Option Cond} {ty : ResourceType} {c : Cond} (h : cond ty = some c) :
    typeQuery db c ty =
      (entriesDesc db).filter fun e => decide (e.1.ty = ty) && (cond e.1.ty).any fun c => c e.1 := by
  refine List.filter_congr fun e _ => ?_
  by_cases he : e.1.ty = ty
  · rw [he, h]
    rfl
  · simp [he]

/-- The union is the page of the rows of the types, where every branch is accepted. -/
theorem unionQuery_eq (hofst : b = .postgresql → 0 ≤ fc.offset) (hlim : b = .postgresql → fc.limit + fc.offset ≤ intMax)
    {cond : ResourceType → Option Cond} {tys : List ResourceType} (htys : tys.Nodup) :
    unionQuery b db fc cond tys = if tys.all fun ty => (cond ty).isSome then
      some (Paging.window fc.limit.toNat fc.offset.toNat (rowsOfTypes db cond tys)) else none := by
  have hge := limit_ge fc
  unfold defaultDiscoveryLimit at hge
  by_cases hall : tys.all fun ty => (cond ty).isSome
  · rw [if_pos hall]
    rw [List.all_eq_true] at hall
    have hcond : ∀ ty ∈ tys, ∃ c, cond ty = some c := fun ty hty => Option.isSome_iff_exists.mp (hall ty hty)
    cases b with
    | postgresql =>
      have hsum := hlim rfl
      have hpos := hofst rfl
      have hneg : ¬ cInt (fc.limit + fc.offset) < 0 := by rw [branchLimit_neg_iff hpos]; omega
      have hint : cInt (fc.limit + fc.offset) = fc.limit + fc.offset := cInt_eq (by unfold intMin; omega) hsum
      show (if _ then none else _) = _
      rw [if_neg hneg, mapM_eq_some_map (g := fun ty => ((entriesDesc db).filter fun e =>
        decide (e.1.ty = ty) && (cond e.1.ty).any fun c => c e.1).take (fc.limit + fc.offset).toNat)]
      · rw [Option.bind_some, window_eq (by omega) hofst, ← List.flatMap_def]
        congr 1
        have htake := Paging.take_sortDesc_classes (fun e : Entry => e.1.ty) (descending_entriesDesc db) htys
          (fun e => (cond e.1.ty).any fun c => c e.1) (fc.limit + fc.offset).toNat
        have hto : (fc.limit + fc.offset).toNat = fc.offset.toNat + fc.limit.toNat := by omega
        unfold Paging.window rowsOfTypes
        rw [List.take_drop, List.take_drop, ← hto, htake]
      · intro ty hty
        obtain ⟨c, hc⟩ := hcond ty hty
        rw [hc, Option.map_some, hint, typeQuery_eq hc]
    | sqlite =>
      show Option.bind _ _ = _
      rw [mapM_eq_some_map (g := fun ty => (entriesDesc db).filter fun e =>
        decide (e.1.ty = ty) && (cond e.1.ty).any fun c => c e.1)]
      · rw [Option.bind_some, window_eq (by omega) hofst, ← List.flatMap_def]
        congr 2
        exact Paging.sortDesc_classes (fun e : Entry => e.1.ty) (descending_entriesDesc db) htys
          (fun e => (cond e.1.ty).any fun c => c e.1)
      · intro ty hty
        obtain ⟨c, hc⟩ := hcond ty hty
        rw [hc, Option.map_some, typeQuery_eq hc]
  · rw [if_neg hall]
    obtain ⟨ty, hty, hnone⟩ : ∃ ty ∈ tys, cond ty = none := by
      simpa [List.all_eq_true] using hall
    cases b with
    | postgresql =>
      show (if _ then none else _) = _
      split
      · rfl
      · rw [mapM_eq_none hty (by rw [hnone]; rfl)]
        rfl
    | sqlite =>
      show Option.bind _ _ = _
      rw [mapM_eq_none hty (by rw [hnone]; rfl)]
      rfl

theorem answered_getD (r : Option (List Entry)) : (answered b details r).getD [] = r.getD [] := by
  cases r with
  | some l => rfl
  | none =>
    show (if b = .postgresql ∧ details = true then none else some []).getD [] = []
    split <;> rfl

/-- A limit of a branch that is no `int` is negative, which PostgreSQL does not accept. -/
theorem unionQuery_overflow (hofst : 0 ≤ fc.offset) (hlim : intMax < fc.limit + fc.offset)
    (cond : ResourceType → Option Cond) (tys : List ResourceType) : unionQuery .postgresql db fc cond tys = none :=
  if_pos ((branchLimit_neg_iff hofst).mpr hlim)

/-! ## Criteria that are no texts -/

theorem exists_firstByTag {m : ResFcMap} : ∀ {l : List ResFcMap} {seen : List FcTag}, m ∈ l → m.tag ∉ seen →
    ∃ m' ∈ firstByTag seen l, m'.tag = m.tag
  | [], _, hm, _ => absurd hm (by simp)
  | c :: l, seen, hm, hseen => by
    unfold firstByTag
    by_cases hc : seen.contains c.tag
    · rw [if_pos hc]
      rcases List.mem_cons.mp hm with rfl | hl
      · exact absurd (List.contains_iff_mem.mp hc) hseen
      · exact exists_firstByTag hl hseen
    · rw [if_neg hc]
      by_cases he : m.tag = c.tag
      · exact ⟨c, List.mem_cons_self, he.symm⟩
      · rcases List.mem_cons.mp hm with rfl | hl
        · exact absurd rfl he
        · obtain ⟨m', hm', htag⟩ := exists_firstByTag hl (show m.tag ∉ c.tag :: seen by simp [he, hseen])
          exact ⟨m', List.mem_cons_of_mem _ hm', htag⟩

/-- A criterion on `con` or `lnk` that is no text makes no statement of PostgreSQL. -/
theorem joinedWhere_of_not_readable (h : starsReadable fc = false) (ty : ResourceType) :
    joinedWhere .postgresql print forbidden uri fc ty = none := by
  obtain ⟨t, ht, j, hget, hj⟩ : ∃ t ∈ [FcTag.con, .lnk], ∃ j, fc.get t = some j ∧ j.valuestring = none := by
    obtain ⟨t, ht, hnot⟩ := List.all_eq_false.mp h
    rcases hget : fc.get t with _ | j
    · exact absurd (by rw [hget]; rfl) hnot
    · refine ⟨t, ht, j, hget, ?_⟩
      rw [hget, Option.all_some, Bool.not_eq_true, Option.isSome_eq_false_iff, Option.isNone_iff_eq_none] at hnot
      exact hnot
  obtain ⟨m, hm, htag⟩ : ∃ m ∈ resFcMap .postgresql, m.tag = t := by
    rcases List.mem_cons.mp ht with rfl | ht
    · exact ⟨⟨.con, .cin, .con, .eq⟩, by simp [resFcMap, Backend.textOp], rfl⟩
    · rw [List.mem_singleton.mp ht]
      exact ⟨⟨.lnk, .acpa, .lnk, .eq⟩, by simp [resFcMap, Backend.textOp], rfl⟩
  have hattr : m ∈ resAttrs .postgresql fc := List.mem_filter.mpr ⟨hm, by rw [htag, hget]; rfl⟩
  obtain ⟨m', hm', htag'⟩ := exists_firstByTag hattr (show m.tag ∉ [] by simp)
  have hstar : takesStar m'.tag = true := by
    rw [htag', htag]
    rcases List.mem_cons.mp ht with rfl | ht
    · rfl
    · rw [List.mem_singleton.mp ht]
      rfl
  have hnone : none ∈ pgResCriteria print fc := by
    refine List.mem_map.mpr ⟨m', hm', ?_⟩
    rw [htag', htag] at hstar
    rw [htag', htag, hget]
    show (if takesStar t = true then _ else _) = none
    rw [if_pos hstar]
    cases j with
    | str v => cases hj
    | _ => rfl
  have hjoin : joinAll .postgresql fc (generalCriteria .postgresql print fc ++ pgResCriteria print fc) = none := by
    unfold joinAll
    rw [mapM_eq_none (List.mem_append_right _ hnone) rfl]
    rfl
  show (if _ then Option.map _ _ else none) = none
  rw [hjoin, Option.map_none, ite_self]

/-! ## The answer -/

/-- The rows the offset is counted over. -/
def shown (b : Backend) (fc : FilterCriteria) (details : Bool) (rows : List Entry) (lim ofst : Nat) : List Entry :=
  if typesOfPage b fc details then rows.filter fun e => decide (e.1.ty ∈ typesOf (Paging.window lim ofst rows)) else rows

theorem window_nil (lim ofst : Nat) : Paging.window lim ofst ([] : List Entry) = [] :=
  Paging.window_eq_nil (Nat.zero_le _)

/-- With criteria on a type's own table the rows are those of the types found. -/
theorem matching_of_hasResFc {cond : Cond} (hw : generalWhere b print forbidden uri fc = some cond)
    (hres : hasResFc b fc = true) : matching b print forbidden db uri fc =
      if (joinTys b fc (rowsWhere db cond)).all fun ty => (joinedWhere b print forbidden uri fc ty).isSome then
        rowsOfTypes db (joinedWhere b print forbidden uri fc) (joinTys b fc (rowsWhere db cond))
      else [] := by
  unfold matching
  rw [hw]
  exact if_pos hres

theorem rowsOfTypes_nil (cond : ResourceType → Option Cond) : rowsOfTypes db cond [] = [] := by
  unfold rowsOfTypes
  rw [List.filter_eq_nil_iff]
  intro e _
  simp

theorem typesOf_nodup (l : List Entry) : (typesOf l).Nodup := List.nodup_dedup _

theorem joinTys_nodup (l : List Entry) : (joinTys b fc l).Nodup := (typesOf_nodup l).filter _

/-- The union for criteria on a type's own table. -/
theorem getD_unionQuery (hofst : b = .postgresql → 0 ≤ fc.offset) (cond : ResourceType → Option Cond) {tys : List ResourceType}
    (htys : tys.Nodup) : (answered b details (unionQuery b db fc cond tys)).getD [] =
      if b = .postgresql ∧ intMax < fc.limit + fc.offset then []
      else Paging.window fc.limit.toNat fc.offset.toNat
        (if tys.all fun ty => (cond ty).isSome then rowsOfTypes db cond tys else []) := by
  rw [answered_getD]
  by_cases hover : b = .postgresql ∧ intMax < fc.limit + fc.offset
  · rw [if_pos hover, hover.1, unionQuery_overflow (hofst hover.1) hover.2]
    rfl
  · rw [if_neg hover, unionQuery_eq hofst (fun hb => not_lt.mp fun hlt => hover ⟨hb, hlt⟩) htys]
    split
    · rfl
    · rw [window_nil]
      rfl

theorem queryDescendants_of_hasResFc {cond : Cond} (hw : generalWhere b print forbidden uri fc = some cond)
    (hres : hasResFc b fc = true) : queryDescendants b print forbidden db uri fc details =
      if typesOf (rowsWhere db cond) = [] then some []
      else if b = .postgresql ∧ starsReadable fc = false then none
      else if joinTys b fc (rowsWhere db cond) = [] then some []
      else answered b details
        (unionQuery b db fc (joinedWhere b print forbidden uri fc) (joinTys b fc (rowsWhere db cond))) := by
  unfold queryDescendants
  rw [hw]
  exact if_pos hres

theorem queryDescendants_of_details {cond : Cond} (hw : generalWhere .postgresql print forbidden uri fc = some cond)
    (hres : hasResFc .postgresql fc ≠ true) (hofst : 0 ≤ fc.offset) :
    queryDescendants .postgresql print forbidden db uri fc true =
      if typesOf (Paging.window fc.limit.toNat fc.offset.toNat (rowsWhere db cond)) = [] then some []
      else answered .postgresql true (unionQuery .postgresql db fc (fun _ => some cond)
        (typesOf (Paging.window fc.limit.toNat fc.offset.toNat (rowsWhere db cond)))) := by
  have hge := limit_ge fc
  unfold defaultDiscoveryLimit at hge
  have hwindow : Backend.window .postgresql fc.limit fc.offset (rowsWhere db cond) = _ := window_eq (by omega) (fun _ => hofst) _
  unfold queryDescendants
  rw [hw]
  simp only [if_neg hres, hwindow, and_self, if_true]

theorem rowsOfTypes_const {cond : Cond} (tys : List ResourceType) :
    rowsOfTypes db (fun _ => some cond) tys = (rowsWhere db cond).filter fun e => decide (e.1.ty ∈ tys) := by
  unfold rowsOfTypes rowsWhere
  rw [List.filter_filter]
  rfl

/-- `db_get_descendants` gives the page, counted over the rows of the types it has found, and nothing where the limit
of a branch is no `int`. -/
theorem getD_queryDescendants (hofst : b = .postgresql → 0 ≤ fc.offset) :
    (queryDescendants b print forbidden db uri fc details).getD [] =
      if limitedUnion b fc details = true ∧ intMax < fc.limit + fc.offset then []
      else Paging.window fc.limit.toNat fc.offset.toNat
        (shown b fc details (matching b print forbidden db uri fc) fc.limit.toNat fc.offset.toNat) := by
  have hge := limit_ge fc
  unfold defaultDiscoveryLimit at hge
  rcases hw : generalWhere b print forbidden uri fc with _ | cond
  · have hnil : matching b print forbidden db uri fc = [] := by unfold matching; rw [hw]
    have hshown : ∀ lim ofst, shown b fc details [] lim ofst = [] := fun lim ofst => by unfold shown; split <;> rfl
    unfold queryDescendants
    rw [hw, hnil, hshown, window_nil, ite_self]
    rfl
  by_cases hres : hasResFc b fc = true
  · have hshown : ∀ lim ofst rows, shown b fc details rows lim ofst = rows := fun lim ofst rows =>
      if_neg (by unfold typesOfPage; simp [hres])
    have hlimited : limitedUnion b fc details = true ↔ b = .postgresql := by unfold limitedUnion; simp [hres]
    rw [queryDescendants_of_hasResFc hw hres, hshown, matching_of_hasResFc hw hres]
    simp only [hlimited]
    by_cases hnone : joinTys b fc (rowsWhere db cond) = []
    · have hmatch : matching b print forbidden db uri fc = [] := by
        rw [matching_of_hasResFc hw hres, hnone, rowsOfTypes_nil, ite_self]
      rw [← matching_of_hasResFc hw hres, hmatch, window_nil, ite_self, if_pos hnone]
      split
      · rfl
      · split <;> rfl
    · have htypes : typesOf (rowsWhere db cond) ≠ [] := fun he => hnone (by unfold joinTys; rw [he]; rfl)
      rw [if_neg htypes]
      by_cases hstars : b = .postgresql ∧ starsReadable fc = false
      · obtain ⟨ty, hty⟩ := List.exists_mem_of_ne_nil _ hnone
        have hall : ¬ ((joinTys b fc (rowsWhere db cond)).all fun ty =>
            (joinedWhere b print forbidden uri fc ty).isSome) = true := fun hall => by
          have := List.all_eq_true.mp hall ty hty
          rw [hstars.1, joinedWhere_of_not_readable hstars.2] at this
          cases this
        rw [if_pos hstars, if_neg hall, window_nil, ite_self]
        rfl
      · rw [if_neg hstars, if_neg hnone, getD_unionQuery hofst _ (joinTys_nodup _)]
  · have hmatch : matching b print forbidden db uri fc = rowsWhere db cond := by
      unfold matching
      rw [hw]
      exact if_neg hres
    rw [hmatch]
    by_cases hdetails : b = .postgresql ∧ details = true
    · obtain ⟨rfl, rfl⟩ := hdetails
      have hlimited : limitedUnion .postgresql fc true = true := by simp [limitedUnion]
      have hpage : typesOfPage .postgresql fc true = true := by simpa [typesOfPage] using hres
      rw [queryDescendants_of_details hw hres (hofst rfl), shown, if_pos hpage]
      by_cases htypes : typesOf (Paging.window fc.limit.toNat fc.offset.toNat (rowsWhere db cond)) = []
      · rw [if_pos htypes, htypes]
        simp [window_nil]
      · rw [if_neg htypes, getD_unionQuery hofst _ (typesOf_nodup _), rowsOfTypes_const]
        simp [hlimited]
    · have hlimited : limitedUnion b fc details = false := by
        unfold limitedUnion
        cases b <;> cases details <;> simp_all
      have htypes : typesOfPage b fc details = false := by
        unfold typesOfPage
        cases b <;> cases details <;> simp_all
      unfold queryDescendants shown
      rw [hw, if_neg (by simp [hlimited]), if_neg (by simp [htypes])]
      simp only [if_neg hres, if_neg hdetails, window_eq (show 0 ≤ fc.limit by omega) hofst, Option.getD_some]

/-- PostgreSQL does not accept a negative offset. -/
theorem getD_queryDescendants_neg (hofst : fc.offset < 0) :
    (queryDescendants .postgresql print forbidden db uri fc details).getD [] = [] := by
  have hwindow : ∀ lim l, Backend.window .postgresql lim fc.offset l = none := fun lim l => if_pos (.inr hofst)
  have hunion : ∀ cond tys, unionQuery .postgresql db fc cond tys = none := by
    intro cond tys
    show (if _ then none else Option.bind _ _) = none
    split
    · rfl
    · rw [Option.bind_eq_none_iff]
      exact fun branches _ => hwindow _ _
  unfold queryDescendants
  split
  · rfl
  · split
    · split_ifs <;> first | rfl | rw [hunion, answered_getD]; rfl
    · split
      · rw [hwindow]
        rfl
      · rw [hwindow]
        rfl

/-- The rows of the page asked for. -/
def pageRows (b : Backend) (print : Json → CStr) (forbidden : List CStr) (db : Db) (uri : CStr) (fc : FilterCriteria)
    (details : Bool) : List Entry :=
  if b = .postgresql ∧ fc.offset < 0 ∨ limitedUnion b fc details = true ∧ intMax < fc.limit + fc.offset then []
  else Paging.window fc.limit.toNat fc.offset.toNat
    (shown b fc details (matching b print forbidden db uri fc) fc.limit.toNat fc.offset.toNat)

/-- What is on the page is selected. -/
theorem matching_of_pageRows {e : Entry} (h : e ∈ pageRows b print forbidden db uri fc details) :
    e ∈ matching b print forbidden db uri fc := by
  unfold pageRows at h
  split at h
  · cases h
  · have hshown := List.mem_of_mem_drop (List.mem_of_mem_take h)
    unfold shown at hshown
    split at hshown
    · exact List.mem_of_mem_filter hshown
    · exact hshown

theorem getD_pageRows :
    (queryDescendants b print forbidden db uri fc details).getD [] = pageRows b print forbidden db uri fc details := by
  unfold pageRows
  by_cases hneg : b = .postgresql ∧ fc.offset < 0
  · rw [if_pos (.inl hneg)]
    obtain ⟨rfl, hofst⟩ := hneg
    exact getD_queryDescendants_neg hofst
  · rw [getD_queryDescendants fun hb => not_lt.mp fun hlt => hneg ⟨hb, hlt⟩]
    simp only [hneg, false_or]

/-! ## Pages -/

variable {n k : Nat}

theorem matching_page : matching b print forbidden db uri (fc.page n k) = matching b print forbidden db uri fc := rfl

/-- The limit the page is asked with. -/
def readLimit (n : Nat) : Nat := if 150 < n then n else 151

theorem limit_page (hn : (n : Int) ≤ intMax) : (fc.page n k).limit = readLimit n := by
  have hint : (Json.num (n : Int)).valueint = n := Json.valueint_int (by unfold intMin; omega) hn
  show (if defaultDiscoveryLimit < (Json.num (n : Int)).valueint then (Json.num (n : Int)).valueint else _) = _
  rw [hint]
  unfold readLimit defaultDiscoveryLimit
  split <;> split <;> omega

theorem offset_page (hk : ((k * n : Nat) : Int) ≤ intMax) : (fc.page n k).offset = (k * n : Nat) :=
  Json.valueint_int (by unfold intMin; omega) hk

/-- A page of the statement. -/
theorem queriedPage_eq (hn : (n : Int) ≤ intMax) (hk : ((k * n : Nat) : Int) ≤ intMax) :
    queriedPage b print forbidden db uri fc details n k =
      if limitedUnion b fc details = true ∧ intMax < ((readLimit n + k * n : Nat) : Int) then []
      else Paging.window (readLimit n) (k * n)
        (shown b fc details (matching b print forbidden db uri fc) (readLimit n) (k * n)) := by
  have hlim : (fc.page n k).limit = readLimit n := limit_page hn
  have hofst : (fc.page n k).offset = (k * n : Nat) := offset_page hk
  have h := @getD_queryDescendants b print forbidden db uri (fc.page n k) details (fun _ => by omega)
  rw [hlim, hofst, matching_page] at h
  unfold queriedPage
  rw [h]
  push_cast
  rfl

theorem length_shown_le {rows : List Entry} {lim ofst : Nat} : (shown b fc details rows lim ofst).length ≤ rows.length := by
  unfold shown
  split
  · exact List.length_filter_le _ _
  · exact le_refl _

/-- A page beyond the rows is empty. -/
theorem queriedPage_beyond (hn : (n : Int) ≤ intMax) (hk : ((k * n : Nat) : Int) ≤ intMax)
    (hend : (matching b print forbidden db uri fc).length ≤ k * n) :
    queriedPage b print forbidden db uri fc details n k = [] := by
  rw [queriedPage_eq hn hk, Paging.window_eq_nil (length_shown_le.trans hend), ite_self]

/-- A page that has the types of all the rows before it shows them. -/
theorem window_shown {rows : List Entry} {lim ofst : Nat} (h : typesOfPage b fc details = true →
    ∀ e ∈ rows.take ofst, e.1.ty ∈ typesOf (Paging.window lim ofst rows)) :
    Paging.window lim ofst (shown b fc details rows lim ofst) = Paging.window lim ofst rows := by
  unfold shown
  split
  · next htypes =>
    refine Paging.window_filter fun e he => decide_eq_true ?_
    rw [List.take_add] at he
    rcases List.mem_append.mp he with he | he
    · exact h htypes e he
    · exact mem_typesOf.mpr ⟨e, he, rfl⟩
  · rfl

/-- Where the pages fit, each is a window of the rows. -/
theorem queriedPage_of_fit (hn : (n : Int) ≤ intMax) (hk : ((k * n : Nat) : Int) ≤ intMax)
    (hfit : PagesFit b fc details (matching b print forbidden db uri fc) n) :
    queriedPage b print forbidden db uri fc details n k = Paging.window n (k * n) (matching b print forbidden db uri fc) := by
  by_cases hend : (matching b print forbidden db uri fc).length ≤ k * n
  · rw [queriedPage_beyond hn hk hend, Paging.window_eq_nil hend]
  rw [not_le] at hend
  rcases hfit with hone | ⟨hlim, hroom, htypes⟩
  · -- one page
    have hk0 : k = 0 := by
      rcases Nat.eq_zero_or_pos k with h | h
      · exact h
      · have := Nat.le_mul_of_pos_left n h
        omega
    subst hk0
    have hread : n ≤ readLimit n ∧ ((readLimit n : Nat) : Int) ≤ intMax := by
      unfold readLimit
      split
      · exact ⟨le_refl _, hn⟩
      · exact ⟨by omega, by decide⟩
    rw [queriedPage_eq hn hk, if_neg (by push_cast; omega), window_shown (fun _ e he => absurd he (by simp))]
    unfold Paging.window
    rw [List.take_of_length_le (by simp; omega), List.take_of_length_le (by simp; omega)]
  · have hread : readLimit n = n := if_pos (by unfold defaultDiscoveryLimit at hlim; omega)
    rw [queriedPage_eq hn hk, hread, if_neg, window_shown fun h => htypes h k hend]
    rintro ⟨hunion, hover⟩
    have := hroom hunion k hend
    omega

/-- Pages that fit are right. -/
theorem paged_of_fit (hn : (n : Int) ≤ intMax) (hfit : PagesFit b fc details (matching b print forbidden db uri fc) n) :
    Paged (queriedPage b print forbidden db uri fc details n) (matching b print forbidden db uri fc) n := by
  constructor
  · intro k hk
    rw [queriedPage_of_fit hn hk hfit]
    exact Paging.length_window_le _ _ _
  · intro N hN hint
    have hpages : (List.range N).flatMap (queriedPage b print forbidden db uri fc details n) =
        (List.range N).flatMap fun k => Paging.window n (k * n) (matching b print forbidden db uri fc) :=
      List.flatMap_congr fun k hk => queriedPage_of_fit hn (hint k (List.mem_range.mp hk)) hfit
    rw [hpages, Paging.pages_flatMap_eq hN]

section Wrong

variable (hpos : 0 < n) (hn : (n : Int) ≤ intMax)
  (hofst : ∀ k, k * n < (matching b print forbidden db uri fc).length → ((k * n : Nat) : Int) ≤ intMax)
  (hpaged : Paged (queriedPage b print forbidden db uri fc details n) (matching b print forbidden db uri fc) n)
  (hmore : n < (matching b print forbidden db uri fc).length)
include hn hpaged hmore

/-- More than one page needs a limit above the default. -/
theorem limit_of_paged : 150 < n := by
  by_contra hle
  have hread : readLimit n = 151 := if_neg hle
  have hshort := hpaged.short 0 (by simp [intMax])
  rw [queriedPage_eq hn (by simp [intMax]), hread, if_neg (by simp [intMax]), window_shown (fun _ e he => absurd he (by simp)),
    Paging.length_window] at hshort
  omega

include hpos hofst

/-- Pages that list every row have room for the limits of the branches. -/
theorem room_of_paged (hunion : limitedUnion b fc details = true) (hk : k * n < (matching b print forbidden db uri fc).length) :
    ((n + k * n : Nat) : Int) ≤ intMax := by
  by_contra hover
  have hread : readLimit n = n := if_pos (limit_of_paged hn hpaged hmore)
  have hempty : queriedPage b print forbidden db uri fc details n k = [] := by
    rw [queriedPage_eq hn (hofst k hk), hread, if_pos ⟨hunion, by omega⟩]
  obtain ⟨N, hN, hiff⟩ := Paging.exists_pages hpos (matching b print forbidden db uri fc).length
  have hint : ∀ j < N, ((j * n : Nat) : Int) ≤ intMax := fun j hj => hofst j ((hiff j).mp hj)
  have hlen := (hpaged.listed N hN hint).length_eq
  have hle := Paging.length_pages_add_le (fun j hj => hpaged.short j (hint j hj)) ((hiff k).mpr hk) hempty
  have hlast : (N - 1) * n < (matching b print forbidden db uri fc).length :=
    (hiff (N - 1)).mp (by have := (hiff k).mpr hk; omega)
  rw [Nat.sub_mul, one_mul] at hlast
  omega

/-- Pages that list every row have the types of all the rows before them: else the row a page begins with is on none. -/
theorem types_of_paged (htypes : typesOfPage b fc details = true) : ∀ k, k * n < (matching b print forbidden db uri fc).length →
    ∀ e ∈ (matching b print forbidden db uri fc).take (k * n),
      e.1.ty ∈ typesOf (Paging.window n (k * n) (matching b print forbidden db uri fc)) := by
  intro k
  induction k using Nat.strong_induction_on with
  | _ k ih =>
    intro hk e he
    by_contra hnot
    have hread : readLimit n = n := if_pos (limit_of_paged hn hpaged hmore)
    have hunion : limitedUnion b fc details = true := by
      unfold typesOfPage at htypes
      unfold limitedUnion
      revert htypes
      cases decide (b = .postgresql) <;> cases details <;> simp
    have hnodup : (matching b print forbidden db uri fc).Nodup := descending_matching.nodup
    set rows := matching b print forbidden db uri fc with hrows
    -- the row a page begins with
    have hfirst : rows[k * n] ∈ rows.take (k * n + 1) := List.mem_take_iff_getElem.mpr ⟨k * n, by omega, rfl⟩
    obtain ⟨N, hN, hiff⟩ := Paging.exists_pages hpos rows.length
    have hint : ∀ j < N, ((j * n : Nat) : Int) ≤ intMax := fun j hj => hofst j ((hiff j).mp hj)
    have hin : rows[k * n] ∈ (List.range N).flatMap (queriedPage b print forbidden db uri fc details n) :=
      (hpaged.listed N hN hint).mem_iff.mpr (List.getElem_mem _)
    obtain ⟨j, hj, hpage⟩ := List.mem_flatMap.mp hin
    rw [List.mem_range] at hj
    have hroom := room_of_paged hpos hn hofst hpaged hmore hunion ((hiff j).mp hj)
    rw [queriedPage_eq hn (hint j hj), hread, if_neg (by omega), ← hrows] at hpage
    rcases Nat.lt_trichotomy j k with hlt | rfl | hgt
    · -- on an earlier page, which is a window of the rows
      rw [window_shown fun _ => ih j hlt ((hiff j).mp hj)] at hpage
      have hle : j * n + n ≤ k * n := by
        have := Nat.mul_le_mul_right n (Nat.succ_le_of_lt hlt)
        rwa [Nat.succ_mul] at this
      unfold Paging.window at hpage
      rw [List.take_drop] at hpage
      obtain ⟨i, hi, hget⟩ := List.mem_take_iff_getElem.mp (List.mem_of_mem_drop hpage)
      have := (List.Nodup.getElem_inj_iff hnodup).mp hget
      omega
    · -- on its own page, before which a row is left out
      unfold shown at hpage
      rw [if_pos htypes] at hpage
      exact Paging.notMem_window_filter hnodup
        (Paging.length_filter_take_succ_le he (decide_eq_false hnot)) hfirst hpage
    · -- on a later page
      have hle : k * n + 1 ≤ j * n := by
        have := Nat.mul_le_mul_right n (Nat.succ_le_of_lt hgt)
        rw [Nat.succ_mul] at this
        omega
      unfold shown at hpage
      rw [if_pos htypes] at hpage
      exact Paging.notMem_window_filter hnodup
        ((List.length_filter_le _ _).trans ((List.length_take_le _ _).trans hle)) hfirst hpage

end Wrong

/-- The queries give the right pages exactly where the pages fit. -/
theorem paged_queried_iff (hpos : 0 < n) (hn : (n : Int) ≤ intMax)
    (hofst : ∀ k, k * n < (matching b print forbidden db uri fc).length → ((k * n : Nat) : Int) ≤ intMax) :
    Paged (queriedPage b print forbidden db uri fc details n) (matching b print forbidden db uri fc) n ↔
      PagesFit b fc details (matching b print forbidden db uri fc) n := by
  refine ⟨fun hpaged => ?_, paged_of_fit hn⟩
  by_cases hmore : n < (matching b print forbidden db uri fc).length
  · right
    refine ⟨?_, fun hunion k hk => room_of_paged hpos hn hofst hpaged hmore hunion hk,
      fun htypes => types_of_paged hpos hn hofst hpaged hmore htypes⟩
    have := limit_of_paged hn hpaged hmore
    unfold defaultDiscoveryLimit
    omega
  · exact .inl (not_lt.mp hmore)

/-- Whether the pages are right is a matter of those with an `int` for an offset. -/
theorem Paged.congr {page page' : Nat → List Entry} {rows : List Entry} (h : Paged page rows n)
    (hsame : ∀ k, ((k * n : Nat) : Int) ≤ intMax → page' k = page k) : Paged page' rows n := by
  refine ⟨fun k hk => ?_, fun N hN hints => ?_⟩
  · rw [hsame k hk]
    exact h.short k hk
  · have hflat : (List.range N).flatMap page' = (List.range N).flatMap page := by
      apply List.flatMap_congr
      intro k hk
      exact hsame k (hints k (List.mem_range.mp hk))
    rw [hflat]
    exact h.listed N hN hints

end Answer

/-! ## With the buffers -/

section Buffers

variable {b : Backend} {print : Json → CStr} {f : Forbidden} {db : Db} {uri cols : CStr} {fc : FilterCriteria}
  {details : Bool} {n : Nat}

/-- What `db_get_descendants` gives for a page; nothing where it does not return. -/
def pageOf (b : Backend) (print : Json → CStr) (f : Forbidden) (db : Db) (uri : CStr) (fc : FilterCriteria) (cols : CStr)
    (details : Bool) (n k : Nat) : List Entry :=
  (dbGetDescendants b print f db uri (fc.page n k) cols details).getD []

/-- On every page the texts fit the buffers they are made in. -/
def TextsFit (b : Backend) (print : Json → CStr) (f : Forbidden) (db : Db) (uri : CStr) (fc : FilterCriteria) (cols : CStr)
    (details : Bool) (n : Nat) : Prop :=
  ∀ k, ((k * n : Nat) : Int) ≤ intMax → textsFit b print f db uri (fc.page n k) cols details = true

theorem pageOf_eq (h : TextsFit b print f db uri fc cols details n) {k : Nat} (hk : ((k * n : Nat) : Int) ≤ intMax) :
    pageOf b print f db uri fc cols details n k = queriedPage b print f.patterns db uri fc details n k := by
  unfold pageOf queriedPage
  rw [dbGetDescendants_of_fit (h k hk)]

end Buffers

/-! ## Two containers -/

/-- Filter criteria with no condition. -/
def noCriteria : FilterCriteria := ⟨fun _ => none, none, none⟩

/-- Two containers below the base. -/
def twoContainers : Db :=
  [⟨"TinyIoT/a".toList, .cnt, [(.ri, .str "2-a".toList)]⟩, ⟨"TinyIoT/b".toList, .cnt, [(.ri, .str "2-b".toList)]⟩]

/-- The addresses are selected. -/
def uriColumn : CStr := "uri".toList

theorem length_matching_two (b : Backend) :
    (matching b (fun _ => []) [] twoContainers "TinyIoT".toList noCriteria).length = 2 := by
  cases b <;> decide +kernel

theorem textsFit_two (n : Nat) :
    TextsFit .postgresql (fun _ => []) {} twoContainers "TinyIoT".toList noCriteria uriColumn false n := by
  intro k _
  have hall : (generalPieces {} "TinyIoT".toList noCriteria).all (Piece.fits 512) = true := by decide +kernel
  have hlen : byteLen (clause (generalPieces {} "TinyIoT".toList noCriteria)) < 3000 := by decide +kernel
  have hres : hasResFc .postgresql (noCriteria.page n k) = false := rfl
  have hsame : generalPieces {} "TinyIoT".toList (noCriteria.page n k) = generalPieces {} "TinyIoT".toList noCriteria := rfl
  unfold textsFit pgFits
  dsimp only
  rw [hsame, hall, hres, decide_eq_true hlen]
  rfl

/-- A limit of 1 is read as 151: the first page has both containers, on either backend, with or without attributes. -/
theorem length_page_one (b : Backend) (details : Bool) :
    (pageOf b (fun _ => []) {} twoContainers "TinyIoT".toList noCriteria uriColumn details 1 0).length = 2 := by
  have hfit : textsFit b (fun _ => []) {} twoContainers "TinyIoT".toList (noCriteria.page 1 0) uriColumn details = true := by
    cases b <;> cases details <;> decide +kernel
  unfold pageOf
  rw [dbGetDescendants_of_fit hfit]
  show (queriedPage b (fun _ => []) [] twoContainers "TinyIoT".toList noCriteria details 1 0).length = 2
  rw [queriedPage_eq (by decide) (by decide), if_neg (fun hover => absurd hover.2 (by decide)),
    window_shown (fun _ e he => absurd he (by simp)), Paging.length_window, length_matching_two]
  rfl

end TinyIoT
