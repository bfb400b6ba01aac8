/-
What `db_delete_onem2m_resource` removes. The descendants of a resource are the rows whose chain of `pi`
leads to it; the statement selects them by a pattern made from its uri, in which `%`, `_` and `\` of a
resource name mean something else. On PostgreSQL the two agree exactly when the pattern matches what
begins with the uri and a slash; on SQLite the rows of the type tables stay behind.
-/
import TinyIoT.Database.Tables
import Mathlib.Data.List.Infix
import Mathlib.Data.List.Nodup
import Mathlib.Logic.Relation

namespace TinyIoT

/-! ## Patterns -/

theorem like_cons {c : Char} (h₁ : c ≠ '%') (h₂ : c ≠ '_') (h₃ : c ≠ '\\') (p : CStr) :
    like (c :: p) [] = false ∧ ∀ d s, like (c :: p) (d :: s) = (decide (c = d) && like p s) := by
  constructor
  · unfold like
    split <;> simp_all
  · intro d s
    conv_lhs => unfold like
    split <;> simp_all

/-- A pattern without a character of special meaning, and `%` after it, matches what begins with it. -/
theorem like_plain {p : CStr} (h : p.all (fun c => c != '%' && c != '_' && c != '\\') = true) (s : CStr) :
    like (p ++ ['%']) s = true ↔ p <+: s := by
  induction p generalizing s with
  | nil =>
    have hany : like ['%'] s = s.tails.any (like []) := by unfold like; rfl
    rw [List.nil_append, hany, List.any_eq_true]
    exact iff_of_true ⟨[], (List.mem_tails _ _).mpr List.nil_suffix, by unfold like; rfl⟩ List.nil_prefix
  | cons c p ih =>
    simp only [List.all_cons, Bool.and_eq_true, bne_iff_ne, ne_eq] at h
    obtain ⟨⟨⟨h₁, h₂⟩, h₃⟩, hp⟩ := h
    obtain ⟨hnil, hcons⟩ := like_cons h₁ h₂ h₃ (p ++ ['%'])
    rw [List.cons_append]
    cases s with
    | nil => simp [hnil]
    | cons d s => rw [hcons, Bool.and_eq_true, ih (by simpa using hp), decide_eq_true_eq, List.cons_prefix_cons]

/-! ## The chain of parents -/

/-- A path that begins with `a` and a slash begins with it before its last segment, or is `a` and that segment. -/
theorem slash_prefix_cases {a p n : CStr} (hn : '/' ∉ n) (h : a ++ ['/'] <+: p ++ '/' :: n) :
    a = p ∨ a ++ ['/'] <+: p := by
  obtain ⟨s, hs⟩ := h
  rw [List.append_assoc] at hs
  rcases List.append_eq_append_iff.mp hs with ⟨m, hm₁, hm₂⟩ | ⟨m, hm₁, hm₂⟩
  · -- `a` ends within `p`
    cases m with
    | nil => exact .inl (by simpa using hm₁.symm)
    | cons c m =>
      right
      cases hm₂
      exact ⟨m, by rw [hm₁, List.append_assoc]; rfl⟩
  · -- `a` goes beyond `p`
    cases m with
    | nil => exact .inl (by simpa using hm₁)
    | cons c m =>
      exfalso
      cases hm₂
      exact hn (by simp)

namespace Tables

/-- The row `e` names the row `p` as its parent. -/
def Child (t : Tables) (p e : Nat × Row) : Prop :=
  p ∈ t.general ∧ e ∈ t.general ∧ p.2.ri ≠ none ∧ e.2.pi = p.2.ri

/-- The row `e` is `r` or one of its descendants. -/
def Under (t : Tables) (r e : Nat × Row) : Prop := e = r ∨ Relation.TransGen t.Child r e

/-- What a deletion of `r` should do: it and its descendants go, in `general` and in the type tables, and every
other row stays. -/
def Exact (b : Backend) (t : Tables) (r : Nat × Row) : Prop :=
  ∃ ri t', r.2.ri = some ri ∧ t.deleteResource b r.2.uri ri = some t' ∧
    (∀ e, e ∈ t'.general ↔ e ∈ t.general ∧ ¬ t.Under r e) ∧
    ∀ x, x ∈ t'.typed ↔ x ∈ t.typed ∧ ∀ e, t.Under r e → e.1 ≠ x.2

/-- The pattern made from the uri of `r` matches another row exactly when its uri begins with that of `r` and
a slash. -/
def Literal (b : Backend) (t : Tables) (r : Nat × Row) : Prop :=
  ∀ e ∈ t.general, e.1 ≠ r.1 → (b.like (r.2.uri ++ ['/', '%']) e.2.uri = true ↔ r.2.uri ++ ['/'] <+: e.2.uri)

instance (b : Backend) (t : Tables) (r : Nat × Row) : Decidable (t.Literal b r) := by unfold Literal; infer_instance

/-- Every row has an identifier and a uri of its own, its uri is that of its parent with a name, and there is a
row for it in the table of its type. -/
structure Placed (t : Tables) : Prop where
  ids : (t.general.map Prod.fst).Nodup
  fresh : ∀ e ∈ t.general, e.1 < t.nextId
  keyed : ∀ e ∈ t.general, e.2.ri ≠ none
  ris : (t.general.map fun e => e.2.ri).Nodup
  uris : (t.general.map fun e => e.2.uri).Nodup
  parent : ∀ e ∈ t.general, ('/' ∉ e.2.uri ∧ e.2.pi = none) ∨
    ∃ p, t.Child p e ∧ ∃ n, '/' ∉ n ∧ e.2.uri = p.2.uri ++ '/' :: n
  typed : ∀ e ∈ t.general, (e.2.ty, e.1) ∈ t.typed

variable {b : Backend} {t t' : Tables} {r e : Nat × Row}

theorem Placed.eq_of_id (h : t.Placed) (hr : r ∈ t.general) (he : e ∈ t.general) (hid : e.1 = r.1) : e = r :=
  List.inj_on_of_nodup_map h.ids he hr hid

/-- The parent of a row is the one its uri names. -/
theorem Placed.uri_of_child (h : t.Placed) {p : Nat × Row} (hc : t.Child p e) :
    ∃ n, '/' ∉ n ∧ e.2.uri = p.2.uri ++ '/' :: n := by
  obtain ⟨hp, he, hk, hpi⟩ := hc
  rcases h.parent e he with ⟨_, hnone⟩ | ⟨q, ⟨hq, _, _, hqi⟩, n, hn, hu⟩
  · exact absurd (hpi.symm.trans hnone) hk
  · have hqp : q = p := List.inj_on_of_nodup_map h.ris hq hp (hqi.symm.trans hpi)
    exact ⟨n, hn, hqp ▸ hu⟩

theorem Placed.prefix_of_below (h : t.Placed) (hb : Relation.TransGen t.Child r e) : r.2.uri ++ ['/'] <+: e.2.uri := by
  induction hb with
  | single hc =>
    obtain ⟨n, _, hu⟩ := h.uri_of_child hc
    exact ⟨n, by rw [hu, List.append_assoc]; rfl⟩
  | tail _ hc ih =>
    obtain ⟨n, _, hu⟩ := h.uri_of_child hc
    rw [hu]
    exact ih.trans (List.prefix_append _ _)

theorem Placed.below_of_prefix (h : t.Placed) (hr : r ∈ t.general) (he : e ∈ t.general)
    (hu : r.2.uri ++ ['/'] <+: e.2.uri) : Relation.TransGen t.Child r e := by
  -- by the length of the uri, up the chain of parents
  generalize hlen : e.2.uri.length = k
  induction k using Nat.strong_induction_on generalizing e with
  | _ k ih =>
    rcases h.parent e he with ⟨hroot, _⟩ | ⟨p, hc, n, hn, heu⟩
    · exact absurd (hu.subset (by simp)) hroot
    · rw [heu] at hu
      rcases slash_prefix_cases hn hu with heq | hpre
      · have hrp : r = p := List.inj_on_of_nodup_map h.uris hr hc.1 heq
        exact hrp ▸ .single hc
      · refine .tail (ih p.2.uri.length ?_ hc.1 hpre rfl) hc
        rw [← hlen, heu, List.length_append, List.length_cons]
        omega

/-- The descendants of a row are those whose uri begins with its own and a slash. -/
theorem Placed.below_iff_prefix (h : t.Placed) (hr : r ∈ t.general) (he : e ∈ t.general) :
    Relation.TransGen t.Child r e ↔ r.2.uri ++ ['/'] <+: e.2.uri :=
  ⟨h.prefix_of_below, h.below_of_prefix hr he⟩

theorem under_mem (hr : r ∈ t.general) (h : t.Under r e) : e ∈ t.general := by
  rcases h with rfl | h
  · exact hr
  · cases h with
    | single hc => exact hc.2.1
    | tail _ hc => exact hc.2.1

/-- For a row other than `r` the statement decides by the pattern. -/
theorem Placed.matches_of_ne (h : t.Placed) (hr : r ∈ t.general) (he : e ∈ t.general) (hne : e ≠ r) {ri : CStr}
    (hri : r.2.ri = some ri) : deleteMatches b r.2.uri ri e.2 = true ↔ b.like (r.2.uri ++ ['/', '%']) e.2.uri = true := by
  have hne' : e.2.ri ≠ some ri := fun heq => hne (List.inj_on_of_nodup_map h.ris he hr (heq.trans hri.symm))
  unfold deleteMatches
  rw [Bool.or_eq_true, decide_eq_true_eq]
  exact or_iff_left hne'

/-- With a pattern that is taken literally the statement selects the resource and its descendants. -/
theorem Placed.matches_iff_under (h : t.Placed) (hr : r ∈ t.general) (hl : t.Literal b r) (he : e ∈ t.general) {ri : CStr}
    (hri : r.2.ri = some ri) : deleteMatches b r.2.uri ri e.2 = true ↔ t.Under r e := by
  by_cases hne : e = r
  · subst hne
    exact iff_of_true (by simp [deleteMatches, hri]) (.inl rfl)
  · rw [h.matches_of_ne hr he hne hri, hl e he fun hid => hne (h.eq_of_id hr he hid), ← h.below_iff_prefix hr he]
    exact (or_iff_right hne).symm

theorem mem_deleteWhere {p : Row → Bool} : e ∈ (t.deleteWhere b p).general ↔ e ∈ t.general ∧ p e.2 = false := by
  unfold deleteWhere
  simp [List.mem_filter]

theorem mem_typed_deleteWhere {p : Row → Bool} {x : ResourceType × Nat} (hb : b.cascades = true) :
    x ∈ (t.deleteWhere b p).typed ↔ x ∈ t.typed ∧ ∀ e ∈ t.general, p e.2 = true → e.1 ≠ x.2 := by
  unfold deleteWhere
  rw [hb]
  simp only [if_true, List.mem_filter, List.all_eq_true, Bool.or_eq_true, decide_eq_true_eq, Bool.not_eq_true',
    ← Bool.not_eq_true]
  refine and_congr_right fun _ => forall₂_congr fun e _ => ?_
  tauto

/-- The statement that deletes a row has room in its buffer. -/
def RowFits (b : Backend) (r : Nat × Row) : Prop := ∀ ri ∈ r.2.ri, deleteFits b r.2.uri ri = true

/-- In tables where every row has its place a deletion is exact when the foreign keys take effect, the pattern is taken
literally and the statement has room in its buffer. -/
theorem Placed.exact_iff (h : t.Placed) (hr : r ∈ t.general) :
    t.Exact b r ↔ b = .postgresql ∧ t.Literal b r ∧ RowFits b r := by
  constructor
  · rintro ⟨ri, t', hri, hdel, hgen, htyp⟩
    unfold deleteResource at hdel
    split at hdel
    · rename_i hwritten
      cases hdel
      have hrow : (r.2.ty, r.1) ∉ (t.deleteWhere b (deleteMatches b r.2.uri ri)).typed := fun hx =>
        ((htyp _).mp hx).2 r (.inl rfl) rfl
      refine ⟨?_, fun e he hid => ?_, fun ri' hri' => ?_⟩
      · cases b with
        | postgresql => rfl
        | sqlite => exact absurd (h.typed r hr) hrow
      · have hne : e ≠ r := fun heq => hid (heq ▸ rfl)
        have hkept : e ∈ (t.deleteWhere b (deleteMatches b r.2.uri ri)).general ↔ ¬ t.Under r e :=
          (hgen e).trans (and_iff_right he)
        rw [mem_deleteWhere, and_iff_right he, ← Bool.not_eq_true, not_iff_not] at hkept
        rw [← h.matches_of_ne hr he hne hri, hkept, ← h.below_iff_prefix hr he]
        exact or_iff_right hne
      · cases hri.symm.trans hri'
        rw [Bool.and_eq_true] at hwritten
        exact hwritten.2
    · cases hdel
  · rintro ⟨rfl, hl, hfits⟩
    obtain ⟨ri, hri⟩ := Option.ne_none_iff_exists'.mp (h.keyed r hr)
    have hdel : t.deleteResource .postgresql r.2.uri ri =
        some (t.deleteWhere .postgresql (deleteMatches .postgresql r.2.uri ri)) := by
      unfold deleteResource
      rw [hfits ri hri]
      rfl
    refine ⟨ri, _, hri, hdel, fun e => ?_, fun x => ?_⟩
    · rw [mem_deleteWhere, ← Bool.not_eq_true]
      exact and_congr_right fun he => not_congr (h.matches_iff_under hr hl he hri)
    · rw [mem_typed_deleteWhere rfl]
      refine and_congr_right fun _ => forall_congr' fun e => ?_
      constructor
      · intro hall hu
        exact hall (under_mem hr hu) ((h.matches_iff_under hr hl (under_mem hr hu) hri).mpr hu)
      · intro hall he hm
        exact hall ((h.matches_iff_under hr hl he hri).mp hm)

/-! ## Runs -/

/-- A call of the database layer that writes. -/
inductive Call where
  | store (obj : Obj) (uri : CStr)
  | update (obj : Obj) (ri : CStr)
  | deleteResource (uri ri : CStr)
  | deleteRi (ri : CStr)

def step (b : Backend) (t : Tables) : Call → Option Tables
  | .store obj uri => t.store obj uri
  | .update obj ri => some (t.update obj ri)
  | .deleteResource uri ri => t.deleteResource b uri ri
  | .deleteRi ri => some (t.deleteRi b ri)

/-- The tables after the CSEBase is stored. -/
def Fresh (t : Tables) : Prop :=
  ∃ row : Row, t = ⟨[(1, row)], [(row.ty, 1)], 2⟩ ∧ row.uri = cseBaseName ∧ row.ri = some cseBaseRi ∧ row.pi = none

/-- A call that keeps every row in its place: a new row has an `ri` and a uri no row has, and its uri is that of
the row its `pi` names with a name without a slash; an update leaves these alone; a deletion by uri is of a
row whose pattern is taken literally, and one by `ri` of a row without children. -/
def proper (b : Backend) (t : Tables) : Call → Bool
  | .store obj uri => (storedRow obj uri).all fun r => r.ri.isSome &&
      t.general.all (fun e => e.2.ri ≠ r.ri && e.2.uri ≠ uri) &&
      t.general.any fun p => p.2.ri = r.pi && p.2.uri ++ '/' :: uri.drop (p.2.uri.length + 1) = uri &&
        (uri.drop (p.2.uri.length + 1)).all fun c => c != '/'
  | .update obj ri => t.general.all fun e => (e.2.update obj ri).ri = e.2.ri && (e.2.update obj ri).pi = e.2.pi &&
      (e.2.update obj ri).uri = e.2.uri
  | .deleteResource uri ri => t.general.any fun r => r.2.uri = uri && r.2.ri = some ri && t.Literal b r
  | .deleteRi ri => t.general.all fun e => e.2.pi ≠ some ri

def ProperNext (b : Backend) (t t' : Tables) : Prop := ∃ c, t.proper b c = true ∧ t.step b c = some t'

theorem placed_fresh (h : t.Fresh) : t.Placed := by
  obtain ⟨row, rfl, huri, hri, hpi⟩ := h
  have hroot : '/' ∉ cseBaseName := by decide
  refine ⟨?_, ?_, ?_, ?_, ?_, ?_, ?_⟩ <;> simp [hri, hpi, huri, hroot]

/-- A deletion that takes the children of every row it takes leaves the others in their place. -/
theorem Placed.deleteWhere (h : t.Placed) {p : Row → Bool} (hp : ∀ q e, t.Child q e → p q.2 = true → p e.2 = true) :
    (t.deleteWhere b p).Placed := by
  have hsub : (t.deleteWhere b p).general.Sublist t.general := List.filter_sublist
  refine ⟨h.ids.sublist (hsub.map _), fun e he => h.fresh e (hsub.subset he), fun e he => h.keyed e (hsub.subset he),
    h.ris.sublist (hsub.map _), h.uris.sublist (hsub.map _), fun e he => ?_, fun e he => ?_⟩
  · obtain ⟨hmem, hpe⟩ := mem_deleteWhere.mp he
    refine (h.parent e hmem).imp_right ?_
    rintro ⟨q, hc, hu⟩
    have hpq : p q.2 = false := by
      cases hq : p q.2 with
      | false => rfl
      | true => exact absurd (hp q e hc hq) (by simp [hpe])
    exact ⟨q, ⟨mem_deleteWhere.mpr ⟨hc.1, hpq⟩, he, hc.2.2⟩, hu⟩
  · obtain ⟨hmem, hpe⟩ := mem_deleteWhere.mp he
    cases hb : b.cascades with
    | false => simpa [Tables.deleteWhere, hb] using h.typed e hmem
    | true =>
      refine (mem_typed_deleteWhere hb).mpr ⟨h.typed e hmem, fun e' he' hpe' hid => ?_⟩
      have heq : e' = e := h.eq_of_id hmem he' hid
      rw [heq, hpe] at hpe'
      cases hpe'

/-- A new row in its place. -/
theorem Placed.store (h : t.Placed) {row : Row} (hri : row.ri ≠ none)
    (hnew : ∀ e ∈ t.general, e.2.ri ≠ row.ri ∧ e.2.uri ≠ row.uri) {p : Nat × Row} (hp : p ∈ t.general) (hpi : p.2.ri = row.pi)
    {n : CStr} (hn : '/' ∉ n) (hu : row.uri = p.2.uri ++ '/' :: n) :
    (⟨t.general ++ [(t.nextId, row)], t.typed ++ [(row.ty, t.nextId)], t.nextId + 1⟩ : Tables).Placed := by
  have hsnoc : ∀ {α : Type} (f : Nat × Row → α), (t.general.map f).Nodup → (∀ e ∈ t.general, f e ≠ f (t.nextId, row)) →
      ((t.general ++ [(t.nextId, row)]).map f).Nodup := by
    intro α f hd hne
    rw [List.map_append, List.map_singleton]
    refine List.nodup_append.mpr ⟨hd, List.nodup_singleton _, fun x hx y hy => ?_⟩
    obtain ⟨e, he, rfl⟩ := List.mem_map.mp hx
    cases List.mem_singleton.mp hy
    exact hne e he
  refine ⟨hsnoc _ h.ids fun e he => Nat.ne_of_lt (h.fresh e he), fun e he => ?_, fun e he => ?_,
    hsnoc _ h.ris fun e he => (hnew e he).1, hsnoc _ h.uris fun e he => (hnew e he).2, fun e he => ?_, fun e he => ?_⟩
  · rcases List.mem_append.mp he with he | he
    · exact Nat.lt_succ_of_lt (h.fresh e he)
    · cases List.mem_singleton.mp he
      exact Nat.lt_succ_self _
  · rcases List.mem_append.mp he with he | he
    · exact h.keyed e he
    · cases List.mem_singleton.mp he
      exact hri
  · rcases List.mem_append.mp he with hold | he'
    · refine (h.parent e hold).imp_right ?_
      rintro ⟨q, ⟨hq, _, hc⟩, hu⟩
      exact ⟨q, ⟨List.mem_append_left _ hq, he, hc⟩, hu⟩
    · cases List.mem_singleton.mp he'
      exact .inr ⟨p, ⟨List.mem_append_left _ hp, he, h.keyed p hp, hpi.symm⟩, n, hn, hu⟩
  · rcases List.mem_append.mp he with he | he
    · exact List.mem_append_left _ (h.typed e he)
    · cases List.mem_singleton.mp he
      exact List.mem_append_right _ (List.mem_singleton.mpr rfl)

/-- An update that keeps identifiers and uris. -/
theorem Placed.update (h : t.Placed) {obj : Obj} {ri : CStr} (hu : ∀ e ∈ t.general,
    (e.2.update obj ri).ri = e.2.ri ∧ (e.2.update obj ri).pi = e.2.pi ∧ (e.2.update obj ri).uri = e.2.uri) :
    (t.update obj ri).Placed := by
  have hmap : ∀ {α : Type} (f : Nat × Row → α), (∀ e ∈ t.general, f (e.1, e.2.update obj ri) = f e) →
      (t.update obj ri).general.map f = t.general.map f := by
    intro α f hf
    show (t.general.map _).map f = _
    rw [List.map_map]
    exact List.map_congr_left hf
  have hty : ∀ r : Row, (r.update obj ri).ty = r.ty := by
    intro r
    unfold Row.update
    split <;> rfl
  have hmem : ∀ {e : Nat × Row}, e ∈ t.general → (e.1, e.2.update obj ri) ∈ (t.update obj ri).general := fun he =>
    List.mem_map_of_mem he
  refine ⟨?_, fun e' he' => ?_, fun e' he' => ?_, ?_, ?_, fun e' he' => ?_, fun e' he' => ?_⟩
  · rw [hmap Prod.fst fun e _ => rfl]
    exact h.ids
  · obtain ⟨e, he, rfl⟩ := List.mem_map.mp he'
    exact h.fresh e he
  · obtain ⟨e, he, rfl⟩ := List.mem_map.mp he'
    show (e.2.update obj ri).ri ≠ none
    rw [(hu e he).1]
    exact h.keyed e he
  · rw [hmap (fun e => e.2.ri) fun e he => (hu e he).1]
    exact h.ris
  · rw [hmap (fun e => e.2.uri) fun e he => (hu e he).2.2]
    exact h.uris
  · obtain ⟨e, he, rfl⟩ := List.mem_map.mp he'
    obtain ⟨_, hpi, huri⟩ := hu e he
    dsimp only
    rw [hpi, huri]
    refine (h.parent e he).imp_right ?_
    rintro ⟨q, ⟨hq, _, hk, hc⟩, n, hn, hqu⟩
    obtain ⟨hqri, _, hquri⟩ := hu q hq
    refine ⟨(q.1, q.2.update obj ri), ⟨hmem hq, hmem he, ?_, ?_⟩, n, hn, ?_⟩
    · show (q.2.update obj ri).ri ≠ none
      rwa [hqri]
    · show (e.2.update obj ri).pi = (q.2.update obj ri).ri
      rw [hpi, hqri, hc]
    · rw [hqu, hquri]
  · obtain ⟨e, he, rfl⟩ := List.mem_map.mp he'
    show ((e.2.update obj ri).ty, e.1) ∈ t.typed
    rw [hty]
    exact h.typed e he

theorem Placed.step (h : t.Placed) {c : Call} (hp : t.proper b c = true) (hs : t.step b c = some t') : t'.Placed := by
  cases c with
  | store obj uri =>
    obtain ⟨row, hrow, rfl⟩ := Option.map_eq_some_iff.mp hs
    have hruri : row.uri = uri := by
      simp only [storedRow, Option.bind_eq_bind, Option.bind_eq_some_iff, Option.pure_def, Option.some.injEq] at hrow
      obtain ⟨_, _, _, _, rfl⟩ := hrow
      rfl
    simp only [proper, hrow, Option.all_some, Bool.and_eq_true, List.all_eq_true, List.any_eq_true, decide_eq_true_eq,
      bne_iff_ne, ne_eq] at hp
    obtain ⟨⟨hri, hnew⟩, p, hpm, ⟨hpi, hu⟩, hn⟩ := hp
    exact h.store (Option.isSome_iff_ne_none.mp hri) (by rw [hruri]; exact hnew) hpm hpi
      (fun hmem => hn '/' hmem rfl) (by rw [hruri]; exact hu.symm)
  | update obj ri =>
    cases hs
    simp only [proper, List.all_eq_true, Bool.and_eq_true, decide_eq_true_eq] at hp
    exact h.update fun e he => ⟨(hp e he).1.1, (hp e he).1.2, (hp e he).2⟩
  | deleteResource uri ri =>
    simp only [proper, List.any_eq_true, Bool.and_eq_true, decide_eq_true_eq] at hp
    obtain ⟨r, hr, ⟨rfl, hri⟩, hl⟩ := hp
    simp only [Tables.step, deleteResource] at hs
    split at hs
    · cases hs
      refine h.deleteWhere fun q e hc hq => ?_
      refine (h.matches_iff_under hr hl hc.2.1 hri).mpr (.inr ?_)
      rcases (h.matches_iff_under hr hl hc.1 hri).mp hq with rfl | hu
      · exact .single hc
      · exact hu.tail hc
    · cases hs
  | deleteRi ri =>
    cases hs
    simp only [proper, List.all_eq_true, decide_eq_true_eq] at hp
    refine h.deleteWhere fun q e hc hq => ?_
    have hqri : q.2.ri = some ri := of_decide_eq_true hq
    exact absurd (hc.2.2.2.trans hqri) (hp e hc.2.1)

theorem placed_of_proper_run (h : Reach Fresh (ProperNext b) t) : t.Placed := by
  refine h.inv (I := Placed) (fun t ht => placed_fresh ht) ?_
  rintro t t' ht ⟨c, hp, hs⟩
  exact ht.step hp hs

/-- The tables of a new CSE. -/
def newTables : Tables :=
  ⟨[(1, ⟨cseBaseName, .cse, [(.ri, .str cseBaseRi), (.rn, .str cseBaseName)]⟩)], [(.cse, 1)], 2⟩

theorem fresh_newTables : newTables.Fresh := ⟨_, rfl, rfl, rfl, rfl⟩

/-- Storing a resource with this name and identifier under the one with the identifier `pi`. -/
def storeAt (ty : ResourceType) (uri rn ri pi : String) : Call :=
  .store [(.rn, .str rn.toList), (.ty, .int ty.code), (.ri, .str ri.toList), (.pi, .str pi.toList)] uri.toList

/-- A container with an instance below it, and an empty one whose name is a pattern for that of the first. -/
def patternRun : List Call :=
  [storeAt .cnt "TinyIoT/a1b" "a1b" "3-1" "tinyiot", storeAt .cin "TinyIoT/a1b/x" "x" "4-1" "3-1",
    storeAt .cnt "TinyIoT/a_b" "a_b" "3-2" "tinyiot"]

/-- A row that the pattern of a childless resource matches goes with it. -/
theorem not_exact_of_stranger {ri : CStr} (he : e ∈ t.general) (hid : e.1 ≠ r.1)
    (hleaf : ∀ c ∈ t.general, c.2.pi ≠ r.2.ri) (hri : r.2.ri = some ri)
    (hm : deleteMatches b r.2.uri ri e.2 = true) : ¬ t.Exact b r := by
  rintro ⟨ri', t', hri', hdel, hgen, _⟩
  cases Option.some.inj (hri.symm.trans hri')
  unfold deleteResource at hdel
  split at hdel
  · cases hdel
    have hu : ¬ t.Under r e := by
      rintro (rfl | hb)
      · exact hid rfl
      · obtain ⟨c, hc, _⟩ := Relation.TransGen.head'_iff.mp hb
        exact hleaf c hc.2.1 hc.2.2.2
    have hkept := (mem_deleteWhere.mp ((hgen e).mpr ⟨he, hu⟩)).2
    rw [hm] at hkept
    cases hkept
  · cases hdel

end Tables

end TinyIoT
