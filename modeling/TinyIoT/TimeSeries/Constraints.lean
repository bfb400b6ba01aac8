/-
The constraints on the parameters of a time series: what `create_ts` and `update_ts` check of them together, and which
bodies leave an object that detection, eviction and monitoring cannot rely on. A body that is accepted is read value by
value; what is stored is the merge.
-/
import TinyIoT.Monitor.Counted
import TinyIoT.Requests.Updates

namespace TinyIoT

/-- The attributes under constraint. -/
def constrainedAttrs : List Attr := [.pei, .peid, .mdd, .mdt, .mdn, .mni, .mbs]

/-- Those that are only not to be negative. -/
def limitAttrs : List Attr := [.mni, .mbs, .mdn, .mdt]

/-- The constraints on a time series. -/
structure Constrained (o : Obj) : Prop where
  period : ∀ j, o.get .pei = some j → ∃ p d : ℚ, j = .num p ∧ 0 < p ∧ o.get .peid = some (.num d) ∧ 0 ≤ d ∧ d ≤ p / 2
  aperiodic : o.get .pei = none → o.get .peid = none
  detection : o.get .mdd = some (.bool true) → ∀ k, k = .mdt ∨ k = .mdn → ∃ v : ℚ, o.get k = some (.num v) ∧ 0 < v
  limits : ∀ k ∈ limitAttrs, ∀ v, o.get k = some (.num v) → 0 ≤ v

/-- Every attribute under constraint is named once at most. -/
def NamedOnce (o : Obj) : Prop := ∀ k ∈ constrainedAttrs, (Assoc.entries o k).length ≤ 1

/-- What `is_attr_valid` lets through: the switch is a boolean and the others are numbers, or they are null. -/
structure Typed (body : Obj) : Prop where
  switch : ∀ j, body.get .mdd = some j → j.isBool = true ∨ j = .null
  number : ∀ k ∈ constrainedAttrs, k ≠ .mdd → ∀ j, body.get k = some j → j.isNumber = true ∨ j = .null

/-! ## Creation -/

/-- A body that gives a `peid` with a `pei` gives a number, and a whole one or one that is small enough. -/
structure SoundCreate (body : Obj) : Prop where
  once : NamedOnce body
  deviation : ∀ p : ℚ, body.get .pei = some (.num p) → 0 < (Json.num p).valueint → ∀ j, body.get .peid = some j →
    ∃ d : ℚ, j = .num d ∧ (d.den = 1 ∨ d ≤ p / 2)

theorem valueint_nonneg {v : ℚ} (hv : 0 ≤ v) : 0 ≤ (Json.num v).valueint := by
  have hn : 0 ≤ v.num.tdiv v.den := Int.tdiv_nonneg (Rat.num_nonneg.mpr hv) (Int.natCast_nonneg _)
  show 0 ≤ max intMin (min intMax _)
  unfold intMin intMax
  omega

theorem pos_of_valueint_pos {v : ℚ} (h : 0 < (Json.num v).valueint) : 0 < v := by
  by_contra hneg
  have hnum : v.num ≤ 0 := Rat.num_nonpos.mpr (not_lt.mp hneg)
  have hneg' : 0 ≤ (-v.num).tdiv v.den := Int.tdiv_nonneg (by omega) (Int.natCast_nonneg _)
  rw [Int.neg_tdiv] at hneg'
  have hle : (Json.num v).valueint ≤ 0 := by
    show max intMin (min intMax _) ≤ 0
    unfold intMin intMax
    omega
  omega

theorem eq_num_of_isNumber {j : Json} (h : j.isNumber = true) : ∃ v, j = .num v := by
  cases j with
  | num v => exact ⟨v, rfl⟩
  | _ => cases h

/-- Half of a whole part, rounded down, is not above half of the number. -/
theorem half_le {p : ℚ} (hp : 0 < p) {n : Int} (hn : n ≤ (Json.num p).valueint.tdiv 2) : (n : ℚ) ≤ p / 2 := by
  have hv := valueint_nonneg hp.le
  have hle := valueint_le_number hp.le
  have h2 : 2 * n ≤ (Json.num p).valueint := by
    rw [Int.tdiv_eq_ediv_of_nonneg hv] at hn
    omega
  have h2' : (2 : ℚ) * n ≤ (Json.num p).valueint := by exact_mod_cast h2
  linarith

/-- What `create_ts` makes of `pei` and `peid`: both go, or a positive `pei` stays with the `peid` there is or half of it. -/
theorem createPeriod_cases {ts : Obj} (hone : NamedOnce ts) (hty : Typed ts) :
    (∃ o : Obj, createPeriod ts = (o.del .peid, none) ∧ o.get .pei = none ∧
      Assoc.entries o .peid = Assoc.entries ts .peid) ∨
    ∃ p : ℚ, ts.get .pei = some (.num p) ∧ 0 < (Json.num p).valueint ∧
      ((ts.get .peid = none ∧ createPeriod ts =
        (ts.add .peid (.int ((Json.num p).valueint.tdiv 2)), some (Json.num p).valueint)) ∨
      ∃ j, ts.get .peid = some j ∧ createPeriod ts = (ts, some (Json.num p).valueint)) := by
  have hdel : Obj.get (ts.del .pei) .pei = none := Assoc.get_del_self (hone .pei (by decide))
  have hsame : Assoc.entries (ts.del .pei) .peid = Assoc.entries ts .peid := Assoc.entries_del_ne (by decide)
  unfold createPeriod
  cases hpei : ts.get .pei with
  | none =>
    have hno : ts.has .pei = false := Assoc.has_eq_false.mpr hpei
    refine .inl ⟨ts, ?_, hpei, rfl⟩
    rw [Option.bind_none, hno]
    rfl
  | some j =>
    have hhas : ts.has .pei = true := Assoc.has_iff.mpr ⟨j, hpei⟩
    rcases hty.number .pei (by decide) (by decide) j hpei with hnum | rfl
    · obtain ⟨p, rfl⟩ := eq_num_of_isNumber hnum
      have hval : (some (Json.num p)).bind (fun j => if j.isNumber = true then some j.valueint else none) =
          some (Json.num p).valueint := rfl
      rw [hval]
      dsimp only
      by_cases hpos : (Json.num p).valueint ≤ 0
      · rw [if_pos hpos]
        exact .inl ⟨_, rfl, hdel, hsame⟩
      · rw [if_neg hpos]
        refine .inr ⟨p, rfl, not_le.mp hpos, ?_⟩
        cases hpeid : ts.get .peid with
        | none =>
          have hno : ts.has .peid = false := Assoc.has_eq_false.mpr hpeid
          rw [hno]
          exact .inl ⟨rfl, rfl⟩
        | some d =>
          have hyes : ts.has .peid = true := Assoc.has_iff.mpr ⟨d, hpeid⟩
          rw [hyes]
          exact .inr ⟨d, rfl, rfl⟩
    · have hval : (some Json.null).bind (fun j => if j.isNumber = true then some j.valueint else none) = none := rfl
      refine .inl ⟨_, ?_, hdel, hsame⟩
      rw [hval, hhas]
      rfl

/-- A whole number whose `valueint` is not above half of a whole part is not above it itself. -/
theorem whole_le_half {p d : ℚ} (hp : 0 < p) (h0 : 0 ≤ d) (hd : d.den = 1)
    (h : (Json.num d).valueint ≤ (Json.num p).valueint.tdiv 2) : d ≤ p / 2 := by
  have hwhole : d = (d.num : ℚ) := ((Rat.den_eq_one_iff d).mp hd).symm
  have hnum : 0 ≤ d.num := Rat.num_nonneg.mpr h0
  have hval : (Json.num d).valueint = min intMax d.num := by
    show max intMin (min intMax (d.num.tdiv d.den)) = _
    rw [hd, Nat.cast_one, Int.tdiv_one]
    unfold intMin intMax
    omega
  rw [hwhole]
  refine half_le hp ?_
  have hmax : (Json.num p).valueint ≤ intMax := Json.valueint_le _
  rw [hval] at h
  rw [Int.tdiv_eq_ediv_of_nonneg (valueint_nonneg hp.le)] at h ⊢
  unfold intMax at h hmax
  omega

/-- The period of a new time series, when its checks have passed. -/
theorem createPeriod_constrained {ts : Obj} (hs : SoundCreate ts) (hty : Typed ts)
    (hneg : ∀ v, ts.get .peid = some (.num v) → 0 ≤ v)
    (hcheck : ∀ pei peid, (createPeriod ts).2 = some pei → (createPeriod ts).1.get .peid = some peid →
      peid.valueint ≤ pei.tdiv 2) :
    (∀ j, (createPeriod ts).1.get .pei = some j → ∃ p d : ℚ, j = .num p ∧ 0 < p ∧
      (createPeriod ts).1.get .peid = some (.num d) ∧ 0 ≤ d ∧ d ≤ p / 2) ∧
    ((createPeriod ts).1.get .pei = none → (createPeriod ts).1.get .peid = none) := by
  rcases createPeriod_cases hs.once hty with ⟨o, he, hpei, hent⟩ | ⟨p, hpei, hpos, hcase⟩
  · rw [he]
    have hpei' : (o.del .peid).get .pei = none := (Assoc.get_del_ne (by decide)).trans hpei
    refine ⟨fun j hj => ?_, fun _ => Assoc.get_del_self (hent ▸ hs.once .peid (by decide))⟩
    rw [hpei'] at hj
    cases hj
  · have hp := pos_of_valueint_pos hpos
    rcases hcase with ⟨hpeid, he⟩ | ⟨j, hpeid, he⟩
    · rw [he]
      have hpei' : (ts.add .peid (.int ((Json.num p).valueint.tdiv 2))).get .pei = some (.num p) :=
        (Assoc.get_add_ne (by decide)).trans hpei
      have hpeid' : (ts.add .peid (.int ((Json.num p).valueint.tdiv 2))).get .peid =
          some (.int ((Json.num p).valueint.tdiv 2)) := by
        show Assoc.get _ _ = _
        rw [Assoc.get_add, show Assoc.get ts .peid = none from hpeid, if_pos rfl]
        rfl
      refine ⟨fun j hj => ?_, fun hnone => ?_⟩
      · cases hpei'.symm.trans hj
        refine ⟨p, _, rfl, hp, hpeid', ?_, half_le hp le_rfl⟩
        exact_mod_cast Int.tdiv_nonneg (valueint_nonneg hp.le) (by decide)
      · cases hpei'.symm.trans hnone
    · rw [he] at hcheck ⊢
      refine ⟨fun j hj => ?_, fun hnone => ?_⟩
      · cases hpei.symm.trans hj
        obtain ⟨d, rfl, hd⟩ := hs.deviation p hpei hpos _ hpeid
        have h0 := hneg d hpeid
        refine ⟨p, d, rfl, hp, hpeid, h0, ?_⟩
        rcases hd with hd | hd
        · exact whole_le_half hp h0 hd (hcheck _ _ rfl hpeid)
        · exact hd
      · cases hpei.symm.trans hnone

theorem NamedOnce.congr {o o' : Obj} (h : NamedOnce o) (he : ∀ k ∈ constrainedAttrs, Assoc.entries o' k = Assoc.entries o k) :
    NamedOnce o' := fun k hk => he k hk ▸ h k hk

theorem Typed.congr {o o' : Obj} (h : Typed o) (he : ∀ k ∈ constrainedAttrs, o'.get k = o.get k) : Typed o' :=
  ⟨he .mdd (by decide) ▸ h.switch, fun k hk hne => he k hk ▸ h.number k hk hne⟩

theorem SoundCreate.congr {o o' : Obj} (h : SoundCreate o) (he : ∀ k ∈ constrainedAttrs, Assoc.entries o' k = Assoc.entries o k) :
    SoundCreate o' := by
  have hget : ∀ k ∈ constrainedAttrs, o'.get k = o.get k := fun k hk => Assoc.get_congr (he k hk)
  exact ⟨h.once.congr he, hget .pei (by decide) ▸ hget .peid (by decide) ▸ h.deviation⟩

/-- None of the values `validate_ts` looks at is negative. -/
theorem validateTs_ok {ts : Obj} {op : Operation} (h : validateTs ts op = .ok ()) {k : Attr}
    (hk : k ∈ constrainedAttrs) (hne : k ≠ .mdd) {v : ℚ} (hv : ts.get k = some (.num v)) : 0 ≤ v := by
  unfold validateTs at h
  obtain ⟨⟨⟩, -, h⟩ := bind_ok h
  split at h
  · cases h
  · rename_i hnone
    by_contra hneg
    refine hnone (List.any_eq_true.mpr ⟨k, ?_, ?_⟩)
    · simp only [constrainedAttrs, List.mem_cons, List.not_mem_nil, or_false] at hk ⊢
      tauto
    · rw [hv]
      simpa [Json.number] using hneg

theorem checkDetection_ok {mdt mdn : Option ℚ} (h : checkDetection mdt mdn = .ok ()) :
    (∃ v, mdt = some v ∧ 0 < v) ∧ ∃ v, mdn = some v ∧ 0 < v := by
  unfold checkDetection at h
  split at h
  · rename_i hb
    rw [Bool.and_eq_true, Option.any_eq_true, Option.any_eq_true] at hb
    simpa using hb
  · cases h

theorem number_some {o : Obj} {k : Attr} {v : ℚ} (h : (o.get k).bind Json.number = some v) : o.get k = some (.num v) := by
  obtain ⟨j, hj, hv⟩ := Option.bind_eq_some_iff.mp h
  cases j with
  | num w =>
    cases hv
    exact hj
  | _ => cases hv

/-- The defaults of a new time series. -/
def withDefaults (ts : Obj) : Obj :=
  ((((ts.orAdd .mdd (.bool false)).orAdd .mbs (.int 262144)).orAdd .mni (.int 100)).orAdd .mdn (.int 10)).orAdd .mdt (.int 0)

theorem get_withDefaults (ts : Obj) (k : Attr) : (withDefaults ts).get k = (ts.get k).or
    (if k = .mdd then some (.bool false) else if k = .mbs then some (.int 262144) else if k = .mni then some (.int 100)
      else if k = .mdn then some (.int 10) else if k = .mdt then some (.int 0) else none) := by
  unfold withDefaults Obj.orAdd
  simp only [get_addMissing, Option.or_assoc]
  congr 1
  cases k <;> rfl

theorem length_entries_orAdd {o : Obj} {k k' : Attr} {v : Json} (h : (Assoc.entries o k').length ≤ 1) :
    (Assoc.entries (o.orAdd k v) k').length ≤ 1 := by
  unfold Obj.orAdd
  split
  · exact h
  · rename_i hno
    by_cases hk : k = k'
    · subst hk
      have hnil : Assoc.entries o k = [] := Assoc.entries_eq_nil (Assoc.has_eq_false.mp (by simpa using hno))
      show (Assoc.entries (Assoc.add o k v) k).length ≤ 1
      rw [Assoc.entries_add_self, hnil]
      exact le_rfl
    · show (Assoc.entries (Assoc.add o k v) k').length ≤ 1
      rw [Assoc.entries_add_ne hk]
      exact h

theorem NamedOnce.createPeriod {ts : Obj} (h : NamedOnce ts) (hty : Typed ts) : NamedOnce (createPeriod ts).1 := by
  intro k hk
  by_cases h1 : k = .peid
  · subst h1
    rcases createPeriod_cases h hty with ⟨o, he, -, hent⟩ | ⟨p, -, -, ⟨hpeid, he⟩ | ⟨j, -, he⟩⟩
    · rw [he]
      show (Assoc.entries (Assoc.del o .peid) .peid).length ≤ 1
      rw [Assoc.entries_del_self, List.length_tail, hent]
      have := h .peid (by decide)
      omega
    · rw [he]
      show (Assoc.entries (Assoc.add ts .peid _) .peid).length ≤ 1
      rw [Assoc.entries_add_self, Assoc.entries_eq_nil hpeid]
      exact le_rfl
    · rw [he]
      exact h .peid (by decide)
  · by_cases h2 : k = .pei
    · subst h2
      unfold TinyIoT.createPeriod
      split
      · dsimp only
        rw [Assoc.entries_del_ne (by decide)]
        split
        · show (Assoc.entries (Assoc.del ts .pei) .pei).length ≤ 1
          rw [Assoc.entries_del_self, List.length_tail]
          have := h .pei (by decide)
          omega
        · exact h .pei (by decide)
      · split
        · dsimp only
          rw [Assoc.entries_del_ne (by decide)]
          show (Assoc.entries (Assoc.del ts .pei) .pei).length ≤ 1
          rw [Assoc.entries_del_self, List.length_tail]
          have := h .pei (by decide)
          omega
        · dsimp only
          split
          · exact h .pei (by decide)
          · rw [Assoc.entries_add_ne (by decide)]
            exact h .pei (by decide)
    · rw [entries_createPeriod h2 h1]
      exact h k hk

/-- The steps of a creation that goes through. -/
theorem buildTs_steps {env : Env} {req : Req} {ts o : Obj} (h : buildTs env req ts = .ok o) :
    ∃ ts₁ : Obj, (∀ k ∈ constrainedAttrs, Assoc.entries ts₁ k = Assoc.entries ts k) ∧ validateTs ts₁ .create = .ok () ∧
      ((((createPeriod ts₁).1.orAdd .mdd (.bool false)).get .mdd).any Json.isTrue = true →
        checkDetection ((((createPeriod ts₁).1.orAdd .mdd (.bool false)).get .mdt).bind Json.number)
          ((((createPeriod ts₁).1.orAdd .mdd (.bool false)).get .mdn).bind Json.number) = .ok ()) ∧
      (∀ pei peid, (createPeriod ts₁).2 = some pei →
        (resetTs (withDefaults (createPeriod ts₁).1)).get .peid = some peid → peid.valueint ≤ pei.tdiv 2) ∧
      o = announceAt env (resetTs (withDefaults (createPeriod ts₁).1)) := by
  unfold buildTs at h
  obtain ⟨⟨⟩, hval, h⟩ := bind_ok h
  refine ⟨ts.orAdd .cr (.str req.fr), fun k hk => entries_addMissing ?_, hval, ?_⟩
  · rintro rfl
    exact absurd hk (by decide)
  dsimp only at h
  generalize createPeriod (ts.orAdd .cr (.str req.fr)) = c at h ⊢
  obtain ⟨ts₂, pei⟩ := c
  dsimp only at h ⊢
  have hdef : ((((ts₂.orAdd .mdd (.bool false)).orAdd .mbs (.int 262144)).orAdd .mni (.int 100)).orAdd .mdn (.int 10)).orAdd
      .mdt (.int 0) = withDefaults ts₂ := rfl
  rw [hdef] at h
  have hdetect : ((ts₂.orAdd .mdd (.bool false)).get .mdd).any Json.isTrue = true →
      checkDetection (((ts₂.orAdd .mdd (.bool false)).get .mdt).bind Json.number)
        (((ts₂.orAdd .mdd (.bool false)).get .mdn).bind Json.number) = .ok () := by
    intro hon
    rw [if_pos hon] at h
    obtain ⟨⟨⟩, hd, -⟩ := bind_ok h
    exact hd
  refine ⟨hdetect, ?_⟩
  clear hdetect hval
  generalize resetTs (withDefaults ts₂) = d at h ⊢
  generalize withDefaults ts₂ = d' at h
  clear hdef
  split at h
  case' isTrue hon => obtain ⟨⟨⟩, -, h'⟩ := bind_ok h; clear h; rename' h' => h
  all_goals
    obtain ⟨⟨⟩, -, h'⟩ := bind_ok h
    clear h
    cases pei with
    | none => exact ⟨fun _ _ h₁ => (by cases h₁), (Except.ok.inj h').symm⟩
    | some pei =>
      cases hpeid : d.get .peid with
      | none =>
        rw [hpeid] at h'
        exact ⟨fun _ _ _ h₂ => (by cases h₂), (Except.ok.inj h').symm⟩
      | some peid =>
        rw [hpeid] at h'
        dsimp only at h'
        split at h'
        · cases h'
        · rename_i hle
          refine ⟨fun _ _ h₁ h₂ => ?_, (Except.ok.inj h').symm⟩
          cases h₁
          cases h₂
          exact not_lt.mp hle

/-- The counters are no attributes under constraint. -/
theorem entries_resetTs (ts : Obj) {k : Attr} (hk : k ∈ constrainedAttrs) :
    Assoc.entries (resetTs ts) k = Assoc.entries ts k := by
  have hne : ∀ k' ∉ constrainedAttrs, k' ≠ k := fun k' hk' he => hk' (he ▸ hk)
  unfold resetTs
  show Assoc.entries (Assoc.add (Assoc.add (Assoc.add (Assoc.del (Assoc.del (Assoc.del (Assoc.del _ _) _) _) _) _ _) _ _) _ _) _ = _
  rw [Assoc.entries_add_ne (hne .cbs (by decide)), Assoc.entries_add_ne (hne .cni (by decide)),
    Assoc.entries_add_ne (hne .mdc (by decide)), Assoc.entries_del_ne (hne .mdlt (by decide)),
    Assoc.entries_del_ne (hne .cbs (by decide)), Assoc.entries_del_ne (hne .cni (by decide)),
    Assoc.entries_del_ne (hne .mdc (by decide))]

/-- Nor is the announcement. -/
theorem entries_announced (env : Env) (ts : Obj) {k : Attr} (hk : k ∈ constrainedAttrs) :
    Assoc.entries (announceAt env (resetTs ts)) k = Assoc.entries ts k := by
  have hne : k ≠ .at := by
    rintro rfl
    exact absurd hk (by decide)
  rw [entries_announceAt hne, entries_resetTs ts hk]

theorem limitAttrs_constrained {k : Attr} (hk : k ∈ limitAttrs) :
    k ∈ constrainedAttrs ∧ k ≠ .pei ∧ k ≠ .peid ∧ k ≠ .mdd := by
  simp only [limitAttrs, List.mem_cons, List.not_mem_nil, or_false] at hk
  rcases hk with rfl | rfl | rfl | rfl <;> decide

/-- The defaults keep the constraints. -/
theorem Constrained.withDefaults {c o : Obj} (hget : ∀ k ∈ constrainedAttrs, o.get k = (withDefaults c).get k)
    (hperiod : ∀ j, c.get .pei = some j → ∃ p d : ℚ, j = .num p ∧ 0 < p ∧ c.get .peid = some (.num d) ∧ 0 ≤ d ∧ d ≤ p / 2)
    (haperiodic : c.get .pei = none → c.get .peid = none)
    (hdetect : ((c.orAdd .mdd (.bool false)).get .mdd).any Json.isTrue = true →
      checkDetection (((c.orAdd .mdd (.bool false)).get .mdt).bind Json.number)
        (((c.orAdd .mdd (.bool false)).get .mdn).bind Json.number) = .ok ())
    (hlimits : ∀ k ∈ limitAttrs, ∀ v, c.get k = some (.num v) → 0 ≤ v) : Constrained o := by
  have hplain : ∀ k, k = .pei ∨ k = .peid → o.get k = c.get k := by
    intro k hk
    rw [hget k (by rcases hk with rfl | rfl <;> decide), get_withDefaults]
    rcases hk with rfl | rfl <;> simp
  refine ⟨?_, ?_, ?_, ?_⟩
  · rw [hplain .pei (.inl rfl), hplain .peid (.inr rfl)]
    exact hperiod
  · rw [hplain .pei (.inl rfl), hplain .peid (.inr rfl)]
    exact haperiodic
  · intro hon k hk
    have hkc : k ∈ constrainedAttrs := by rcases hk with rfl | rfl <;> decide
    have hkne : k ≠ .mdd := by rcases hk with rfl | rfl <;> decide
    have hmdd : (c.orAdd .mdd (.bool false)).get .mdd = some (.bool true) := by
      rw [hget .mdd (by decide), get_withDefaults] at hon
      unfold Obj.orAdd
      rw [get_addMissing]
      exact hon
    obtain ⟨hmdt, hmdn⟩ := checkDetection_ok (hdetect (by rw [hmdd]; rfl))
    have hnum : ∃ v, ((c.orAdd .mdd (.bool false)).get k).bind Json.number = some v ∧ 0 < v := by
      rcases hk with rfl | rfl
      · exact hmdt
      · exact hmdn
    obtain ⟨v, hv, hpos⟩ := hnum
    have hkm := number_some hv
    unfold Obj.orAdd at hkm
    rw [get_addMissing, if_neg hkne.symm, Option.or_none] at hkm
    refine ⟨v, ?_, hpos⟩
    rw [hget k hkc, get_withDefaults, hkm, Option.some_or]
  · intro k hk v hv
    obtain ⟨hkc, -, -, hkne⟩ := limitAttrs_constrained hk
    rw [hget k hkc, get_withDefaults] at hv
    cases hk' : c.get k with
    | some j =>
      rw [hk', Option.some_or] at hv
      exact hlimits k hk v (hk'.trans hv)
    | none =>
      rw [hk', Option.none_or, if_neg hkne] at hv
      have hdefault : ∀ n : Int, 0 ≤ n → some (Json.int n) = some (.num v) → 0 ≤ v := by
        intro n hn he
        cases he
        exact_mod_cast hn
      simp only [limitAttrs, List.mem_cons, List.not_mem_nil, or_false] at hk
      rcases hk with rfl | rfl | rfl | rfl
      · exact hdefault 100 (by decide) hv
      · exact hdefault 262144 (by decide) hv
      · exact hdefault 10 (by decide) hv
      · exact hdefault 0 (by decide) hv

/-- The object of a new time series satisfies the constraints. -/
theorem buildTs_constrained {env : Env} {req : Req} {ts o : Obj} (h : buildTs env req ts = .ok o) (hs : SoundCreate ts)
    (hty : Typed ts) : Constrained o ∧ NamedOnce o ∧ ∀ j, o.get .mdd = some j → j.isBool = true ∨ j = .null := by
  obtain ⟨ts₁, hsame, hval, hdetect, hcheck, he⟩ := buildTs_steps h
  rw [he]
  replace hs := hs.congr hsame
  replace hty := hty.congr fun k hk => Assoc.get_congr (hsame k hk)
  clear he h hsame ts o
  have hone := hs.once.createPeriod hty
  have hbefore : ∀ k, k ≠ .pei → k ≠ .peid → (createPeriod ts₁).1.get k = ts₁.get k :=
    fun k h₁ h₂ => Assoc.get_congr (entries_createPeriod h₁ h₂)
  obtain ⟨hp, hno⟩ := createPeriod_constrained hs hty (fun v hv => validateTs_ok hval (by decide) (by decide) hv)
    fun pei peid h₁ h₂ => hcheck pei peid h₁ (by
      rw [Obj.get, Assoc.get_congr (entries_resetTs _ (by decide))]
      exact (get_withDefaults _ .peid).trans (by rw [h₂, Option.some_or]))
  have hlimits : ∀ k ∈ limitAttrs, ∀ v, (createPeriod ts₁).1.get k = some (.num v) → 0 ≤ v := by
    intro k hk v hv
    have hkc := limitAttrs_constrained hk
    exact validateTs_ok hval hkc.1 hkc.2.2.2 ((hbefore k hkc.2.1 hkc.2.2.1).symm.trans hv)
  have hswitch : ∀ j, (createPeriod ts₁).1.get .mdd = some j → j.isBool = true ∨ j = .null := fun j hj =>
    hty.switch j ((hbefore .mdd (by decide) (by decide)).symm.trans hj)
  clear hcheck hbefore
  generalize (createPeriod ts₁).1 = c at hone hdetect hp hno hlimits hswitch ⊢
  have hget : ∀ k ∈ constrainedAttrs, (announceAt env (resetTs (withDefaults c))).get k = (withDefaults c).get k :=
    fun k hk => Assoc.get_congr (entries_announced env _ hk)
  refine ⟨.withDefaults hget hp hno hdetect hlimits, ?_, ?_⟩
  · intro k hk
    rw [entries_announced env _ hk]
    unfold TinyIoT.withDefaults
    exact length_entries_orAdd (length_entries_orAdd (length_entries_orAdd (length_entries_orAdd (length_entries_orAdd
      (hone k hk)))))
  · intro j hj
    rw [hget .mdd (by decide), get_withDefaults] at hj
    cases hk : c.get .mdd with
    | some j' =>
      rw [hk, Option.some_or] at hj
      exact hswitch j (hk.trans hj)
    | none =>
      rw [hk] at hj
      cases hj
      exact .inl rfl

/-! ## Updates -/

/-- A body whose update keeps the constraints of the object `o`: the limits are not negative, the detection goes on where
`mdt` and `mdn` are numbers, a `peid` alone goes with the `pei` there is, and a `pei` with a `peid` that is no null `pei`'s. -/
structure SoundUpdate (o body : Obj) : Prop where
  once : NamedOnce body
  limits : ∀ k ∈ limitAttrs, ∀ v, body.get k = some (.num v) → 0 ≤ v
  switch : body.get .mdd = some (.bool true) → ∀ k, k = .mdt ∨ k = .mdn → ∃ v, o.get k = some (.num v)
  alone : body.get .pei = none → ∀ j, body.get .peid = some j →
    (o.get .pei = none ∧ j = .null) ∨ (o.get .pei ≠ none ∧ ∃ d : ℚ, j = .num d ∧ 0 ≤ d)
  period : ∀ j, body.get .pei = some j → ∃ p : ℚ, j = .num p ∧
    (p ≤ 0 → ∀ d, body.get .peid ≠ some (.num d)) ∧ (0 < p → ∀ d, body.get .peid = some (.num d) → 0 ≤ d ∨ d = -1) ∧
    (0 < p → (∀ d, body.get .peid = some (.num d) → d = -1) → p / 2 < intMax + 1)

/-- Without a `pei` the body is applied as it is, and its `peid` is within the `pei` there is. -/
theorem updatePeriod_alone {o body b : Obj} (hpei : body.get .pei = none) (h : updatePeriod o body = .ok b) :
    b = body ∧ ∀ p d : ℚ, o.get .pei = some (.num p) → 0 < p → body.get .peid = some (.num d) → d ≠ -1 → d ≤ p / 2 := by
  unfold updatePeriod at h
  simp only [hpei, Option.bind_none, Option.any_none, Bool.false_eq_true, if_false, ne_eq, not_true_eq_false, false_and] at h
  constructor
  · split at h
    · split at h
      · cases h
      · exact (Except.ok.inj h).symm
    · exact (Except.ok.inj h).symm
  · intro p d hp hpos hd hne
    rw [hp, hd] at h
    simp only [Json.number, Option.some.injEq, hne, not_false_eq_true, if_true] at h
    split at h
    · cases h
    · rename_i hno
      exact not_lt.mp fun hlt => hno ⟨hpos, hlt⟩

/-- A `pei` that is not positive becomes null, and so does a `peid` that is not given. -/
theorem updatePeriod_cleared {o body b : Obj} {p : ℚ} (hpei : body.get .pei = some (.num p)) (hp : p ≤ 0)
    (h : updatePeriod o body = .ok b) : b = (body.set .pei .null).orAdd .peid .null := by
  unfold updatePeriod at h
  simp only [hpei, Option.bind_some, Json.number, Option.any_some, hp, decide_true, if_true, ne_eq, not_true_eq_false,
    false_and, if_false] at h
  split at h
  · split at h
    · cases h
    · exact (Except.ok.inj h).symm
  · exact (Except.ok.inj h).symm

/-- A positive `pei` comes with a `peid` within it, or brings its default after what the body says. -/
theorem updatePeriod_given {o body b : Obj} {p : ℚ} (hpei : body.get .pei = some (.num p)) (hp : 0 < p)
    (h : updatePeriod o body = .ok b) : (∃ d : ℚ, body.get .peid = some (.num d) ∧ d ≠ -1 ∧ d ≤ p / 2 ∧ b = body) ∨
      ((∀ d, body.get .peid = some (.num d) → d = -1) ∧ b = body.add .peid (.int (Json.num (p / 2)).valueint)) := by
  have hno : ¬p ≤ 0 := not_le.mpr hp
  have hne : p ≠ -1 := by
    rintro rfl
    exact absurd hp (by norm_num)
  unfold updatePeriod at h
  simp only [hpei, Option.bind_some, Json.number, Option.any_some, hno, decide_false, Bool.false_eq_true, if_false, ne_eq,
    Option.some.injEq, hne, not_false_eq_true, true_and, if_true, Option.map_some] at h
  by_cases hd : ∃ d : ℚ, body.get .peid = some (.num d) ∧ d ≠ -1
  · obtain ⟨d, hd, hdne⟩ := hd
    simp only [hd, Option.some.injEq, hdne, if_false, not_false_eq_true, if_true] at h
    split at h
    · cases h
    · rename_i hle
      exact .inl ⟨d, hd, hdne, not_lt.mp fun hlt => hle ⟨hp, hlt⟩, (Except.ok.inj h).symm⟩
  · have hnone : ∀ d, body.get .peid = some (.num d) → d = -1 := fun d hd' => by_contra fun hdne => hd ⟨d, hd', hdne⟩
    refine .inr ⟨hnone, ?_⟩
    -- the `peid` of the body counts as none
    rcases hpeid : body.get .peid with _ | (_ | _ | d | _ | _ | _)
    case' some.num => obtain rfl := hnone d hpeid
    all_goals
      simp only [hpeid, if_true] at h
      split at h
      · split at h
        · cases h
        · exact (Except.ok.inj h).symm
      · exact (Except.ok.inj h).symm

/-- A value named once in the body is the one that is stored, a null none. -/
theorem get_merged {o b : Obj} {k : Attr} (ho : (Assoc.entries o k).length ≤ 1) (hb : (Assoc.entries b k).length ≤ 1) :
    (b.get k = none → (o.updateResource b).get k = o.get k) ∧ (b.get k = some .null → (o.updateResource b).get k = none) ∧
      ∀ v : ℚ, b.get k = some (.num v) → (o.updateResource b).get k = some (.num v) := by
  have hget := Obj.get_updateResource_once (.inl ho) hb
  refine ⟨fun h => ?_, fun h => ?_, fun v h => ?_⟩
  · rw [hget, h]
    rfl
  · rw [hget, h]
    rfl
  · rw [hget, h]
    rfl

/-- The period and the deviation after an update. -/
theorem merged_period {o o' body b b' : Obj} (hc : Constrained o) (hone : NamedOnce o) (hs : SoundUpdate o body)
    (hty : Typed body) (h : updatePeriod o body = .ok b)
    (ho : ∀ k, k = .pei ∨ k = .peid → Assoc.entries o' k = Assoc.entries o k)
    (hb : ∀ k, k = .pei ∨ k = .peid → Assoc.entries b' k = Assoc.entries b k) :
    (∀ j, (o'.updateResource b').get .pei = some j → ∃ p d : ℚ, j = .num p ∧ 0 < p ∧
      (o'.updateResource b').get .peid = some (.num d) ∧ 0 ≤ d ∧ d ≤ p / 2) ∧
    ((o'.updateResource b').get .pei = none → (o'.updateResource b').get .peid = none) := by
  have hpei' : o'.get .pei = o.get .pei := Assoc.get_congr (ho .pei (.inl rfl))
  have hpeid' : o'.get .peid = o.get .peid := Assoc.get_congr (ho .peid (.inr rfl))
  have hbpei : b'.get .pei = b.get .pei := Assoc.get_congr (hb .pei (.inl rfl))
  have hbpeid : b'.get .peid = b.get .peid := Assoc.get_congr (hb .peid (.inr rfl))
  have hopei : (Assoc.entries o' Attr.pei).length ≤ 1 := ho .pei (.inl rfl) ▸ hone .pei (by decide)
  have hopeid : (Assoc.entries o' Attr.peid).length ≤ 1 := ho .peid (.inr rfl) ▸ hone .peid (by decide)
  have hbody := hs.once .peid (by decide)
  cases hpei : body.get .pei with
  | none =>
    obtain ⟨rfl, hle⟩ := updatePeriod_alone hpei h
    obtain ⟨hkeep, -, -⟩ := get_merged hopei (b := b') (by rw [hb .pei (.inl rfl)]; exact hs.once .pei (by decide))
    obtain ⟨hdkeep, hdnull, hdnum⟩ := get_merged hopeid (b := b') (by rw [hb .peid (.inr rfl)]; exact hbody)
    rw [hkeep (hbpei.trans hpei), hpei']
    cases hpeid : b.get .peid with
    | none =>
      rw [hdkeep (hbpeid.trans hpeid), hpeid']
      exact ⟨hc.period, hc.aperiodic⟩
    | some j =>
      rcases hs.alone hpei j hpeid with ⟨hno, rfl⟩ | ⟨hsome, d, rfl, hd⟩
      · rw [hdnull (hbpeid.trans hpeid), hno]
        exact ⟨fun j hj => (by cases hj), fun _ => rfl⟩
      · rw [hdnum d (hbpeid.trans hpeid)]
        refine ⟨fun j hj => ?_, fun hno => absurd hno hsome⟩
        obtain ⟨p, -, rfl, hp, -⟩ := hc.period j hj
        refine ⟨p, d, rfl, hp, rfl, hd, hle p d hj hp hpeid ?_⟩
        rintro rfl
        exact absurd hd (by norm_num)
  | some j =>
    obtain ⟨p, rfl, hclear, hdev, hrange⟩ := hs.period j hpei
    rcases le_or_gt p 0 with hp | hp
    · -- both go, whether the body says so of `peid` or not
      obtain rfl := updatePeriod_cleared hpei hp h
      have hnull : b'.get .pei = some .null := by
        rw [hbpei, Obj.orAdd, get_addMissing, if_neg (by decide), Option.or_none]
        exact Assoc.get_set_self hpei
      have hdnull : b'.get .peid = some .null := by
        rw [hbpeid, Obj.orAdd, get_addMissing, if_pos rfl, show Obj.get (body.set .pei .null) .peid = body.get .peid from
          Assoc.get_set_ne (by decide)]
        cases hpeid : body.get .peid with
        | none => rfl
        | some j =>
          rcases hty.number .peid (by decide) (by decide) j hpeid with hnum | rfl
          · obtain ⟨d, rfl⟩ := eq_num_of_isNumber hnum
            exact absurd hpeid (hclear hp d)
          · rfl
      have hlpei : (Assoc.entries b' Attr.pei).length ≤ 1 := by
        rw [hb .pei (.inl rfl)]
        refine length_entries_orAdd ?_
        show (Assoc.entries (Assoc.set body Attr.pei .null) Attr.pei).length ≤ 1
        rw [Assoc.length_entries_set]
        exact hs.once .pei (by decide)
      have hlpeid : (Assoc.entries b' Attr.peid).length ≤ 1 := by
        rw [hb .peid (.inr rfl)]
        refine length_entries_orAdd ?_
        show (Assoc.entries (Assoc.set body Attr.pei .null) Attr.peid).length ≤ 1
        rw [Assoc.entries_set_ne (by decide)]
        exact hbody
      rw [(get_merged hopei hlpei).2.1 hnull, (get_merged hopeid hlpeid).2.1 hdnull]
      exact ⟨fun j hj => (by cases hj), fun _ => rfl⟩
    · rcases updatePeriod_given hpei hp h with ⟨d, hpeid, hne, hle, rfl⟩ | ⟨hnone, rfl⟩
      · rw [(get_merged hopei (by rw [hb .pei (.inl rfl)]; exact hs.once .pei (by decide))).2.2 p (hbpei.trans hpei),
          (get_merged hopeid (by rw [hb .peid (.inr rfl)]; exact hbody)).2.2 d (hbpeid.trans hpeid)]
        refine ⟨fun j hj => ?_, fun hno => (by cases hno)⟩
        cases hj
        exact ⟨p, d, rfl, hp, rfl, (hdev hp d hpeid).resolve_right hne, hle⟩
      · -- the default stands after what the body says, and is the one that is stored
        have hbp : Assoc.entries b' Attr.pei = Assoc.entries body Attr.pei :=
          (hb .pei (.inl rfl)).trans (Assoc.entries_add_ne (by decide))
        have hlast : (o'.updateResource b').get .peid = some (.int (Json.num (p / 2)).valueint) :=
          Obj.get_updateResource_of_last rfl ((hb .peid (.inr rfl)).trans (Assoc.entries_add_self ..))
        rw [(get_merged hopei (by rw [hbp]; exact hs.once .pei (by decide))).2.2 p ((Assoc.get_congr hbp).trans hpei), hlast]
        refine ⟨fun j hj => ?_, fun hno => (by cases hno)⟩
        cases hj
        have hhalf : 0 ≤ p / 2 := by positivity
        refine ⟨p, _, rfl, hp, rfl, ?_, valueint_le_number hhalf⟩
        exact_mod_cast valueint_nonneg hhalf

/-- What a run keeps of a time series: the constraints, in an object that names each attribute once and has a boolean
switch. -/
structure ConstrainedOnce (o : Obj) : Prop where
  sound : Constrained o
  once : NamedOnce o
  switch : ∀ j, o.get .mdd = some j → j.isBool = true

theorem ConstrainedOnce.congr {o o' : Obj} (h : ConstrainedOnce o)
    (he : ∀ k ∈ constrainedAttrs, Assoc.entries o' k = Assoc.entries o k) : ConstrainedOnce o' := by
  have hget : ∀ k ∈ constrainedAttrs, o'.get k = o.get k := fun k hk => Assoc.get_congr (he k hk)
  refine ⟨⟨?_, ?_, fun hon k hk => ?_, fun k hk v hv => ?_⟩, h.once.congr he, fun j hj => ?_⟩
  · rw [hget .pei (by decide), hget .peid (by decide)]
    exact h.sound.period
  · rw [hget .pei (by decide), hget .peid (by decide)]
    exact h.sound.aperiodic
  · rw [hget k (by rcases hk with rfl | rfl <;> decide)]
    exact h.sound.detection (hget .mdd (by decide) ▸ hon) k hk
  · rw [hget k (limitAttrs_constrained hk).1] at hv
    exact h.sound.limits k hk v hv
  · rw [hget .mdd (by decide)] at hj
    exact h.switch j hj

/-- The checks of `update_ts` on the detection: with the detection on in the end, none of its parameters is in the body,
and those of the time series are positive or no numbers. -/
theorem checkMddUpdate_ok {o body : Obj} (h : checkMddUpdate o body = .ok ())
    (hon : ((body.get .mdd).or (o.get .mdd)).any mddOn = true) :
    (∀ k ∈ detectionParams, body.get k = none) ∧
      ∀ k, k = .mdt ∨ k = .mdn → ∀ v, o.get k = some (.num v) → 0 < v := by
  unfold checkMddUpdate at h
  simp only [hon, if_true] at h
  split at h
  · cases h
  · rename_i hparams
    refine ⟨fun k hk => Assoc.has_eq_false.mp ?_, fun k hk v hv => ?_⟩
    · have hall := List.any_eq_false.mp (by simpa using hparams) k hk
      simpa using hall
    · by_contra hneg
      have hlow : decide (v ≤ 0) = true := decide_eq_true (not_lt.mp hneg)
      rcases hk with rfl | rfl
      · simp only [hv, Json.number, Option.any_some, hlow, Bool.true_or, if_true] at h
        cases h
      · simp only [hv, Json.number, Option.any_some, hlow, Bool.or_true, if_true] at h
        cases h

/-- One accepted update. -/
theorem ConstrainedOnce.update {o o' body : Obj} {now : CStr} {kept : Json → List Json} (h : ConstrainedOnce o)
    (hs : SoundUpdate o body) (hty : Typed body) (hu : updatedTs now kept o body = .ok o') : ConstrainedOnce o' := by
  obtain ⟨-, -, hcheck, b, o₁, hp, ho₁, rfl⟩ := updatedTs_steps hu
  have hnew : ∀ k ∈ constrainedAttrs, Assoc.entries o₁ k = Assoc.entries o k := by
    intro k hk
    rw [ho₁]
    split
    · refine (touches_restartDetection now o).entries ?_
      revert hk
      exact fun hk hk' => absurd hk ((by decide : ∀ k ∈ [Attr.mdc, .mdlt, .lt], k ∉ constrainedAttrs) k hk')
    · rfl
  generalize hb₁ : (processAnncAtUpdate kept o₁ b).1 = b₁
  have hbody : ∀ k ∈ constrainedAttrs, Assoc.entries b₁ k = Assoc.entries b k := by
    intro k hk
    rw [← hb₁]
    refine entries_processAnncAtUpdate ?_
    rintro rfl
    exact absurd hk (by decide)
  have hplain : ∀ k ∈ constrainedAttrs, k ≠ .pei → k ≠ .peid → Assoc.entries b₁ k = Assoc.entries body k := by
    intro k hk h₁ h₂
    exact (hbody k hk).trans ((touches_updatePeriod hp).entries (by simp [h₁, h₂]))
  have hmerged : ∀ k ∈ constrainedAttrs, k ≠ .pei → k ≠ .peid →
      (o₁.updateResource b₁).get k = ((body.get k).map fun v => if v.isNull then none else some v).getD (o.get k) := by
    intro k hk h₁ h₂
    rw [Obj.get_updateResource_once (.inl (by rw [hnew k hk]; exact h.once k hk))
      (by rw [hplain k hk h₁ h₂]; exact hs.once k hk), Obj.get, Assoc.get_congr (hplain k hk h₁ h₂)]
    exact congrArg _ (Assoc.get_congr (hnew k hk))
  have hpair : ∀ k, k = .pei ∨ k = .peid → k ∈ constrainedAttrs := by
    rintro k (rfl | rfl) <;> decide
  obtain ⟨hperiod, haperiodic⟩ := merged_period h.sound h.once hs hty hp (fun k hk => hnew k (hpair k hk))
    fun k hk => hbody k (hpair k hk)
  have hswitch := hmerged .mdd (by decide) (by decide) (by decide)
  refine ⟨⟨hperiod, haperiodic, fun hon k hk => ?_, fun k hk v hv => ?_⟩, fun k hk => ?_, fun j hj => ?_⟩
  · -- the detection is on in the end, so its parameters are those there were
    have hkc : k ∈ constrainedAttrs ∧ k ≠ .pei ∧ k ≠ .peid ∧ k ∈ detectionParams := by
      rcases hk with rfl | rfl <;> decide
    rw [hswitch] at hon
    have hactive : ((body.get .mdd).or (o.get .mdd)).any mddOn = true := by
      cases hbm : body.get .mdd with
      | none =>
        rw [hbm] at hon
        rw [Option.none_or, show o.get .mdd = some (.bool true) from hon]
        rfl
      | some j =>
        rw [hbm] at hon
        cases j with
        | null => cases hon
        | _ => cases hon <;> rfl
    obtain ⟨hnone, hpos⟩ := checkMddUpdate_ok hcheck hactive
    have hkept : (o₁.updateResource b₁).get k = o.get k := by
      rw [hmerged k hkc.1 hkc.2.1 hkc.2.2.1, hnone k hkc.2.2.2]
      rfl
    have hnum : ∃ v, o.get k = some (.num v) := by
      cases hbm : body.get .mdd with
      | none =>
        rw [hbm] at hon
        obtain ⟨v, hv, -⟩ := h.sound.detection hon k hk
        exact ⟨v, hv⟩
      | some j =>
        rw [hbm] at hon
        refine hs.switch ?_ k hk
        rw [hbm]
        cases j with
        | null => cases hon
        | _ => exact hon
    obtain ⟨v, hv⟩ := hnum
    exact ⟨v, hkept.trans hv, hpos k hk v hv⟩
  · obtain ⟨hkc, h₁, h₂, -⟩ := limitAttrs_constrained hk
    rw [hmerged k hkc h₁ h₂] at hv
    cases hbk : body.get k with
    | none =>
      rw [hbk] at hv
      exact h.sound.limits k hk v hv
    | some j =>
      rw [hbk] at hv
      cases j with
      | num w =>
        cases hv
        exact hs.limits k hk _ hbk
      | _ => cases hv
  · exact Obj.length_entries_updateResource (by rw [hnew k hk]; exact h.once k hk) _
  · rw [hswitch] at hj
    cases hbm : body.get .mdd with
    | none =>
      rw [hbm] at hj
      exact h.switch j hj
    | some j' =>
      rw [hbm] at hj
      rcases hty.switch j' hbm with hbool | rfl
      · cases j' with
        | bool =>
          cases hj
          exact hbool
        | _ => cases hbool
      · cases hj

/-! ## Runs -/

/-- The switch of a node that is created: a boolean stays, and null becomes false. -/
theorem mdd_createRtnode {id : Nat} {o : Obj} {ty : ResourceType} {x : RTNode} (h : createRtnode id o ty = some x)
    (hswitch : ∀ j, o.get .mdd = some j → j.isBool = true ∨ j = .null) :
    (Assoc.entries x.obj Attr.mdd).length = (Assoc.entries o Attr.mdd).length ∧
      (∀ j, x.obj.get .mdd = some j → j.isBool = true) ∧
      (x.obj.get .mdd = some (.bool true) → o.get .mdd = some (.bool true)) := by
  unfold createRtnode at h
  simp only [Option.bind_eq_bind, Option.bind_eq_some_iff, Option.pure_def, Option.some.injEq] at h
  obtain ⟨_, -, rn, -, rfl⟩ := h
  dsimp only
  have hent : Assoc.entries (boolify (boolify ((o.del .uri).del .memberOf) .rr) .mtv) Attr.mdd = Assoc.entries o Attr.mdd := by
    rw [entries_boolify_ne (by decide), entries_boolify_ne (by decide), Assoc.entries_del_ne (by decide),
      Assoc.entries_del_ne (by decide)]
  generalize boolify (boolify ((o.del .uri).del .memberOf) .rr) .mtv = o' at hent ⊢
  have hget : o'.get .mdd = o.get .mdd := Assoc.get_congr hent
  rw [← hget] at hswitch
  rw [← hget, ← hent]
  unfold boolify
  cases hj : o'.get .mdd with
  | none => exact ⟨rfl, fun j hj' => (by cases hj.symm.trans hj'), fun hon => (by cases hj.symm.trans hon)⟩
  | some j =>
    rcases hswitch j hj with hbool | rfl
    · cases j with
      | bool b =>
        refine ⟨rfl, fun j hj' => ?_, fun hon => hj.symm.trans hon⟩
        cases hj.symm.trans hj'
        rfl
      | _ => cases hbool
    · have hset : (o'.set .mdd (.bool (decide (Json.null.valueint = 1)))).get .mdd = some (.bool false) := Assoc.get_set_self hj
      refine ⟨Assoc.length_entries_set .., fun j hj' => ?_, fun hon => (by cases hset.symm.trans hon)⟩
      cases hset.symm.trans hj'
      rfl

namespace Server

variable {s s' : Server} {t : RTNode} {i : Nat} {o : Obj}

/-- The time series at an address, where there is one, satisfies the constraints. -/
structure Constraining (i : Nat) (s : Server) : Prop where
  sane : s.Sane
  sound : ∀ n ∈ s.tree.nodes, n.id = i → ConstrainedOnce n.obj

theorem spares_deleteOldestTsi (hs : s.NodupIds) (h : s.deleteOldestTsi i = some s') : s.Spares s' := by
  unfold deleteOldestTsi at h
  split at h
  · cases h
    exact .refl s
  · rename_i oldest _
    split at h
    · cases h
    · simp only [Option.bind_eq_bind, Option.bind_eq_some_iff, Option.pure_def, Option.some.injEq] at h
      obtain ⟨p, hp, cs, -, rfl⟩ := h
      obtain ⟨hpm, hpi⟩ := node?_mem hp
      have hobj : s.Spares (s.setObj i (countDown p.obj cs.valueint)) := spares_modifyNode fun m hm hmi => by
        rw [hs.eq hm hpm (hmi.trans hpi.symm)]
        exact .setObj (spared_countDown _ _)
      have hrow : (s.setObj i (countDown p.obj cs.valueint)).Spares { s.setObj i (countDown p.obj cs.valueint) with
          db := (s.setObj i (countDown p.obj cs.valueint)).db.dbDeleteOnem2mResource oldest } := .of_tree rfl rfl
      exact hobj.trans (hrow.trans (spares_freeRtnode _ _))

theorem spares_evictTsi {exceeds : Int → Int → Bool} {fuel : Nat} {cni cbs : Int} (hs : s.NodupIds)
    (h : evictTsi exceeds i fuel s cni cbs = some (.within s')) : s.Spares s' := by
  induction fuel generalizing s cni cbs with
  | zero =>
    unfold evictTsi at h
    split at h
    · cases h
    · cases h
      exact .refl _
  | succ fuel ih =>
    unfold evictTsi at h
    split at h
    · simp only [Option.bind_eq_bind, Option.bind_eq_some_iff] at h
      obtain ⟨s₁, h₁, c, -, h⟩ := h
      have hone := spares_deleteOldestTsi hs h₁
      exact hone.trans (ih (hone.nodupIds hs) h)
    · cases h
      exact .refl _

/-- What an update leaves at the address of the time series. -/
theorem settleTs_constraining {ri : CStr} {resp : Resp} (h : s.settleTs t ri o = some (.reply s' resp)) (hs : s.Sane)
    (ho : ConstrainedOnce o) : s'.Constraining t.id := by
  unfold settleTs at h
  simp only [Option.bind_eq_bind, Option.bind_eq_some_iff] at h
  obtain ⟨e, he, h⟩ := h
  cases e with
  | endless => cases h
  | within s₁ =>
    simp only [Option.bind_eq_some_iff, Option.pure_def, Option.some.injEq, Outcome.reply.injEq] at h
    obtain ⟨n, -, rfl, -⟩ := h
    have hset := hs.setObj t.id o
    have hspares := spares_evictTsi hset.ids he
    refine ⟨(hspares.sane hset).congr rfl le_rfl, fun m hm hmi => ?_⟩
    obtain ⟨m₀, hm₀, hk⟩ := Forest.Pruned.mem hspares.tree hm
    have hm₀o : m₀.obj = o := by
      rw [setObj, nodes_modifyNode] at hm₀
      obtain ⟨q, -, rfl⟩ := List.mem_map.mp hm₀
      by_cases hq : q.id = t.id
      · rw [if_pos hq]
      · rw [if_neg hq] at hk
        exact absurd (hk.id.trans hmi) hq
    refine (hm₀o ▸ ho).congr fun k hk' => hk.obj.attrs k ?_
    exact fun hmem => absurd hk' ((by decide : ∀ k ∈ .mid :: deletionAttrs, k ∉ constrainedAttrs) k hmem)

end Server

/-- A time series was created at the address. -/
def TsCreated (ok : Obj → Prop) (i : Nat) (s' : Server) : Prop :=
  ∃ (env : Env) (req : Req) (s : Server) (parent : RTNode) (r : Resp), s.Sane ∧ parent ∈ s.tree.nodes ∧ i = s.nextId ∧
    Typed req.pc ∧ ok req.pc ∧ s.createTs env req parent = some (s', r) ∧ r.rsc = .created

/-- The time series at the address was updated. -/
def TsUpdated (ok : Obj → Obj → Prop) (i : Nat) (s s' : Server) : Prop :=
  ∃ (env : Env) (kept : Json → List Json) (req : Req) (t : RTNode) (r : Resp), s.node? i = some t ∧ Typed req.pc ∧
    ok t.obj req.pc ∧ s.updateTs env kept req t = some (.reply s' r) ∧ r.rsc = .updated

theorem Server.Constraining.start {i : Nat} {s : Server} (h : TsCreated SoundCreate i s) : s.Constraining i := by
  obtain ⟨env, req, s₀, parent, r, hs, hp, rfl, hty, hok, h, -⟩ := h
  obtain ⟨hsane, hbuilt⟩ := createTs_built hs hp h
  refine ⟨hsane, fun n hn hi => ?_⟩
  obtain ⟨ts, o, ho, hent, x, hx, hobj⟩ := hbuilt n hn hi
  have hbody : ∀ k ∈ constrainedAttrs, Assoc.entries ts k = Assoc.entries req.pc k := fun k hk => hent k fun hmem =>
    absurd hk ((by decide : ∀ k ∈ [Attr.ty, .ct, .ri, .rn, .lt, .pi, .et], k ∉ constrainedAttrs) k hmem)
  obtain ⟨hsound, honce, hswitch⟩ := buildTs_constrained ho (hok.congr hbody)
    (hty.congr fun k hk => Assoc.get_congr (hbody k hk))
  obtain ⟨hlen, hbool, hon⟩ := mdd_createRtnode hx hswitch
  have hrest : ∀ k ∈ constrainedAttrs, k ≠ .mdd → Assoc.entries x.obj k = Assoc.entries o k := by
    intro k hk hne
    refine entries_createRtnode hx fun hmem => ?_
    exact (by decide : ∀ k ∈ rewritten, k ∉ constrainedAttrs ∨ k = .mdd) k hmem |>.elim (absurd hk) hne
  have hget : ∀ k ∈ constrainedAttrs, k ≠ .mdd → x.obj.get k = o.get k := fun k hk hne => Assoc.get_congr (hrest k hk hne)
  rw [hobj]
  refine ⟨⟨?_, ?_, fun hmdd k hk => ?_, fun k hk v hv => ?_⟩, fun k hk => ?_, hbool⟩
  · rw [hget .pei (by decide) (by decide), hget .peid (by decide) (by decide)]
    exact hsound.period
  · rw [hget .pei (by decide) (by decide), hget .peid (by decide) (by decide)]
    exact hsound.aperiodic
  · rw [hget k (by rcases hk with rfl | rfl <;> decide) (by rcases hk with rfl | rfl <;> decide)]
    exact hsound.detection (hon hmdd) k hk
  · obtain ⟨hkc, -, -, hne⟩ := limitAttrs_constrained hk
    rw [hget k hkc hne] at hv
    exact hsound.limits k hk v hv
  · by_cases hk' : k = .mdd
    · rw [hk', hlen]
      exact honce .mdd (by decide)
    · rw [hrest k hk hk']
      exact honce k hk

theorem Server.Constraining.update {i : Nat} {s s' : Server} (h : s.Constraining i) (hu : TsUpdated SoundUpdate i s s') :
    s'.Constraining i := by
  obtain ⟨env, kept, req, t, r, ht, hty, hok, hu, -⟩ := hu
  obtain ⟨htm, rfl⟩ := Server.node?_mem ht
  cases hts : updatedTs env.now kept t.obj req.pc with
  | error e =>
    rw [Server.updateTs_refused hts] at hu
    cases hu
    exact h
  | ok ts =>
    cases hri : t.ri with
    | none =>
      rw [Server.updateTs_nameless hri hts] at hu
      cases hu
    | some ri =>
      obtain ⟨db, he⟩ := updateTs_eq_settleTs (s := s) hri hts
      rw [he] at hu
      exact Server.settleTs_constraining hu (h.sane.congr rfl le_rfl) ((h.sound t htm rfl).update hok hty hts)

/-- After every run of creations and updates with sound bodies the constraints hold. -/
theorem constrained_of_sound_run {i : Nat} {s : Server} (h : Reach (TsCreated SoundCreate i) (TsUpdated SoundUpdate i) s) :
    ∀ n ∈ s.tree.nodes, n.id = i → Constrained n.obj := by
  have hinv : s.Constraining i := Reach.inv (I := Server.Constraining i) (fun _ => Server.Constraining.start)
    (fun _ _ => Server.Constraining.update) h
  exact fun n hn hi => (hinv.sound n hn hi).sound

/-- A container is created on the first day, and in it a time series with this body; it gets the address 3. -/
def createdTs (body : Obj) : Option Server := do
  let s ← boot firstDay
  let cb ← s.node? 0
  let (s, _) ← s.createCnt firstDay (adminReq .create "TinyIoT" .cnt [(.rn, .str "c".toList)]) cb
  let c ← s.node? 2
  let (s', r) ← s.createTs firstDay (adminReq .create "TinyIoT/c" .ts body) c
  if s.nextId = 3 ∧ r.rsc = .created then some s' else none

/-- It is updated with this one. -/
def updatedOnce (s : Server) (body : Obj) : Option Server := do
  let t ← s.node? 3
  let o ← s.updateTs firstDay (fun _ => []) (adminReq .update "TinyIoT/c/t" .ts body) t
  let (s, r) ← o.answer
  if r.rsc = .updated then some s else none

theorem tsCreated_createdTs {body : Obj} {s : Server} {ok : Obj → Prop} (h : createdTs body = some s) (hty : Typed body)
    (hok : ok body) : TsCreated ok 3 s := by
  unfold createdTs at h
  simp only [Option.bind_eq_bind, Option.bind_eq_some_iff] at h
  obtain ⟨s₀, hboot, cb, -, ⟨s₁, _⟩, hcnt, c, hc, ⟨s', r⟩, hcreate, h⟩ := h
  obtain ⟨⟨hnext, hr⟩, h⟩ := Option.ite_none_right_eq_some.mp h
  cases h
  have hsane := (Server.sane_boot hboot).1
  obtain ⟨_, _, -, hedits, -⟩ := Server.createsAs_createCnt stamps_stampAttrs hsane (by decide) hcnt
  exact ⟨firstDay, _, s₁, c, r, hedits.sane hsane, (Server.node?_mem hc).1, hnext.symm, hty, hok, hcreate, hr⟩

theorem tsUpdated_updatedOnce {body : Obj} {s s' : Server} {ok : Obj → Obj → Prop} (h : updatedOnce s body = some s')
    (hty : Typed body) (hok : ∀ t, s.node? 3 = some t → ok t.obj body) : TsUpdated ok 3 s s' := by
  unfold updatedOnce at h
  simp only [Option.bind_eq_bind, Option.bind_eq_some_iff] at h
  obtain ⟨t, ht, o, ho, ⟨s₁, r⟩, hans, h⟩ := h
  split at h
  · rename_i hr
    cases h
    cases o with
    | endless => cases hans
    | reply s₁ r₁ =>
      cases hans
      exact ⟨firstDay, _, _, t, r, ht, hty, hok t ht, ho, hr⟩
  · cases h

/-- A point every second. -/
def periodic : Obj := [(.rn, .str "t".toList), (.pei, .int 1000)]

theorem typed_of_numbers {body : Obj} (h : ∀ k ∈ constrainedAttrs, (body.get k).all fun j =>
    if k = .mdd then j.isBool || j.isNull else j.isNumber || j.isNull) : Typed body := by
  have hnull : ∀ j : Json, j.isNull = true → j = .null := by
    intro j hj
    cases j <;> first | rfl | cases hj
  refine ⟨fun j hj => ?_, fun k hk hne j hj => ?_⟩
  · have := h .mdd (by decide)
    rw [hj, Option.all_some, if_pos rfl, Bool.or_eq_true] at this
    exact this.imp_right (hnull j)
  · have := h k hk
    rw [hj, Option.all_some, if_neg hne, Bool.or_eq_true] at this
    exact this.imp_right (hnull j)

theorem sound_periodic : SoundCreate periodic :=
  ⟨by unfold NamedOnce; decide, fun _ _ _ _ hpeid => (by cases hpeid)⟩

theorem sound_slower (o : Obj) : SoundUpdate o [(.pei, .int 2000)] := by
  refine ⟨by unfold NamedOnce; decide, fun k hk v hv => ?_, fun hmdd => (by cases hmdd), fun hpei => (by cases hpei),
    fun j hj => ⟨2000, ?_, fun _ _ hpeid => (by cases hpeid), fun _ _ hpeid => (by cases hpeid), fun _ _ => ?_⟩⟩
  · simp only [limitAttrs, List.mem_cons, List.not_mem_nil, or_false] at hk
    rcases hk with rfl | rfl | rfl | rfl <;> cases hv
  · cases hj
    rfl
  · unfold intMax
    norm_num

/-- A `pei` of two seconds brings a `peid` of one. -/
theorem constrained_of_sound_run_slower : ∃ s n, Reach (TsCreated SoundCreate 3) (TsUpdated SoundUpdate 3) s ∧
    n ∈ s.tree.nodes ∧ n.id = 3 ∧ n.obj.get .peid = some (.int 1000) ∧ Constrained n.obj := by
  have hrun : ((createdTs periodic).bind fun s => updatedOnce s [(.pei, .int 2000)]).any
      (fun s => (s.node? 3).any fun n => (n.obj.get .peid).any fun j => j.number = some 1000) = true := by
    decide +kernel
  obtain ⟨s, hs, hn⟩ := (Option.any_eq_true _ _).mp hrun
  obtain ⟨s₁, hcreated, hupdated⟩ := Option.bind_eq_some_iff.mp hs
  obtain ⟨n, hn, hpeid⟩ := (Option.any_eq_true _ _).mp hn
  obtain ⟨j, hj, hnum⟩ := (Option.any_eq_true _ _).mp hpeid
  obtain ⟨hmem, hid⟩ := Server.node?_mem hn
  have hreach : Reach (TsCreated SoundCreate 3) (TsUpdated SoundUpdate 3) s :=
    (Reach.start (tsCreated_createdTs hcreated (typed_of_numbers (by decide)) sound_periodic)).next
      (tsUpdated_updatedOnce hupdated (typed_of_numbers (by decide)) fun t _ => sound_slower t.obj)
  refine ⟨s, n, hreach, hmem, hid, ?_, constrained_of_sound_run hreach n hmem hid⟩
  rw [hj]
  cases j with
  | num v =>
    cases of_decide_eq_true hnum
    rfl
  | _ => cases of_decide_eq_true hnum

/-- A null `pei` is read as no number, and leaves the least integer as the `peid` of a time series without a period. -/
theorem peid_without_pei : ¬ ∀ (i : Nat) (s : Server), Reach (TsCreated (fun _ => True) i) (TsUpdated (fun _ _ => True) i) s →
    ∀ n ∈ s.tree.nodes, n.id = i → Constrained n.obj := by
  intro h
  have hrun : ((createdTs periodic).bind fun s => updatedOnce s [(.pei, .null)]).any
      (fun s => (s.node? 3).any fun n => !n.obj.has .pei && n.obj.has .peid) = true := by
    decide +kernel
  obtain ⟨s, hs, hn⟩ := (Option.any_eq_true _ _).mp hrun
  obtain ⟨s₁, hcreated, hupdated⟩ := Option.bind_eq_some_iff.mp hs
  obtain ⟨n, hn, hbad⟩ := (Option.any_eq_true _ _).mp hn
  obtain ⟨hmem, hid⟩ := Server.node?_mem hn
  have hreach : Reach (TsCreated (fun _ => True) 3) (TsUpdated (fun _ _ => True) 3) s :=
    (Reach.start (tsCreated_createdTs hcreated (typed_of_numbers (by decide)) trivial)).next
      (tsUpdated_updatedOnce hupdated (typed_of_numbers (by decide)) fun _ _ => trivial)
  rw [Bool.and_eq_true, Bool.not_eq_true'] at hbad
  have hno := (h 3 s hreach n hmem hid).aperiodic (Assoc.has_eq_false.mp hbad.1)
  have hgone : n.obj.has .peid = false := Assoc.has_eq_false.mpr hno
  rw [hgone] at hbad
  cases hbad.2

end TinyIoT
