/-
The schedule of the monitoring thread: once a time series is armed, its missing points are given up one at a
time, each a period after the one before, whatever else happens to the time series until it is armed again. The
cursor stands as many periods behind the arming as points have been taken. A cursor has room for 255 characters of
an identifier: that of a time series with a longer one is not found again.
-/
import TinyIoT.Monitor.Slots

namespace TinyIoT

/-- What `create_tsi` detects for, the monitoring thread watches. -/
theorem Arrival.mddWatched_of_period {a : Arrival} {period : Int} (h : a.period = some period) : mddWatched a.ts = true := by
  unfold Arrival.period at h
  split at h
  · rename_i mdd pei hmdd hpei
    split at h
    · rename_i hon
      unfold mddWatched
      rw [hmdd]
      cases mdd with
      | bool b =>
        cases b with
        | true => rfl
        | false => cases hon.1
      | _ => cases hon.1
    · cases h
  · cases h

namespace Detector

variable (fmt : TimeFormat) (i : Nat)

/-- The event neither arms the time series nor disarms it. -/
def quiet (d : Detector) : DetectorAct → Bool
  | .arrive env _ req =>
    ((d.server.node? i).bind (arrivalTsi (d.env fmt env) req d.server)).all fun a => a.period.isNone
  | .update env kept req =>
    (d.server.node? i).all fun t => !(req.pc.has .mdd && (updatedTs env.now kept t.obj req.pc).isOk)
  | _ => true

/-- An event between two armings that leaves the time series its identifier and its period. -/
def Between (ri : CStr) (period : Int) (d d' : Detector) : Prop :=
  ∃ a, d.quiet fmt i a = true ∧ d.step fmt i a = some d' ∧
    ∀ t ∈ d'.server.tree.nodes, t.id = i → t.ri = some ri ∧ monitorPeriod t.obj = period

/-- The time series is watched with this period, and its cursor stands here. -/
structure Armed (d : Detector) (ri : CStr) (period : Int) (c : Cursor) : Prop where
  sane : d.server.Sane
  watched : ∀ t ∈ d.server.tree.nodes, t.id = i → t.ri = some ri ∧ mddWatched t.obj = true ∧ monitorPeriod t.obj = period
  cursor : Assoc.get d.cursors ri = some c

variable {fmt i} {d d' d₀ : Detector} {ri : CStr} {period : Int} {c : Cursor}

theorem mddWatched_congr {o o' : Obj} (h : o'.get .mdd = o.get .mdd) : mddWatched o' = mddWatched o := by
  unfold mddWatched
  rw [h]

/-! ## One event -/

/-- A due cursor is taken and moved on by one period. -/
theorem tsMdTakeDue_of_get {m : Cursors} {now pei : Int} (h : Assoc.get m ri = some c) (hp : 0 < pei) (hd : 0 < c.deadline) :
    tsMdTakeDue m ri now pei =
      if c.deadline ≤ now then some (c.expected, Assoc.set m ri ⟨c.deadline + pei, c.expected + pei⟩) else none := by
  unfold tsMdTakeDue
  rw [h]
  dsimp only
  by_cases hdue : c.deadline ≤ now
  · rw [if_pos hdue, if_pos ⟨hp, hd, hdue⟩]
  · rw [if_neg hdue, if_neg fun hall => hdue hall.2.2]

/-- A tick takes the slot of the cursor when its deadline has come, and nothing before. -/
theorem Armed.tick (h : Armed i d ri period c) (hp : 0 < period) (hc : 0 < c.deadline) {clock : Int}
    (hd : d.step fmt i (.tick clock) = some d') :
    (c.deadline ≤ clock ∧ d'.recorded = d.recorded ++ [c.expected] ∧
      Armed i d' ri period ⟨c.deadline + period, c.expected + period⟩) ∨ clock < c.deadline ∧ d' = d := by
  simp only [step, Option.bind_eq_bind, Option.bind_eq_some_iff, Option.pure_def, Option.some.injEq] at hd
  obtain ⟨t, ht, rfl⟩ := hd
  obtain ⟨htm, hti⟩ := Server.node?_mem ht
  obtain ⟨hri, hwatched, hperiod⟩ := h.watched t htm hti
  unfold check
  rw [if_pos hwatched, hri]
  dsimp only
  rw [hperiod, tsMdTakeDue_of_get h.cursor hp hc]
  by_cases hdue : c.deadline ≤ clock
  · rw [if_pos hdue]
    have hshow := Server.showsAt_setObj d.server t.id (recordMissing t.obj (fmt.isoMonitor c.expected))
    refine .inl ⟨hdue, rfl, (h.sane.setObj t.id _).congr rfl le_rfl, fun t' ht' hi => ?_, Assoc.get_set_self h.cursor⟩
    have hsame := hshow t' ht' (hi.trans hti.symm)
    refine ⟨?_, ?_, ?_⟩
    · exact ((Obj.str_congr (hsame.get (by decide))).trans (str_ri_recordMissing _ _)).trans hri
    · rw [mddWatched_congr (hsame.get (by decide)),
        mddWatched_congr (get_recordMissing_of_ne (by decide) (by decide)), hwatched]
    · rw [monitorPeriod_congr (hsame.get (by decide)),
        monitorPeriod_congr (get_recordMissing_of_ne (by decide) (by decide)), hperiod]
  · rw [if_neg hdue]
    exact .inr ⟨by omega, rfl⟩

/-- What leaves the cursor and the switch of the detection leaves the time series armed, if it keeps its identifier
and its period. -/
theorem Armed.keep (h : Armed i d ri period c) (hs : d'.server.Sane) (hcur : d'.cursors = d.cursors) {o : Obj}
    (ho : d'.server.ShowsAt i o) (hmdd : mddWatched o = true)
    (hsame : ∀ t ∈ d'.server.tree.nodes, t.id = i → t.ri = some ri ∧ monitorPeriod t.obj = period) :
    Armed i d' ri period c := by
  refine ⟨hs, fun t ht hi => ?_, hcur ▸ h.cursor⟩
  obtain ⟨hri, hperiod⟩ := hsame t ht hi
  exact ⟨hri, (mddWatched_congr ((ho t ht hi).get (by decide))).trans hmdd, hperiod⟩

/-- An update that does not name `mdd` leaves it. -/
theorem updatedTs_mdd {now : CStr} {kept : Json → List Json} {target pc ts : Obj} (h : updatedTs now kept target pc = .ok ts)
    (hmdd : pc.get .mdd = none) : ts.get .mdd = target.get .mdd := by
  obtain ⟨-, -, -, body, hb, -, rfl⟩ := updatedTs_cases h
  rw [Obj.get_updateResource_of_not_has ((hb .mdd (by decide)).trans hmdd), hmdd]
  rfl

/-- An event that is no tick leaves the cursor and takes nothing. -/
theorem Armed.aside (h : Armed i d ri period c) {a : DetectorAct} (ha : d.quiet fmt i a = true)
    (hd : d.step fmt i a = some d') (htick : ∀ clock, a ≠ .tick clock)
    (hsame : ∀ t ∈ d'.server.tree.nodes, t.id = i → t.ri = some ri ∧ monitorPeriod t.obj = period) :
    d'.recorded = d.recorded ∧ Armed i d' ri period c := by
  cases a with
  | tick clock => exact absurd rfl (htick clock)
  | arrive env clock req =>
    obtain ⟨hs, t, ht, hti, hcase⟩ := step_arrive h.sane hd
    rcases hcase with ⟨hcur, hrec, hshow⟩ | ⟨a, period, harrive, hp, -⟩
    · exact ⟨hrec, h.keep hs hcur hshow (h.watched t ht hti).2.1 hsame⟩
    · -- it arms the time series
      unfold quiet at ha
      dsimp only at ha
      rw [← hti, Server.node?_eq h.sane.ids ht, Option.bind_some, harrive, Option.all_some, hp] at ha
      cases ha
  | update env kept req =>
    simp only [step, Option.bind_eq_bind, Option.bind_eq_some_iff] at hd
    obtain ⟨t, ht, e, he, hd⟩ := hd
    obtain ⟨htm, hti⟩ := Server.node?_mem ht
    cases e with
    | endless => cases hd
    | reply s resp =>
      dsimp only at hd
      rcases Server.updateTs_shows he h.sane with ⟨r, hr, rfl⟩ | ⟨ts, ri', hts, -, hs', ho⟩
      · rw [hr] at hd
        cases hd
        exact ⟨rfl, h⟩
      · unfold quiet at ha
        dsimp only at ha
        rw [ht, Option.all_some, hts] at ha
        have hmdd : req.pc.has .mdd = false := by simpa [Except.isOk, Except.toBool] using ha
        rw [hts] at hd
        unfold restart at hd
        rw [if_neg (by rw [hmdd]; decide)] at hd
        cases hd
        refine ⟨rfl, h.keep hs' rfl (hti ▸ ho) ?_ hsame⟩
        rw [mddWatched_congr (updatedTs_mdd hts (Assoc.has_eq_false.mp hmdd))]
        exact (h.watched t htm hti).2.1
  | deleteTsi now req p =>
    obtain ⟨hs, hcur, hrec, hshow⟩ := step_deleteTsi h.sane hd
    refine ⟨hrec, hs, fun t ht hi => ?_, hcur ▸ h.cursor⟩
    obtain ⟨hri, hperiod⟩ := hsame t ht hi
    refine ⟨hri, ?_, hperiod⟩
    cases hn : d.server.node? i with
    | none =>
      have := hshow [(.mdd, .bool true)] fun n hn' hi' => by
        rw [← hi', Server.node?_eq h.sane.ids hn'] at hn
        cases hn
      exact (mddWatched_congr ((this t ht hi).get (by decide))).trans rfl
    | some n =>
      obtain ⟨hnm, hni⟩ := Server.node?_mem hn
      have hn' : d.server.ShowsAt i n.obj := fun m hm hmi => by
        rw [h.sane.ids.eq hm hnm (hmi.trans hni.symm)]
        exact .refl _
      exact (mddWatched_congr ((hshow n.obj hn' t ht hi).get (by decide))).trans (h.watched n hnm hni).2.1

/-! ## From one arming to the next -/

/-- The detection reads `mdd`, `pei` and `ri` where the arrival found them. -/
theorem get_detected (env : TsEnv) (a : Arrival) {k : Attr} (h₁ : k ≠ .mdlt) (h₂ : k ≠ .mdc) :
    (a.detected env).get k = a.ts.get k := by
  rw [Arrival.detected_eq]
  cases a.missed env with
  | none => rfl
  | some slot => exact get_recordMissing_of_ne h₁ h₂

/-- An instance that comes to the detection arms its time series: the deadline is one period and the grace away on the
clock of the CSE, the slot one period on. -/
theorem armed_of_arrive (hs : d.server.Sane) {env : Env} {clock : Int} {req : Req}
    (hd : d.step fmt i (.arrive env clock req) = some d') {t : RTNode} (ht : d.server.node? i = some t) {a : Arrival}
    (ha : arrivalTsi (d.env fmt env) req d.server t = some a) (hp : a.period = some period) (hri : a.tsRi.length ≤ 255) :
    Armed i d' a.tsRi (monitorPeriod a.ts) ⟨clock + period + graceOf a.ts, a.slot (d.env fmt env) + period⟩ := by
  obtain ⟨htm, hti⟩ := Server.node?_mem ht
  simp only [step, ht, Option.bind_eq_bind, Option.bind_some, Option.bind_eq_some_iff] at hd
  obtain ⟨e, he, hd⟩ := hd
  cases e with
  | endless => cases hd
  | reply s resp =>
    obtain ⟨hs', hcase⟩ := Server.createTsi_shows hs htm he
    rcases hcase with ⟨hnone, -⟩ | ⟨a', ha', hsame, hshow⟩
    · rw [ha] at hnone
      cases hnone
    · cases ha.symm.trans ha'
      rw [ha] at hd
      cases hd
      have hget : ∀ t' ∈ s.tree.nodes, t'.id = i → ∀ k ∈ missingAttrs, k ≠ .mdlt → k ≠ .mdc → t'.obj.get k = a.ts.get k :=
        fun t' ht' hi k hk h₁ h₂ => ((hshow t' ht' (hi.trans hti.symm)).get hk).trans (get_detected _ a h₁ h₂)
      refine ⟨hs', fun t' ht' hi => ⟨?_, ?_, monitorPeriod_congr (hget t' ht' hi .pei (by decide) (by decide) (by decide))⟩, ?_⟩
      · refine (Obj.str_congr (hget t' ht' hi .ri (by decide) (by decide) (by decide))).trans ?_
        exact (Obj.str_congr (hsame.get (by decide))).trans (arrivalTsi_ri ha)
      · rw [mddWatched_congr (hget t' ht' hi .mdd (by decide) (by decide) (by decide))]
        exact a.mddWatched_of_period hp
      · unfold detect
        rw [hp]
        exact get_putEntry_self hri

/-- The slots of the first points after an arming, one period apart. -/
def slotsFrom (first period : Int) (k : Nat) : List Int := (List.range k).map fun j => first + j * period

theorem slotsFrom_succ (first period : Int) (k : Nat) :
    slotsFrom first period (k + 1) = slotsFrom first period k ++ [first + k * period] := by
  simp [slotsFrom, List.range_succ]

/-- The cursor after some points. -/
def Cursor.after (c : Cursor) (period : Int) (k : Nat) : Cursor := ⟨c.deadline + k * period, c.expected + k * period⟩

theorem Cursor.after_succ (c : Cursor) (period : Int) (k : Nat) :
    Cursor.after c period (k + 1) = ⟨(Cursor.after c period k).deadline + period, (Cursor.after c period k).expected + period⟩ := by
  simp only [Cursor.after, Cursor.mk.injEq]
  rw [Nat.cast_succ, Int.add_mul, Int.one_mul]
  constructor <;> omega

/-- The slots taken since the arming are the first ones, and the cursor stands behind them. -/
theorem armed_of_run (h₀ : Armed i d₀ ri period c) (hp : 0 < period) (hc : 0 < c.deadline)
    (hrun : Relation.ReflTransGen (Between fmt i ri period) d₀ d) :
    ∃ k : Nat, d.recorded = d₀.recorded ++ slotsFrom c.expected period k ∧ Armed i d ri period (Cursor.after c period k) := by
  induction hrun with
  | refl => exact ⟨0, by simp [slotsFrom], by simpa [Cursor.after] using h₀⟩
  | tail _ hstep ih =>
    obtain ⟨k, hrec, h⟩ := ih
    obtain ⟨a, ha, hd, hsame⟩ := hstep
    by_cases htick : ∃ clock, a = .tick clock
    · obtain ⟨clock, rfl⟩ := htick
      have hpos : 0 < (Cursor.after c period k).deadline := by
        have : 0 ≤ (k : Int) * period := Int.mul_nonneg (Int.natCast_nonneg k) hp.le
        simp only [Cursor.after]
        omega
      rcases h.tick hp hpos hd with ⟨-, hrec', h'⟩ | ⟨-, rfl⟩
      · refine ⟨k + 1, ?_, Cursor.after_succ c period k ▸ h'⟩
        rw [hrec', hrec, slotsFrom_succ, List.append_assoc]
        rfl
      · exact ⟨k, hrec, h⟩
    · obtain ⟨hrec', h'⟩ := h.aside ha hd (fun clock he => htick ⟨clock, he⟩) hsame
      exact ⟨k, hrec'.trans hrec, h'⟩

/-- At every tick between two armings of a time series: the points taken so far are the slots in their order, one
period apart from the one of the arming, and the tick takes the next one if its deadline, as many periods after that of
the arming, has come, and nothing otherwise. -/
theorem points_of_armed_run (h₀ : Armed i d₀ ri period c) (hp : 0 < period) (hc : 0 < c.deadline)
    (hrun : Relation.ReflTransGen (Between fmt i ri period) d₀ d) {clock : Int} (htick : d.step fmt i (.tick clock) = some d') :
    ∃ k : Nat, d.recorded = d₀.recorded ++ slotsFrom c.expected period k ∧
      d'.recorded = d.recorded ++
        if c.deadline + k * period ≤ clock then [c.expected + k * period] else [] := by
  obtain ⟨k, hrec, h⟩ := armed_of_run h₀ hp hc hrun
  refine ⟨k, hrec, ?_⟩
  have hpos : 0 < (Cursor.after c period k).deadline := by
    have : 0 ≤ (k : Int) * period := Int.mul_nonneg (Int.natCast_nonneg k) hp.le
    simp only [Cursor.after]
    omega
  rcases h.tick hp hpos htick with ⟨hdue, hrec', -⟩ | ⟨hnot, rfl⟩
  · rw [hrec', if_pos (show c.deadline + k * period ≤ clock from hdue)]
    rfl
  · rw [if_neg (by simpa [Cursor.after] using hnot), List.append_nil]

/-- From an instance that arms a time series whose identifier fits a cursor, up to the next arming: the points taken are
the slots in their order, the first one period after the instance's and each a period on; a tick takes the next one if
its deadline, as many periods after that of the arming, has come, and nothing otherwise. -/
theorem points_of_arrival_run (hs : d.server.Sane) {env : Env} {clock₀ : Int} {req : Req}
    (hd : d.step fmt i (.arrive env clock₀ req) = some d₀) {t : RTNode} (ht : d.server.node? i = some t) {a : Arrival}
    (ha : arrivalTsi (d.env fmt env) req d.server t = some a) (hp : a.period = some period)
    (hri : a.tsRi.length ≤ 255) (hpos : 0 < monitorPeriod a.ts) (hc : 0 < clock₀ + period + graceOf a.ts) {d₁ : Detector}
    (hrun : Relation.ReflTransGen (Between fmt i a.tsRi (monitorPeriod a.ts)) d₀ d₁) {clock : Int}
    (htick : d₁.step fmt i (.tick clock) = some d') :
    ∃ k : Nat,
      d₁.recorded = d₀.recorded ++ slotsFrom (a.slot (d.env fmt env) + period) (monitorPeriod a.ts) k ∧
      d'.recorded = d₁.recorded ++
        if clock₀ + period + graceOf a.ts + k * monitorPeriod a.ts ≤ clock then
          [a.slot (d.env fmt env) + period + k * monitorPeriod a.ts] else [] :=
  points_of_armed_run (armed_of_arrive hs hd ht ha hp hri) hpos hc hrun htick

/-- The event that arms the time series of the first day. -/
def firstInstance : DetectorAct := .arrive firstDay 1704067200000000 (tsiReq "a" "20240101T000000" 0)

/-- The time series goes by this identifier, and its period is a second. -/
def keepsSecond (ri : CStr) (d : Detector) : Bool :=
  d.server.tree.nodes.all fun t => t.id ≠ 2 || (t.ri = some ri && monitorPeriod t.obj = 1000000)

theorem between_of_tick {clock : Int} (h : d.step fmt 2 (.tick clock) = some d') (hk : keepsSecond ri d' = true) :
    Between fmt 2 ri 1000000 d d' := by
  refine ⟨.tick clock, rfl, h, fun t ht hi => ?_⟩
  have := List.all_eq_true.mp hk t ht
  simpa [hi] using this

/-- Two ticks after the first instance, the second one three periods late, and a third tick. -/
theorem points_of_arrival_run_late : ∃ (d₀ d d' : Detector) (ri : CStr) (c : Cursor),
    Relation.ReflTransGen (Between firstSeconds 2 ri 1000000) d₀ d ∧ d.recorded = [1704067201000000, 1704067202000000] ∧
    ∃ k : Nat, d.recorded = d₀.recorded ++ slotsFrom c.expected 1000000 k ∧
      d'.recorded = d.recorded ++
        if c.deadline + k * 1000000 ≤ 1704067204600000 then [c.expected + k * 1000000] else [] := by
  have hrun : (watchedServer.bind fun s => (s.node? 2).bind fun t =>
      (arrivalTsi (Detector.env firstSeconds ⟨s, [], []⟩ firstDay) (tsiReq "a" "20240101T000000" 0) s t).bind fun a =>
      (step firstSeconds 2 ⟨s, [], []⟩ firstInstance).bind fun d₀ =>
      (d₀.step firstSeconds 2 (.tick 1704067201500000)).bind fun d₁ =>
      (d₁.step firstSeconds 2 (.tick 1704067204500000)).bind fun d =>
      (d.step firstSeconds 2 (.tick 1704067204600000)).map fun d' =>
        restarts s && a.period = some 1000000 && a.tsRi.length ≤ 255 && monitorPeriod a.ts = 1000000 &&
          0 < 1704067200000000 + 1000000 + graceOf a.ts && keepsSecond a.tsRi d₁ && keepsSecond a.tsRi d &&
          d.recorded = [1704067201000000, 1704067202000000]) = some true := by
    decide +kernel
  obtain ⟨s, -, hrun⟩ := Option.bind_eq_some_iff.mp hrun
  obtain ⟨t, ht, hrun⟩ := Option.bind_eq_some_iff.mp hrun
  obtain ⟨a, ha, hrun⟩ := Option.bind_eq_some_iff.mp hrun
  obtain ⟨d₀, h₀, hrun⟩ := Option.bind_eq_some_iff.mp hrun
  obtain ⟨d₁, h₁, hrun⟩ := Option.bind_eq_some_iff.mp hrun
  obtain ⟨d, h₂, hrun⟩ := Option.bind_eq_some_iff.mp hrun
  obtain ⟨d', h₃, hrun⟩ := Option.map_eq_some_iff.mp hrun
  simp only [Bool.and_eq_true, decide_eq_true_eq] at hrun
  obtain ⟨⟨⟨⟨⟨⟨⟨hs, hp⟩, hri⟩, hperiod⟩, hpos⟩, hk₁⟩, hk₂⟩, hrec⟩ := hrun
  have hreach := (Relation.ReflTransGen.single (between_of_tick h₁ hk₁)).tail (between_of_tick h₂ hk₂)
  have hpoints := @points_of_arrival_run firstSeconds 2 ⟨s, [], []⟩ d' d₀ 1000000 (restarted_of_test (i := 2) hs).sane
    firstDay _ _ h₀ t ht a ha hp hri (by rw [hperiod]; decide) hpos d (by rw [hperiod]; exact hreach) _ h₃
  rw [hperiod] at hpoints
  exact ⟨d₀, d, d', a.tsRi, ⟨1704067200000000 + 1000000 + graceOf a.ts, _⟩, hreach, hrec, hpoints⟩

/-- The same time series with an identifier of 256 characters. -/
def longServer : Option Server := do
  let s ← boot firstDay
  let cb ← s.node? 0
  let (s, _) ← s.createTs firstDay (adminReq .create "TinyIoT" .ts ((.ri, .str (List.replicate 256 'x')) :: everySecond)) cb
  return s

/-- The first instance arms it, and a tick after the deadline finds no cursor. -/
theorem no_points_of_long_ri : ∃ (s : Server) (t : RTNode) (a : Arrival) (d₀ d' : Detector), longServer = some s ∧
    s.Sane ∧ s.node? 2 = some t ∧
    arrivalTsi (Detector.env firstSeconds ⟨s, [], []⟩ firstDay) (tsiReq "a" "20240101T000000" 0) s t = some a ∧
    a.period = some 1000000 ∧ step firstSeconds 2 ⟨s, [], []⟩ firstInstance = some d₀ ∧
    1704067200000000 + 1000000 + graceOf a.ts ≤ 1704067204500000 ∧
    d₀.step firstSeconds 2 (.tick 1704067204500000) = some d' ∧ d'.recorded = d₀.recorded := by
  have hrun : (longServer.bind fun s => (s.node? 2).bind fun t =>
      (arrivalTsi (Detector.env firstSeconds ⟨s, [], []⟩ firstDay) (tsiReq "a" "20240101T000000" 0) s t).bind fun a =>
      (step firstSeconds 2 ⟨s, [], []⟩ firstInstance).bind fun d₀ =>
      (d₀.step firstSeconds 2 (.tick 1704067204500000)).map fun d' =>
        restarts s && a.period = some 1000000 &&
          1704067200000000 + 1000000 + graceOf a.ts ≤ 1704067204500000 && d'.recorded = d₀.recorded) = some true := by
    decide +kernel
  obtain ⟨s, hserver, hrun⟩ := Option.bind_eq_some_iff.mp hrun
  obtain ⟨t, ht, hrun⟩ := Option.bind_eq_some_iff.mp hrun
  obtain ⟨a, ha, hrun⟩ := Option.bind_eq_some_iff.mp hrun
  obtain ⟨d₀, h₀, hrun⟩ := Option.bind_eq_some_iff.mp hrun
  obtain ⟨d', h₁, hrun⟩ := Option.map_eq_some_iff.mp hrun
  simp only [Bool.and_eq_true, decide_eq_true_eq] at hrun
  obtain ⟨⟨⟨hs, hp⟩, hdue⟩, hrec⟩ := hrun
  exact ⟨s, t, a, d₀, d', hserver, (restarted_of_test (i := 2) hs).sane, ht, ha, hp, h₀, hdue, h₁, hrec⟩

end Detector

end TinyIoT
