/-
A time series watched by two detectors: `create_tsi` compares each instance with the grid, and the
monitoring thread records a slot when its deadline passes without an instance. The cursor that hands the
next slot from the one to the other is the list of `monitor.c`; an update of `mdd` drops it.
-/
import TinyIoT.Monitor.Missing
import TinyIoT.Server.Boot

namespace TinyIoT

/-! ## The cursors -/

/-- `ts_md_cursor_t`: the deadline on the clock of the CSE, the slot on the clock of the sender. -/
structure Cursor where
  deadline : Int
  expected : Int
  deriving DecidableEq, Repr

abbrev Cursors := List (CStr × Cursor)

/-- `ts_md_is_armed`. -/
def tsMdIsArmed (m : Cursors) (ri : CStr) : Bool := Assoc.has m ri

/-- `ts_md_arm`. -/
def tsMdArm (m : Cursors) (ri : CStr) (deadline expected : Int) : Cursors := putEntry m ri ⟨deadline, expected⟩

/-- `ts_md_disarm`; the running total it forgets is not part of the time series. -/
def tsMdDisarm (m : Cursors) (ri : CStr) : Cursors := Assoc.del m ri

/-- `ts_md_take_due`: the slot that is overdue, with the cursor moved on by one period. -/
def tsMdTakeDue (m : Cursors) (ri : CStr) (now pei : Int) : Option (Int × Cursors) :=
  match Assoc.get m ri with
  | none => none
  | some c =>
    if 0 < pei ∧ 0 < c.deadline ∧ c.deadline ≤ now then
      some (c.expected, Assoc.set m ri ⟨c.deadline + pei, c.expected + pei⟩)
    else none

theorem tsMdTakeDue_some {m m' : Cursors} {ri : CStr} {now pei slot : Int} (h : tsMdTakeDue m ri now pei = some (slot, m')) :
    0 < pei ∧ ∃ c, Assoc.get m ri = some c ∧ c.expected = slot ∧ ∃ c', Assoc.get m' ri = some c' ∧ c'.expected = slot + pei := by
  unfold tsMdTakeDue at h
  split at h
  · cases h
  · rename_i c hc
    split at h
    · rename_i hdue
      cases h
      exact ⟨hdue.1, c, hc, rfl, _, Assoc.get_set_self hc, rfl⟩
    · cases h

/-! ## What the two detectors read -/

/-- The slot of an instance on the grid. -/
def gridSlot (env : TsEnv) (db : Db) (tsRi : CStr) (pei : Int) (dgt : Option CStr) (snr : Int) : Int :=
  let current := (dgt.map env.parseTime).getD 0
  let anchor := ((db.dbTsiGetFirstCt tsRi).map env.parseTime).getD current
  let anchor := if anchor ≤ 0 then current else anchor
  anchor + cInt (snr - db.dbTsiGetMinSnr tsRi) * (pei * 1000)

theorem missedSlot_some {env : TsEnv} {db : Db} {ts : Obj} {tsRi : CStr} {pei : Int} {dgt : Option CStr} {snr slot : Int}
    (h : missedSlot env db ts tsRi pei dgt snr = some slot) : slot = gridSlot env db tsRi pei dgt snr := by
  unfold missedSlot at h
  exact (Option.some.inj (Option.ite_none_right_eq_some.mp h).2).symm

/-- `pei` in microseconds as `create_tsi` has it, if the detection runs. -/
def Arrival.period (a : Arrival) : Option Int :=
  match a.ts.get .mdd, a.ts.get .pei with
  | some mdd, some pei => if mdd.isTrue ∧ 0 < pei.valueint then some (pei.valueint * 1000) else none
  | _, _ => none

/-- The slot of the instance. -/
def Arrival.slot (env : TsEnv) (a : Arrival) : Int :=
  gridSlot env a.db a.tsRi (((a.ts.get .pei).map Json.valueint).getD 0) a.dgt a.snr

/-- The slot recorded as missing because the instance is off it. -/
def Arrival.missed (env : TsEnv) (a : Arrival) : Option Int :=
  match a.period with
  | none => none
  | some _ => missedSlot env a.db a.ts a.tsRi (((a.ts.get .pei).map Json.valueint).getD 0) a.dgt a.snr

/-- The grace period: `mdt`, or the tolerance of the grid where there is no `mdt`. -/
def graceOf (ts : Obj) : Int :=
  match (ts.get .mdt).bind Json.number with
  | some v => if 0 < v then v.num.tdiv v.den * 1000 else ((ts.get .peid).map fun j => j.valueint * 1000).getD 0
  | none => ((ts.get .peid).map fun j => j.valueint * 1000).getD 0

/-- `pei` in microseconds as the monitoring thread has it. -/
def monitorPeriod (ts : Obj) : Int :=
  match (ts.get .pei).bind Json.number with
  | some v => v.num.tdiv v.den * 1000
  | none => 0

namespace Arrival

variable {env : TsEnv} {a : Arrival} {period slot : Int}

theorem detected_eq : a.detected env =
    ((a.missed env).map fun slot => recordMissing a.ts (env.isoTime slot)).getD a.ts := by
  unfold detected detectMissing missed period
  cases hm : a.ts.get .mdd with
  | none => rfl
  | some mdd =>
    cases hp : a.ts.get .pei with
    | none => rfl
    | some pei =>
      dsimp only
      by_cases hon : mdd.isTrue ∧ 0 < pei.valueint
      · rw [if_pos hon, if_pos hon]
        dsimp only [Option.map_some, Option.getD_some]
        cases missedSlot env a.db a.ts a.tsRi pei.valueint a.dgt a.snr <;> rfl
      · rw [if_neg hon, if_neg hon]
        rfl

theorem period_pos (h : a.period = some period) : 0 < period := by
  unfold Arrival.period at h
  split at h
  · split at h
    · cases h
      omega
    · cases h
  · cases h

theorem missed_some (h : a.missed env = some slot) : slot = a.slot env ∧ ∃ period, a.period = some period := by
  unfold missed at h
  split at h
  · cases h
  · rename_i p hp
    exact ⟨missedSlot_some h, p, hp⟩

end Arrival

/-! ## Runs -/

/-- How times are read and written: `parse_time_to_us_tsi`, `us_to_iso8601_tsi` and
`us_to_iso8601_monitor`. -/
structure TimeFormat where
  parseTime : CStr → Int
  isoTsi : Int → CStr
  isoMonitor : Int → CStr

/-- The server with the cursors; `recorded` has the slots recorded as missing since `mdd` last changed. -/
structure Detector where
  server : Server
  cursors : Cursors
  recorded : List Int

/-- What can happen to a time series. -/
inductive DetectorAct where
  | arrive (env : Env) (clock : Int) (req : Req)
  | tick (clock : Int)
  | update (env : Env) (kept : Json → List Json) (req : Req)
  | deleteTsi (now : CStr) (req : Req) (p : Ptr)

namespace Detector

variable (fmt : TimeFormat) (i : Nat)

/-- The environment of `create_tsi`. -/
def env (d : Detector) (env : Env) : TsEnv :=
  { env with parseTime := fmt.parseTime, isoTime := fmt.isoTsi, armed := tsMdIsArmed d.cursors }

/-- The detection at the arrival of an instance: the slot it is off is recorded, the next one armed. -/
def detect (d : Detector) (env : TsEnv) (clock : Int) (a : Arrival) : Detector :=
  match a.period with
  | none => d
  | some period => { d with
      cursors := tsMdArm d.cursors a.tsRi (clock + period + graceOf a.ts) (a.slot env + period)
      recorded := d.recorded ++ (a.missed env).toList }

/-- The visit of `traverse_and_check_ts_missing` to the time series. -/
def check (d : Detector) (t : RTNode) (clock : Int) : Detector :=
  if mddWatched t.obj then
    match t.ri with
    | none => d
    | some ri =>
      match tsMdTakeDue d.cursors ri clock (monitorPeriod t.obj) with
      | none => d
      | some (slot, cursors) =>
        let ts := recordMissing t.obj (fmt.isoMonitor slot)
        { server := { d.server.setObj t.id ts with db := d.server.db.dbUpdateResource ts ri }
          cursors := cursors
          recorded := d.recorded ++ [slot] }
  else d

/-- What an update does to the cursors. -/
def restart (d : Detector) (t : RTNode) (body : Obj) : Detector :=
  if body.has .mdd then
    { d with cursors := (t.ri.map fun ri => tsMdDisarm d.cursors ri).getD d.cursors, recorded := [] }
  else d

/-- One event at the time series with the address `i`; `none` when it cannot happen or is not answered. -/
def step (d : Detector) : DetectorAct → Option Detector
  | .arrive env clock req => do
    let t ← d.server.node? i
    match ← d.server.createTsi (d.env fmt env) req t with
    | .endless => none
    | .reply s _ =>
      match arrivalTsi (d.env fmt env) req d.server t with
      | none => return { d with server := s }
      | some a => return { d.detect (d.env fmt env) clock a with server := s }
  | .tick clock => do
    let t ← d.server.node? i
    return d.check fmt t clock
  | .update env kept req => do
    let t ← d.server.node? i
    match ← d.server.updateTs env kept req t with
    | .endless => none
    | .reply s _ =>
      match updatedTs env.now kept t.obj req.pc with
      | .error _ => return { d with server := s }
      | .ok _ => return { d.restart t req.pc with server := s }
  | .deleteTsi now req p => do
    let n ← p.deref d.server
    if n.ty = .tsi then
      let (s, _) ← d.server.deleteOnem2mResource now req p
      return { d with server := s }
    else none

/-! ## What a step does -/

variable {fmt : TimeFormat} {i : Nat} {d d' : Detector}

theorem arrivalTsi_ri {env : TsEnv} {req : Req} {s : Server} {t : RTNode} {a : Arrival} (h : arrivalTsi env req s t = some a) :
    t.ri = some a.tsRi := by
  unfold arrivalTsi at h
  split at h
  · cases h
  · split at h
    · cases h
    · simp only [Option.bind_eq_bind, Option.bind_eq_some_iff] at h
      obtain ⟨tsRi, htri, h⟩ := h
      split at h
      · cases h
      · simp only [Option.bind_eq_some_iff] at h
        obtain ⟨con, -, mbs, -, h⟩ := h
        split at h
        · cases h
        · split at h
          · cases h
          · simp only [Option.bind_eq_some_iff, Option.pure_def, Option.some.injEq] at h
            obtain ⟨_, -, rn, -, db, -, rfl⟩ := h
            exact htri

/-- An arrival without the detection leaves the time series and the cursors; with it, the slot is recorded
where the instance is off it, and the next one armed. -/
theorem step_arrive {env : Env} {clock : Int} {req : Req} (hs : d.server.Sane)
    (h : d.step fmt i (.arrive env clock req) = some d') : d'.server.Sane ∧ ∃ t ∈ d.server.tree.nodes, t.id = i ∧
      (d'.cursors = d.cursors ∧ d'.recorded = d.recorded ∧ d'.server.ShowsAt i t.obj ∨
        ∃ a period, arrivalTsi (d.env fmt env) req d.server t = some a ∧ a.period = some period ∧ SameMissing t.obj a.ts ∧
          d'.server.ShowsAt i (a.detected (d.env fmt env)) ∧
          d'.cursors = tsMdArm d.cursors a.tsRi (clock + period + graceOf a.ts) (a.slot (d.env fmt env) + period) ∧
          d'.recorded = d.recorded ++ (a.missed (d.env fmt env)).toList) := by
  simp only [step, Option.bind_eq_bind, Option.bind_eq_some_iff] at h
  obtain ⟨t, ht, e, he, h⟩ := h
  obtain ⟨htm, hti⟩ := Server.node?_mem ht
  cases e with
  | endless => cases h
  | reply s resp =>
    obtain ⟨hs', hcase⟩ := Server.createTsi_shows hs htm he
    rw [hti] at hcase
    dsimp only at h
    rcases hcase with ⟨hnone, ho⟩ | ⟨a, ha, hsame, ho⟩
    · rw [hnone] at h
      cases h
      exact ⟨hs', t, htm, hti, .inl ⟨rfl, rfl, ho⟩⟩
    · rw [ha] at h
      cases h
      refine ⟨hs', t, htm, hti, ?_⟩
      cases hp : a.period with
      | none =>
        have hm : a.missed (d.env fmt env) = none := by
          unfold Arrival.missed
          rw [hp]
        rw [Arrival.detected_eq, hm] at ho
        refine .inl ⟨?_, ?_, ho.mono hsame⟩
        · unfold detect
          rw [hp]
        · unfold detect
          rw [hp]
      | some period =>
        refine .inr ⟨a, period, ha, hp, hsame, ho, ?_, ?_⟩
        · unfold detect
          rw [hp]
        · unfold detect
          rw [hp]

/-- A visit records the slot that is overdue, if there is one. -/
theorem step_tick {clock : Int} (hs : d.server.Sane) (h : d.step fmt i (.tick clock) = some d') :
    d' = d ∨ ∃ t ∈ d.server.tree.nodes, t.id = i ∧ ∃ ri slot, t.ri = some ri ∧
      tsMdTakeDue d.cursors ri clock (monitorPeriod t.obj) = some (slot, d'.cursors) ∧ d'.server.Sane ∧
      d'.server.ShowsAt i (recordMissing t.obj (fmt.isoMonitor slot)) ∧ d'.recorded = d.recorded ++ [slot] := by
  simp only [step, Option.bind_eq_bind, Option.bind_eq_some_iff, Option.pure_def, Option.some.injEq] at h
  obtain ⟨t, ht, rfl⟩ := h
  obtain ⟨htm, hti⟩ := Server.node?_mem ht
  unfold check
  split
  · cases hri : t.ri with
    | none => exact .inl rfl
    | some ri =>
      dsimp only
      cases hdue : tsMdTakeDue d.cursors ri clock (monitorPeriod t.obj) with
      | none => exact .inl rfl
      | some r =>
        obtain ⟨slot, m⟩ := r
        refine .inr ⟨t, htm, hti, ri, slot, hri, hdue, ?_, ?_, rfl⟩
        · exact (hs.setObj t.id _).congr rfl le_rfl
        · have hshow := Server.showsAt_setObj d.server t.id (recordMissing t.obj (fmt.isoMonitor slot))
          rw [hti] at hshow
          exact hshow.congr (by rw [hti])
  · exact .inl rfl

/-- An update that is refused changes nothing; another one leaves the object it computes. -/
theorem step_update {env : Env} {kept : Json → List Json} {req : Req} (hs : d.server.Sane)
    (h : d.step fmt i (.update env kept req) = some d') :
    d' = d ∨ ∃ t ∈ d.server.tree.nodes, t.id = i ∧ ∃ ts, updatedTs env.now kept t.obj req.pc = .ok ts ∧
      d'.server.Sane ∧ d'.server.ShowsAt i ts := by
  simp only [step, Option.bind_eq_bind, Option.bind_eq_some_iff] at h
  obtain ⟨t, ht, e, he, h⟩ := h
  obtain ⟨htm, hti⟩ := Server.node?_mem ht
  cases e with
  | endless => cases h
  | reply s resp =>
    dsimp only at h
    rcases Server.updateTs_shows he hs with ⟨r, hr, rfl⟩ | ⟨ts, ri, hts, -, hs', ho⟩
    · rw [hr] at h
      cases h
      exact .inl rfl
    · rw [hts] at h
      cases h
      rw [hti] at ho
      exact .inr ⟨t, htm, hti, ts, hts, hs', ho⟩

/-- The deletion of an instance leaves the time series as far as the detection is concerned. -/
theorem step_deleteTsi {now : CStr} {req : Req} {p : Ptr} (hs : d.server.Sane)
    (h : d.step fmt i (.deleteTsi now req p) = some d') :
    d'.server.Sane ∧ d'.cursors = d.cursors ∧ d'.recorded = d.recorded ∧
      ∀ o, d.server.ShowsAt i o → d'.server.ShowsAt i o := by
  simp only [step, Option.bind_eq_bind, Option.bind_eq_some_iff] at h
  obtain ⟨n, hn, h⟩ := h
  split at h
  · rename_i hty
    simp only [Option.bind_eq_some_iff, Option.pure_def, Option.some.injEq] at h
    obtain ⟨⟨s, resp⟩, hd, rfl⟩ := h
    have hspares := Server.spares_deleteOnem2mResource hs.ids hn (by rw [hty]; decide) hd
    exact ⟨hspares.sane hs, rfl, rfl, fun o ho => hspares.showsAt ho⟩
  · cases h

/-- A step of a run given by its events, those only that pass a test. -/
def stepIf (fmt : TimeFormat) (i : Nat) (ok : Detector → DetectorAct → Bool) (d : Detector) (a : DetectorAct) : Option Detector :=
  if ok d a then d.step fmt i a else none

theorem stepIf_eq_some {ok : Detector → DetectorAct → Bool} {a : DetectorAct} (h : d.stepIf fmt i ok a = some d') :
    ok d a = true ∧ d.step fmt i a = some d' := by
  unfold stepIf at h
  split at h
  · rename_i ha
    exact ⟨ha, h⟩
  · cases h

end Detector

/-! ## A time series of the first day -/

/-- The body of a time series with a point every second, half a second of grace, and room for ten missing
points. -/
def everySecond : Obj :=
  [(.rn, .str "t".toList), (.pei, .int 1000), (.mdd, .bool true), (.mdt, .int 500), (.mdn, .int 10)]

/-- The server with this time series at address 2. -/
def watchedServer : Option Server := do
  let s ← boot firstDay
  let cb ← s.node? 0
  let (s, _) ← s.createTs firstDay (adminReq .create "TinyIoT" .ts everySecond) cb
  return s

/-- A request for the instance with this number, generated at this time. -/
def tsiReq (rn dgt : String) (snr : Int) : Req :=
  adminReq .create "TinyIoT/t" .tsi
    [(.rn, .str rn.toList), (.dgt, .str dgt.toList), (.snr, .int snr), (.con, .str "21".toList)]

/-- The first seconds of 2024. -/
def firstSeconds : TimeFormat where
  parseTime s :=
    if s = "20240101T000000".toList then 1704067200000000
    else if s = "20240101T000001,600".toList then 1704067201600000
    else if s = "20240101T000002".toList then 1704067202000000
    else 0
  isoTsi us := if us = 1704067201000000 then "20240101T000001".toList else "20240101T000002".toList
  isoMonitor us := if us = 1704067201000000 then "20240101T000001,000000".toList else "20240101T000002,000000".toList

end TinyIoT
