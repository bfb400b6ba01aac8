/-
The slots recorded as missing between two changes of `mdd`: in every interleaving of arrivals and visits
of the monitoring thread none is recorded twice, as long as the instances come in order, none for a slot that is
behind the recorded ones. The cursor then stays in front of them, since a visit moves it on by the period
and records the slot it leaves.
-/
import TinyIoT.Monitor.Grid

namespace TinyIoT

/-! ## The slots in front of the cursor -/

/-- A cursor at `next` comes to the slot, one period after another. -/
def onward (period next slot : Int) : Bool := 0 < period && next ≤ slot && (slot - next) % period = 0

theorem onward_step {period next slot : Int} (h : onward period (next + period) slot = true) :
    onward period next slot = true := by
  simp only [onward, Bool.and_eq_true, decide_eq_true_eq] at h ⊢
  obtain ⟨⟨hp, hle⟩, hmod⟩ := h
  refine ⟨⟨hp, by omega⟩, ?_⟩
  rw [show slot - next = slot - (next + period) + period by omega, Int.add_emod_right]
  exact hmod

theorem onward_self {period slot : Int} (h : 0 < period) : onward period slot slot = true := by
  simp [onward, h]

theorem not_onward_of_lt {period next slot : Int} (h : slot < next) : onward period next slot = false := by
  simp only [onward, Bool.and_eq_false_iff, decide_eq_false_iff_not]
  exact .inl (.inr (by omega))

/-- A request for an instance comes in order: the slot it is for is later than every recorded one, or it is the last of them
and `dgt` is not off it. -/
def comesInOrder (env : TsEnv) (db : Db) (t : RTNode) (req : Req) (recorded : List Int) : Bool :=
  (detectionPeriod t.obj).all fun period => t.ri.all fun tsRi =>
    let slot := slotFor env db tsRi period req.pc
    recorded.all fun r => r < slot || (r = slot && !offSlot env db t.obj tsRi slot req.pc)

/-- What reaches the detection in order is for no slot before a recorded one, and records none again. -/
theorem Arrival.after_recorded {env : TsEnv} {s : Server} {t : RTNode} {req : Req} {a : Arrival} {period : Int}
    {recorded : List Int} (ha : arrivalTsi env req s t = some a) (hp : a.period = some period)
    (h : comesInOrder env s.db t req recorded = true) {r : Int} (hr : r ∈ recorded) :
    r ≤ a.slot env ∧ a.missed env ≠ some r := by
  have hslot := slot_eq_slotFor ha hp
  unfold comesInOrder at h
  rw [← period_of_arrivalTsi ha, hp, (of_arrivalTsi ha).1] at h
  dsimp only [Option.all_some] at h
  rw [← hslot] at h
  have hr := List.all_eq_true.mp h r hr
  rcases (Bool.or_eq_true _ _).mp hr with hlt | hlast
  · have hlt := of_decide_eq_true hlt
    refine ⟨hlt.le, fun hm => ?_⟩
    have := (missed_some hm).1
    omega
  · obtain ⟨heq, hon⟩ := Bool.and_eq_true_iff.mp hlast
    refine ⟨(of_decide_eq_true heq).le, ?_⟩
    rw [missed_eq_none ha hp (by rw [← hslot]; simpa using hon)]
    exact fun h => by cases h

/-! ## The invariant -/

/-- The text of a slot, as one of the detectors writes it. -/
def TimeFormat.Reads (fmt : TimeFormat) (slot : Int) (j : Json) : Prop :=
  j = .str (fmt.isoTsi slot) ∨ j = .str (fmt.isoMonitor slot)

/-- The slots recorded and the list of the time series: it has the newest ones. -/
def Listed (fmt : TimeFormat) (recorded : List Int) (o : Obj) : Prop :=
  ∃ l, l <:+ recorded ∧ List.Forall₂ fmt.Reads l (mdltOf o)

theorem Listed.congr {fmt : TimeFormat} {recorded : List Int} {o o' : Obj} (h : Listed fmt recorded o)
    (ho : mdltOf o' = mdltOf o) : Listed fmt recorded o' := by
  unfold Listed
  rw [ho]
  exact h

theorem Listed.record {fmt : TimeFormat} {recorded : List Int} {o : Obj} (h : Listed fmt recorded o) {slot : Int} {time : CStr}
    (ht : fmt.Reads slot (.str time)) : Listed fmt (recorded ++ [slot]) (recordMissing o time) := by
  obtain ⟨l, ⟨pre, hpre⟩, hl⟩ := h
  have hall : List.Forall₂ fmt.Reads (l ++ [slot]) (mdltOf o ++ [.str time]) := List.rel_append hl (.cons ht .nil)
  refine ⟨trimTo o (l ++ [slot]), (trimTo_suffix o _).trans ⟨pre, ?_⟩, ?_⟩
  · rw [← List.append_assoc, hpre]
  · rw [mdltOf_recordMissing]
    exact forall₂_trimTo o hall

namespace Detector

variable (fmt : TimeFormat) (i : Nat)

/-- The recorded slots are distinct, and the cursor comes to none of them. -/
structure Ahead (d : Detector) : Prop where
  sane : d.server.Sane
  once : d.recorded.Nodup
  ahead : ∃ o, d.server.ShowsAt i o ∧ Listed fmt d.recorded o ∧
    ∀ ri ∈ o.str .ri, ∀ c ∈ Assoc.get d.cursors ri, ∀ slot ∈ d.recorded, onward (monitorPeriod o) c.expected slot = false

/-- Arrivals and visits of the monitoring thread. -/
def detects : DetectorAct → Bool
  | .arrive .. => true
  | .tick _ => true
  | _ => false

/-- An instance that is stored comes in order. -/
def inOrder (d : Detector) : DetectorAct → Bool
  | .arrive env _ req => (d.server.node? i).all fun t =>
    (arrivalTsi (d.env fmt env) req d.server t).isNone || comesInOrder (d.env fmt env) d.server.db t req d.recorded
  | _ => true

def Next (d d' : Detector) : Prop := ∃ a, detects a = true ∧ d.step fmt i a = some d'

def OrderedNext (d d' : Detector) : Prop :=
  ∃ a, detects a = true ∧ d.inOrder fmt i a = true ∧ d.step fmt i a = some d'

/-- After a change of `mdd`: nothing is recorded and the list is empty. -/
structure Restarted (d : Detector) : Prop where
  sane : d.server.Sane
  recorded : d.recorded = []
  mdlt : ∀ n ∈ d.server.tree.nodes, n.id = i → mdltOf n.obj = []

/-! ## Steps and runs -/

variable {fmt i} {d d' : Detector}

theorem Ahead.start (h : Restarted i d) : Ahead fmt i d := by
  refine ⟨h.sane, by rw [h.recorded]; exact List.nodup_nil, ?_⟩
  rw [h.recorded]
  have hlisted : ∀ o, mdltOf o = [] → Listed fmt [] o := by
    intro o ho
    refine ⟨[], List.suffix_refl _, ?_⟩
    rw [ho]
    exact .nil
  cases hn : d.server.node? i with
  | none =>
    refine ⟨[], fun n hn' hi => ?_, hlisted [] rfl, fun _ _ _ _ _ h => absurd h (List.not_mem_nil)⟩
    rw [← hi, Server.node?_eq h.sane.ids hn'] at hn
    cases hn
  | some t =>
    obtain ⟨htm, hti⟩ := Server.node?_mem hn
    refine ⟨t.obj, fun n hn' hi => ?_, hlisted _ (h.mdlt t htm hti), fun _ _ _ _ _ h => absurd h (List.not_mem_nil)⟩
    rw [h.sane.ids.eq hn' htm (hi.trans hti.symm)]
    exact .refl _

theorem sameMissing_ri {o o' : Obj} (h : SameMissing o o') : o'.str .ri = o.str .ri := Obj.str_congr (h.get (by decide))

theorem monitorPeriod_congr {o o' : Obj} (h : o'.get .pei = o.get .pei) : monitorPeriod o' = monitorPeriod o := by
  unfold monitorPeriod
  rw [h]

/-- A visit records the slot of the cursor, which comes to none recorded before, and moves it on. -/
theorem Ahead.tick (h : Ahead fmt i d) {clock : Int} (hd : d.step fmt i (.tick clock) = some d') : Ahead fmt i d' := by
  obtain ⟨o, ho, hlist, hahead⟩ := h.ahead
  rcases step_tick h.sane hd with rfl | ⟨t, ht, hti, ri, slot, hri, hdue, hs', ho', hr⟩
  · exact h
  · have hot : SameMissing o t.obj := ho t ht hti
    have hori : o.str .ri = some ri := (sameMissing_ri hot).symm.trans hri
    obtain ⟨hpos, c, hc, hce, c', hc', hce'⟩ := tsMdTakeDue_some hdue
    have hperiod : monitorPeriod t.obj = monitorPeriod o := monitorPeriod_congr (hot.get (by decide))
    have hold : ∀ r ∈ d.recorded, onward (monitorPeriod o) slot r = false := by
      rw [← hce]
      exact hahead ri hori c hc
    rw [hperiod] at hpos hce'
    have hnew : slot ∉ d.recorded := by
      intro hin
      have := hold slot hin
      rw [onward_self hpos] at this
      cases this
    refine ⟨hs', ?_, _, ho', ?_, ?_⟩
    · rw [hr]
      refine List.nodup_append.mpr ⟨h.once, List.nodup_singleton _, ?_⟩
      rintro r hrm y hy rfl
      cases List.mem_singleton.mp hy
      exact hnew hrm
    · rw [hr]
      exact (hlist.congr hot.mdlt).record (.inr rfl)
    · intro ri' hri' c'' hc'' r hrm
      rw [str_ri_recordMissing] at hri'
      cases hri.symm.trans hri'
      cases hc'.symm.trans hc''
      rw [monitorPeriod_congr (get_recordMissing_of_ne (by decide) (by decide)), hperiod, hce']
      rw [hr] at hrm
      rcases List.mem_append.mp hrm with hrm | hrm
      · cases hon : onward (monitorPeriod o) (slot + monitorPeriod o) r with
        | false => rfl
        | true => exact absurd (onward_step hon) (by rw [hold r hrm]; decide)
      · cases List.mem_singleton.mp hrm
        exact not_onward_of_lt (by omega)

theorem get_tsMdArm {m : Cursors} {ri : CStr} {deadline expected : Int} {c : Cursor}
    (h : Assoc.get (tsMdArm m ri deadline expected) ri = some c) : c = ⟨deadline, expected⟩ := by
  unfold tsMdArm putEntry at h
  by_cases hm : Assoc.has m ri = true
  · obtain ⟨w, hw⟩ := Assoc.has_iff.mp hm
    rw [if_pos hm, Assoc.get_set_self hw] at h
    exact (Option.some.inj h).symm
  · rw [if_neg hm, Assoc.get_cons] at h
    split at h
    · exact (Option.some.inj h).symm
    · exact absurd (Assoc.has_iff.mpr ⟨c, h⟩) hm

/-- An instance that comes in order leaves the cursor in front of the recorded slots. -/
theorem Ahead.arrive (h : Ahead fmt i d) {env : Env} {clock : Int} {req : Req}
    (hl : d.inOrder fmt i (.arrive env clock req) = true) (hd : d.step fmt i (.arrive env clock req) = some d') :
    Ahead fmt i d' := by
  obtain ⟨o, ho, hlist, hahead⟩ := h.ahead
  obtain ⟨hs', t, ht, hti, hcase⟩ := step_arrive h.sane hd
  have hot : SameMissing o t.obj := ho t ht hti
  rcases hcase with ⟨hc, hr, ho'⟩ | ⟨a, period, ha, hp, hsame, ho', hc, hr⟩
  · refine ⟨hs', by rw [hr]; exact h.once, o, ho'.mono hot, by rw [hr]; exact hlist, ?_⟩
    rw [hc, hr]
    exact hahead
  · have hn : d.server.node? i = some t := hti ▸ Server.node?_eq h.sane.ids ht
    have horder : ∀ r ∈ d.recorded, r ≤ a.slot (d.env fmt env) ∧ a.missed (d.env fmt env) ≠ some r := by
      simp only [inOrder, hn, ha, Option.all_some, Option.isNone_some, Bool.false_or] at hl
      exact fun r hr => Arrival.after_recorded ha hp hl hr
    have hoa : SameMissing o a.ts := hot.trans hsame
    have hpos := Arrival.period_pos hp
    have hri : a.ts.str .ri = some a.tsRi := (sameMissing_ri hsame).trans (arrivalTsi_ri ha)
    -- whatever is recorded now, the cursor armed for the next slot comes to none of it
    have hfront : ∀ o', o'.str .ri = a.ts.str .ri → o'.get .pei = a.ts.get .pei → (∀ x ∈ a.missed (d.env fmt env), x = a.slot (d.env fmt env)) →
        ∀ ri ∈ o'.str .ri, ∀ c ∈ Assoc.get d'.cursors ri, ∀ slot ∈ d'.recorded, onward (monitorPeriod o') c.expected slot = false := by
      intro o' ho'ri ho'pei hx ri hri' c hcur slot hslot
      cases hri.symm.trans (ho'ri.symm.trans hri')
      rw [hc] at hcur
      rw [get_tsMdArm hcur, monitorPeriod_congr ho'pei]
      rw [hr] at hslot
      rcases List.mem_append.mp hslot with hslot | hslot
      · have := (horder slot hslot).1
        exact not_onward_of_lt (by dsimp only; omega)
      · rw [hx slot (by simpa using hslot)]
        exact not_onward_of_lt (by dsimp only; omega)
    have hx : ∀ x ∈ a.missed (d.env fmt env), x = a.slot (d.env fmt env) := fun x hx => (Arrival.missed_some hx).1
    rw [Arrival.detected_eq] at ho'
    cases hm : a.missed (d.env fmt env) with
    | none =>
      rw [hm] at ho'
      rw [hm, Option.toList_none, List.append_nil] at hr
      refine ⟨hs', by rw [hr]; exact h.once, a.ts, ho', ?_, hfront _ rfl rfl hx⟩
      rw [hr]
      exact hlist.congr hoa.mdlt
    | some x =>
      rw [hm] at ho'
      rw [hm, Option.toList_some] at hr
      refine ⟨hs', ?_, _, ho', ?_, hfront _ (str_ri_recordMissing _ _) (get_recordMissing_of_ne (by decide) (by decide)) hx⟩
      · rw [hr]
        refine List.nodup_append.mpr ⟨h.once, List.nodup_singleton _, ?_⟩
        intro r hrm y hy he
        cases List.mem_singleton.mp hy
        exact (horder r hrm).2 (hm.trans (congrArg some he.symm))
      · rw [hr]
        exact (hlist.congr hoa.mdlt).record (.inl rfl)

/-- The start of a run, as a test. -/
def restarts (s : Server) : Bool :=
  decide (s.tree.nodes.map RTNode.id).Nodup && s.tree.nodes.all fun n => n.id < s.nextId && (mdltOf n.obj).isEmpty

theorem restarted_of_test {s : Server} (h : restarts s = true) : Restarted i ⟨s, [], []⟩ := by
  simp only [restarts, Bool.and_eq_true, decide_eq_true_eq, List.all_eq_true, List.isEmpty_iff] at h
  exact ⟨⟨h.1, fun n hn => (h.2 n hn).1⟩, rfl, fun n hn _ => (h.2 n hn).2⟩

/-- A run from a server by the events that pass a test. -/
def runFrom (fmt : TimeFormat) (i : Nat) (ok : Detector → DetectorAct → Bool) (s : Server) (l : List DetectorAct) :
    Option Detector :=
  if restarts s then l.foldlM (stepIf fmt i ok) ⟨s, [], []⟩ else none

theorem reach_of_runFrom {ok : Detector → DetectorAct → Bool} {step : Detector → Detector → Prop}
    (hok : ∀ d a d', ok d a = true → d.step fmt i a = some d' → step d d') {s : Server} {l : List DetectorAct}
    (h : runFrom fmt i ok s l = some d) : Reach (Restarted i) step d := by
  unfold runFrom at h
  split at h
  · rename_i hs
    refine Reach.of_foldlM ?_ l (.start (restarted_of_test hs)) h
    intro d a d' ha
    obtain ⟨ha, hd⟩ := stepIf_eq_some ha
    exact hok d a d' ha hd
  · cases h

/-- A point is missed and the next one comes in time. -/
def pauseAndResume : List DetectorAct :=
  [.arrive firstDay 1704067200000000 (tsiReq "a" "20240101T000000" 0), .tick 1704067201500000,
    .arrive firstDay 1704067202000000 (tsiReq "b" "20240101T000002" 2)]

/-- The monitoring thread gives a point up, and the instance that comes for it late records it again. -/
def lateInstance : List DetectorAct :=
  [.arrive firstDay 1704067200000000 (tsiReq "a" "20240101T000000" 0), .tick 1704067201500000,
    .arrive firstDay 1704067201600000 (tsiReq "b" "20240101T000001,600" 1)]

end Detector

end TinyIoT
