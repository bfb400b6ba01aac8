/-
The ranges of the numbers `create_tsi` computes: the number of an instance that comes without one is an `int`, its slot,
the window around it, the deadline and the slot that is armed are `long long`. What they are computed from is stored: the
numbers of the instances there are, the time the first of them arrived at, and the parameters of the time series.
-/
import TinyIoT.Monitor.Grid
import TinyIoT.Resource.Denials

namespace TinyIoT

/-- The range of `long long`. -/
def InLong (n : Int) : Prop := -9223372036854775808 ≤ n ∧ n < 9223372036854775808

/-! ## A creation that succeeds -/

namespace Arrival

variable {env : TsEnv} {req : Req} {s : Server} {t : RTNode} {a : Arrival}

/-- A creation that is answered with success comes to the detection. -/
theorem of_created {s' : Server} {r : Resp} (h : s.createTsi env req t = some (.reply s' r)) (hr : r.rsc = .created) :
    ∃ a, arrivalTsi env req s t = some a := by
  have hrefused : ∀ {s₁ : Server} {r₁ : Resp}, r₁.rsc ≠ .created → some (Outcome.reply s₁ r₁) ≠ some (.reply s' r) := by
    rintro s₁ r₁ hne he
    cases he
    exact hne hr
  unfold Server.createTsi at h
  unfold arrivalTsi
  split at h
  · exact absurd h (hrefused (by decide))
  · rename_i hty
    rw [if_neg hty]
    cases hman : validateMandatoryAttrs .tsi req.pc .create with
    | error r₁ =>
      rw [hman] at h
      have hno := denies_validateMandatoryAttrs _ _ _ _ hman
      exact absurd h (hrefused fun he => by simp [Resp.accepted, he] at hno)
    | ok _ =>
      simp only [hman, Option.bind_eq_bind, Option.bind_eq_some_iff] at h
      obtain ⟨tsRi, htri, h⟩ := h
      split at h
      · exact absurd h (hrefused (by decide))
      · rename_i hdgt
        simp only [Option.bind_eq_some_iff] at h
        obtain ⟨con, hcon, mbs, hmbs, h⟩ := h
        split at h
        · exact absurd h (hrefused (by decide))
        · rename_i hle
          simp only [htri, hdgt, hcon, hmbs, hle, Option.bind_eq_bind, Option.bind_some, if_false, Bool.false_eq_true]
          rw [Server.setObj_db] at h
          cases hsnr : tsiSnr s.db tsRi ((req.pc.del .cs).add .cs (.int con.length)) with
          | error r₁ =>
            rw [hsnr] at h
            refine absurd h (hrefused ?_)
            unfold tsiSnr at hsnr
            split at hsnr
            · cases hsnr
            · split at hsnr
              · cases hsnr
                decide
              · cases hsnr
            · cases hsnr
              decide
          | ok snr =>
            rw [hsnr] at h
            unfold Server.storeTsi at h
            simp only [Option.bind_eq_bind, Option.bind_eq_some_iff] at h
            obtain ⟨⟨tsi, n⟩, hgen, rn, hrn, h⟩ := h
            dsimp only at h
            split at h
            · exact absurd h (hrefused (by decide))
            · rename_i db hdb
              exact ⟨_, Option.bind_eq_some_iff.mpr ⟨(tsi, n), hgen, Option.bind_eq_some_iff.mpr ⟨rn, hrn,
                Option.bind_eq_some_iff.mpr ⟨db, hdb, rfl⟩⟩⟩⟩

end Arrival

/-! ## The ranges -/

/-- What `create_tsi` computes for this instance is in the ranges of its types: the number it gives, the difference of two
numbers the slot is found by, the slot, the window around it, the deadline and the slot that is armed. -/
structure Arrival.InRange (env : TsEnv) (clock : Int) (req : Req) (s : Server) (a : Arrival) : Prop where
  number : req.pc.get .snr = none →
    intMin ≤ s.db.dbTsiGetMaxSnr a.tsRi + 1 ∧ s.db.dbTsiGetMaxSnr a.tsRi + 1 ≤ intMax
  steps : ∀ period, a.period = some period →
    intMin ≤ a.snr - a.db.dbTsiGetMinSnr a.tsRi ∧ a.snr - a.db.dbTsiGetMinSnr a.tsRi ≤ intMax
  expected : ∀ period, a.period = some period → InLong (a.slot env)
  lower : ∀ period, a.period = some period → InLong (a.slot env - windowOf a.ts)
  upper : ∀ period, a.period = some period → InLong (a.slot env + windowOf a.ts)
  deadline : ∀ period, a.period = some period → InLong (clock + period + graceOf a.ts)
  next : ∀ period, a.period = some period → InLong (a.slot env + period)

/-- There is room for an instance: a number is left where it brings none, its number and the lowest one are an `int` apart,
the steps between them end before the range does, with a period or a window more, and so does the wait for the next one. -/
structure RoomFor (env : TsEnv) (clock : Int) (req : Req) (s : Server) (ts : Obj) (tsRi : CStr) : Prop where
  number : req.pc.get .snr = none → s.db.dbTsiGetMaxSnr tsRi < intMax
  apart : ∀ period, detectionPeriod ts = some period →
    intMin ≤ givenSnr s.db tsRi req.pc - lowestSnr s.db tsRi req.pc ∧
      givenSnr s.db tsRi req.pc - lowestSnr s.db tsRi req.pc ≤ intMax
  steps : ∀ period, detectionPeriod ts = some period →
    (givenSnr s.db tsRi req.pc - lowestSnr s.db tsRi req.pc) * period + max period (windowOf ts).natAbs <
      9223372036854775808 - gridStart env s.db tsRi req.pc
  back : ∀ period, detectionPeriod ts = some period →
    (windowOf ts).natAbs - 9223372036854775808 - gridStart env s.db tsRi req.pc ≤
      (givenSnr s.db tsRi req.pc - lowestSnr s.db tsRi req.pc) * period
  wait : ∀ period, detectionPeriod ts = some period → InLong (clock + period + graceOf ts)

theorem maxSnr_ge (db : Db) (tsRi : CStr) : intMin ≤ db.dbTsiGetMaxSnr tsRi := by
  unfold Db.dbTsiGetMaxSnr
  cases hm : (db.snrs tsRi).max? with
  | none => exact (by decide : intMin ≤ (0 : Int))
  | some m =>
    have hmem := List.max?_mem hm
    unfold Db.snrs at hmem
    obtain ⟨r, -, hr⟩ := List.mem_filterMap.mp hmem
    obtain ⟨j, -, rfl⟩ := Option.map_eq_some_iff.mp hr
    exact j.valueint_ge

/-- The clocks of the first seconds, with no series armed. -/
def firstArrivals : TsEnv := { firstDay with parseTime := firstSeconds.parseTime, isoTime := firstSeconds.isoTsi, armed := fun _ => false }

/-- A time series of the first day, with its first instance. -/
def startedSeries (body : Obj) : Option Server := do
  let s ← boot firstDay
  let cb ← s.node? 0
  let (s, _) ← s.createTs firstDay (adminReq .create "TinyIoT" .ts body) cb
  let t ← s.node? 2
  let o ← s.createTsi firstArrivals (tsiReq "a" "20240101T000000" 0) t
  let (s, _) ← o.answer
  return s

/-- The next instance is created. -/
def created (s : Server) (t : RTNode) (req : Req) : Bool :=
  ((s.createTsi firstArrivals req t).bind Outcome.answer).any fun p => p.2.rsc = .created

theorem exists_reply {s : Server} {t : RTNode} {req : Req} (h : created s t req = true) :
    ∃ s' r, s.createTsi firstArrivals req t = some (.reply s' r) ∧ r.rsc = .created := by
  obtain ⟨⟨s', r⟩, hans, hr⟩ := (Option.any_eq_true _ _).mp h
  obtain ⟨o, ho, hans⟩ := Option.bind_eq_some_iff.mp hans
  cases o with
  | endless => cases hans
  | reply s₁ r₁ =>
    cases hans
    exact ⟨s', r, ho, of_decide_eq_true hr⟩

/-- The longest period that fits an `int`. -/
def longestPeriod : Obj :=
  [(.rn, .str "t".toList), (.pei, .int 2147483647), (.mdd, .bool true), (.mdt, .int 500), (.mdn, .int 10)]

end TinyIoT
