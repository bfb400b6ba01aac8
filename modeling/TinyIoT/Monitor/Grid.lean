/-
The slot on the grid an instance is for, from the request, the time series and the instances stored before it: the number
it brings or is given, the lowest number there is with it, and the time of creation of the instance with that number.
-/
import TinyIoT.Monitor.Cursors
import TinyIoT.TimeSeries.Creates

namespace TinyIoT

/-! ## The rows with the new one -/

/-- A strict order whose incomparable elements form classes. -/
structure StrictOrder {α : Type} (lt : α → α → Bool) : Prop where
  trans : ∀ a b c, lt a b = true → lt b c = true → lt a c = true
  negTrans : ∀ a b c, lt a b = false → lt b c = false → lt a c = false

/-- The smallest of a list with one more at its end. -/
theorem firstMin_concat {α : Type} {lt : α → α → Bool} (h : StrictOrder lt) (l : List α) (r : α) :
    firstMin lt (l ++ [r]) = some ((firstMin lt l).elim r fun q => if lt r q then r else q) := by
  induction l with
  | nil => rfl
  | cons a l ih =>
    rw [List.cons_append, firstMin, ih, firstMin]
    cases hl : firstMin lt l with
    | none =>
      dsimp only [Option.elim_none, Option.elim_some]
      cases lt r a <;> rfl
    | some q =>
      dsimp only [Option.elim_some]
      cases hrq : lt r q with
      | true =>
        cases hqa : lt q a with
        | true => simp [h.trans r q a hrq hqa, hrq]
        | false =>
          simp only [Bool.false_eq_true, if_false, if_true, Option.elim_some]
          cases lt r a <;> rfl
      | false =>
        cases hqa : lt q a with
        | true => simp [hqa, hrq]
        | false => simp [hqa, h.negTrans r q a hrq hqa]

theorem strictOrder_snrLt : StrictOrder Db.snrLt := by
  constructor
  · intro a b c hab hbc
    unfold Db.snrLt at hab hbc ⊢
    cases ha : (a.obj.get .snr).map Json.valueint <;> cases hb : (b.obj.get .snr).map Json.valueint <;>
      cases hc : (c.obj.get .snr).map Json.valueint <;> simp_all
    omega
  · intro a b c hab hbc
    unfold Db.snrLt at hab hbc ⊢
    cases ha : (a.obj.get .snr).map Json.valueint <;> cases hb : (b.obj.get .snr).map Json.valueint <;>
      cases hc : (c.obj.get .snr).map Json.valueint <;> simp_all
    omega

/-- The text a column gets: that of the body, or the default. -/
def columnText (body : Obj) (k : Attr) (default : CStr) : Option CStr :=
  (((body.get k).or (some (.str default))).bind column).bind Json.valuestring

/-- The new row is one of the time series: the body gives it no other type or parent. -/
def joins (body : Obj) (tsRi : CStr) : Bool :=
  (body.get .ty).all (fun j => ResourceType.ofTable j.valueint = some .tsi) && columnText body .pi tsRi = some tsRi

/-- The number of a new instance. -/
def givenSnr (db : Db) (tsRi : CStr) (body : Obj) : Int :=
  ((body.get .snr).map Json.valueint).getD (cInt (db.dbTsiGetMaxSnr tsRi + 1))

/-- The lowest number of the time series with the new instance. -/
def lowestSnr (db : Db) (tsRi : CStr) (body : Obj) : Int :=
  ((db.snrs tsRi ++ if joins body tsRi then [givenSnr db tsRi body] else []).min?).getD 0

/-- The time of creation of the instance with the lowest number. -/
def firstArrival (env : Env) (db : Db) (tsRi : CStr) (body : Obj) : Option CStr :=
  match firstMin Db.snrLt (db.instances .tsi tsRi) with
  | none => if joins body tsRi then columnText body .ct env.now else none
  | some q =>
    if joins body tsRi && ((q.obj.get .snr).map Json.valueint).all (givenSnr db tsRi body < ·) then
      columnText body .ct env.now
    else q.obj.str .ct

/-- The time the grid starts at. -/
def gridStart (env : TsEnv) (db : Db) (tsRi : CStr) (body : Obj) : Int :=
  let current := ((body.str .dgt).map env.parseTime).getD 0
  let anchor := ((firstArrival env.toEnv db tsRi body).map env.parseTime).getD current
  if anchor ≤ 0 then current else anchor

namespace Arrival

variable {env : TsEnv} {req : Req} {s : Server} {t : RTNode} {a : Arrival}

/-- What an arrival is made of. -/
theorem of_arrivalTsi (h : arrivalTsi env req s t = some a) : t.ri = some a.tsRi ∧ a.dgt = req.pc.str .dgt ∧
    SameMissing t.obj a.ts ∧ ∃ (v : Json) (o tsi : Obj) (n : Nat) (uri : CStr), o.str .ri = t.ri ∧
      tsiSnr s.db a.tsRi ((req.pc.del .cs).add .cs v) = .ok a.snr ∧
      addGeneralAttribute env.toEnv (buildTsi s.db a.tsRi a.snr ((req.pc.del .cs).add .cs v)) o .tsi s.riCount = some (tsi, n) ∧
      s.db.dbStoreResource tsi uri = some a.db := by
  unfold arrivalTsi at h
  split at h
  · cases h
  · split at h
    · cases h
    · simp only [Option.bind_eq_bind, Option.bind_eq_some_iff] at h
      obtain ⟨tsRi, htri, h⟩ := h
      split at h
      · cases h
      · simp only [Option.bind_eq_some_iff] at h
        obtain ⟨con, -, mbs, -, h⟩ := h
        split at h
        · cases h
        · split at h
          · cases h
          · rename_i snr hsnr
            simp only [Option.bind_eq_some_iff, Option.pure_def, Option.some.injEq] at h
            obtain ⟨⟨tsi, n⟩, hgen, rn, -, db, hdb, rfl⟩ := h
            obtain ⟨pi, -, hget⟩ := addGeneralAttribute_some hgen
            have hsame : SameMissing t.obj (normalizeCount (normalizeCount t.obj .cni) .cbs) :=
              (SameMissing.normalizeCount _ (by decide)).trans (.normalizeCount _ (by decide))
            refine ⟨htri, ?_, hsame.trans (.countIn _ _ _ _), _, _, tsi, n, _, ?_, hsnr, hgen, hdb⟩
            · refine Obj.str_congr ((hget .dgt).trans ?_)
              rw [get_buildTsi (by decide) (by decide)]
              exact (Option.or_none).trans ((Assoc.get_add_ne (by decide)).trans (Assoc.get_del_ne (by decide)))
            · exact Obj.str_congr (hsame.get (by decide))

/-- The number of the instance. -/
theorem snr_of_arrivalTsi (h : arrivalTsi env req s t = some a) : a.snr = givenSnr s.db a.tsRi req.pc ∧
    (intMin ≤ a.snr ∧ a.snr ≤ intMax) ∧ (req.pc.get .snr).all Json.isNumber = true := by
  obtain ⟨-, -, -, v, -, -, -, -, -, hsnr, -⟩ := of_arrivalTsi h
  have hbody : Obj.get ((req.pc.del .cs).add .cs v) .snr = req.pc.get .snr :=
    (Assoc.get_add_ne (by decide)).trans (Assoc.get_del_ne (by decide))
  unfold tsiSnr at hsnr
  rw [hbody] at hsnr
  unfold givenSnr
  split at hsnr
  · rename_i hnone
    rw [hnone, ← Except.ok.inj hsnr]
    exact ⟨rfl, ⟨le_cInt _, cInt_le _⟩, rfl⟩
  · rename_i w hw
    split at hsnr
    · cases hsnr
    · rw [hw, ← Except.ok.inj hsnr]
      exact ⟨rfl, ⟨Json.valueint_ge _, Json.valueint_le _⟩, rfl⟩
  · cases hsnr

/-- The rows of the time series afterwards: those there were, and the new one where it joins them. -/
theorem instances_of_arrivalTsi (h : arrivalTsi env req s t = some a) : ∃ r : Row,
    a.db.instances .tsi a.tsRi = s.db.instances .tsi a.tsRi ++ (if joins req.pc a.tsRi then [r] else []) ∧
      (r.obj.get .snr).map Json.valueint = some a.snr ∧ r.obj.str .ct = columnText req.pc .ct env.now := by
  obtain ⟨htri, -, -, v, o, tsi, n, uri, ho, hsnr, hgen, hdb⟩ := of_arrivalTsi h
  obtain ⟨hgiven, ⟨hlow, hhigh⟩, hnumber⟩ := snr_of_arrivalTsi h
  obtain ⟨pi, hpi, hget⟩ := addGeneralAttribute_some hgen
  obtain rfl : pi = a.tsRi := Option.some.inj (hpi.symm.trans (ho.trans htri))
  obtain ⟨ty, tbl, hty, htbl, hrow⟩ := Db.dbStoreResource_some hdb
  have hbody : ∀ k, k ≠ .snr → k ≠ .rn → k ≠ .cs → Obj.get (buildTsi s.db a.tsRi a.snr ((req.pc.del .cs).add .cs v)) k =
      req.pc.get k := fun k h₁ h₂ h₃ =>
    (get_buildTsi h₁ h₂).trans ((Assoc.get_add_ne h₃.symm).trans (Assoc.get_del_ne h₃.symm))
  have hcol : ∀ k, k ≠ .uri → Obj.get (Assoc.drop (Assoc.overlay column tsi []) .uri) k =
      (((buildTsi s.db a.tsRi a.snr ((req.pc.del .cs).add .cs v)).get k).or
        (generalAttr env.toEnv .tsi (resourceIdentifier .tsi env.now s.riCount).1 a.tsRi k)).bind column := fun k hk => by
    rw [Db.get_stored tsi hk, hget]
  generalize hr : (⟨uri, tbl, Assoc.drop (Assoc.overlay column tsi []) .uri⟩ : Row) = r at hrow
  have hpir : r.pi = columnText req.pc .pi a.tsRi := by
    rw [← hr]
    unfold Row.pi Obj.str columnText
    rw [hcol .pi (by decide), hbody .pi (by decide) (by decide) (by decide)]
    rfl
  have htyr : (r.ty = .tsi ↔ (req.pc.get .ty).all (fun j => ResourceType.ofTable j.valueint = some .tsi) = true) := by
    have htsi : ty = ((req.pc.get .ty).getD (.int ResourceType.tsi.code)) := by
      have := (hget .ty).symm.trans hty
      rw [hbody .ty (by decide) (by decide) (by decide)] at this
      cases hb : req.pc.get .ty with
      | none => rw [hb] at this; exact (Option.some.inj this).symm
      | some j => rw [hb] at this; exact (Option.some.inj this).symm
    rw [← hr]
    cases hb : req.pc.get .ty with
    | none =>
      rw [hb, Option.getD_none] at htsi
      rw [htsi, ResourceType.ofTable_code (by decide)] at htbl
      simp [Option.some.inj htbl.symm]
    | some j =>
      rw [hb, Option.getD_some] at htsi
      rw [htsi] at htbl
      simp [htbl]
  refine ⟨r, ?_, ?_, ?_⟩
  · rw [hrow, Db.instances, Db.instances, List.filter_append]
    congr 1
    have hjoins : (decide (r.ty = .tsi) && decide (r.pi = some a.tsRi)) = joins req.pc a.tsRi := by
      unfold joins
      rw [hpir]
      congr 1
      rw [Bool.eq_iff_iff, decide_eq_true_eq]
      exact htyr
    rw [← hjoins]
    simp only [List.filter_cons, List.filter_nil]
  · rw [← hr]
    show ((Obj.get (Assoc.drop (Assoc.overlay column tsi []) .uri) .snr).map Json.valueint) = _
    have hsnr' : (buildTsi s.db a.tsRi a.snr ((req.pc.del .cs).add .cs v)).get .snr =
        (req.pc.get .snr).or (some (.int a.snr)) := by
      unfold buildTsi Obj.orAdd
      rw [get_addMissing, get_addMissing, if_pos rfl, if_neg (by decide), Option.or_none]
      exact congrArg (Option.or · _) ((Assoc.get_add_ne (by decide)).trans (Assoc.get_del_ne (by decide)))
    rw [hcol .snr (by decide), hsnr']
    unfold givenSnr at hgiven
    cases hb : req.pc.get .snr with
    | none =>
      show (some (Json.int (Json.int a.snr).valueint)).map Json.valueint = _
      rw [Json.valueint_int hlow hhigh]
      exact congrArg some (Json.valueint_int hlow hhigh)
    | some j =>
      rw [hb] at hgiven hnumber
      cases j with
      | num w =>
        show (some (Json.int (Json.num w).valueint)).map Json.valueint = _
        rw [hgiven]
        exact congrArg some (Json.valueint_int (Json.valueint_ge _) (Json.valueint_le _))
      | _ => cases hnumber
  · rw [← hr]
    unfold columnText Obj.str
    rw [hcol .ct (by decide), hbody .ct (by decide) (by decide) (by decide)]
    rfl

/-- The lowest number of the time series, as the instance finds it. -/
theorem lowest_of_arrivalTsi (h : arrivalTsi env req s t = some a) :
    a.db.dbTsiGetMinSnr a.tsRi = lowestSnr s.db a.tsRi req.pc := by
  obtain ⟨hsnr, -⟩ := snr_of_arrivalTsi h
  obtain ⟨r, hinst, hrsnr, -⟩ := instances_of_arrivalTsi h
  unfold Db.dbTsiGetMinSnr Db.snrs lowestSnr
  rw [hinst, List.filterMap_append, ← hsnr]
  congr 3
  split
  · rw [List.filterMap_cons, hrsnr]
    rfl
  · rfl

/-- The slot of the instance, from what there was before it. -/
theorem slot_of_arrivalTsi (h : arrivalTsi env req s t = some a) : a.slot env = gridStart env s.db a.tsRi req.pc +
    cInt (givenSnr s.db a.tsRi req.pc - lowestSnr s.db a.tsRi req.pc) *
      (((a.ts.get .pei).map Json.valueint).getD 0 * 1000) := by
  obtain ⟨-, hdgt, -⟩ := of_arrivalTsi h
  obtain ⟨hsnr, -⟩ := snr_of_arrivalTsi h
  obtain ⟨r, hinst, hrsnr, hrct⟩ := instances_of_arrivalTsi h
  have hfirst : a.db.dbTsiGetFirstCt a.tsRi = firstArrival env.toEnv s.db a.tsRi req.pc := by
    unfold Db.dbTsiGetFirstCt firstArrival
    rw [hinst, ← hsnr]
    cases joins req.pc a.tsRi with
    | false =>
      rw [if_neg (by decide), List.append_nil]
      cases firstMin Db.snrLt (s.db.instances .tsi a.tsRi) <;> rfl
    | true =>
      rw [if_pos rfl, firstMin_concat strictOrder_snrLt]
      cases hq : firstMin Db.snrLt (s.db.instances .tsi a.tsRi) with
      | none => exact hrct
      | some q =>
        have hlt : Db.snrLt r q = ((q.obj.get .snr).map Json.valueint).all (a.snr < ·) := by
          unfold Db.snrLt
          rw [hrsnr]
          cases (q.obj.get .snr).map Json.valueint <;> rfl
        simp only [Option.elim_some, Option.bind_some, Bool.true_and, hlt]
        split
        · exact hrct
        · rfl
  unfold slot gridSlot gridStart
  rw [lowest_of_arrivalTsi h, hfirst, hdgt, hsnr]

end Arrival

/-! ## The detection, from what there is before -/

/-- `peid` in microseconds as `create_tsi` has it. -/
def windowOf (ts : Obj) : Int := ((ts.get .peid).map fun j => j.valueint * 1000).getD 0

/-- The detection is on, with this period. -/
def detectionPeriod (ts : Obj) : Option Int :=
  (ts.get .mdd).bind fun mdd => (ts.get .pei).bind fun pei =>
    if mdd.isTrue ∧ 0 < pei.valueint then some (pei.valueint * 1000) else none

/-- The slot a body is for. -/
def slotFor (env : TsEnv) (db : Db) (tsRi : CStr) (period : Int) (body : Obj) : Int :=
  gridStart env db tsRi body + cInt (givenSnr db tsRi body - lowestSnr db tsRi body) * period

/-- `dgt` is outside the window around the slot: before it, in an instance that is not the first of the grid, or after it, with
a cursor armed. -/
def offSlot (env : TsEnv) (db : Db) (ts : Obj) (tsRi : CStr) (slot : Int) (body : Obj) : Bool :=
  let current := ((body.str .dgt).map env.parseTime).getD 0
  if current < slot - windowOf ts then decide (givenSnr db tsRi body ≠ lowestSnr db tsRi body)
  else decide (slot + windowOf ts < current) && env.armed tsRi

namespace Arrival

variable {env : TsEnv} {req : Req} {s : Server} {t : RTNode} {a : Arrival} {period : Int}

/-- Detection goes by the period of the series. -/
theorem period_of_arrivalTsi (h : arrivalTsi env req s t = some a) : a.period = detectionPeriod t.obj := by
  obtain ⟨-, -, hsame, -⟩ := of_arrivalTsi h
  unfold Arrival.period detectionPeriod
  rw [hsame.get (by decide : Attr.mdd ∈ missingAttrs), hsame.get (by decide : Attr.pei ∈ missingAttrs)]
  cases t.obj.get .mdd <;> cases t.obj.get .pei <;> rfl

theorem pei_of_period (hp : a.period = some period) : ((a.ts.get .pei).map Json.valueint).getD 0 * 1000 = period := by
  unfold Arrival.period at hp
  split at hp
  · rename_i mdd pei hmdd hpei
    obtain ⟨-, hp⟩ := Option.ite_none_right_eq_some.mp hp
    rw [hpei]
    exact Option.some.inj hp
  · cases hp

/-- The slot of an instance is the one its request is for. -/
theorem slot_eq_slotFor (h : arrivalTsi env req s t = some a) (hp : a.period = some period) :
    a.slot env = slotFor env s.db a.tsRi period req.pc := by
  rw [slot_of_arrivalTsi h, pei_of_period hp]
  rfl

/-- An instance that is not off its slot records nothing. -/
theorem missed_eq_none (h : arrivalTsi env req s t = some a) (hp : a.period = some period)
    (hoff : offSlot env s.db t.obj a.tsRi (slotFor env s.db a.tsRi period req.pc) req.pc = false) : a.missed env = none := by
  obtain ⟨-, hdgt, hsame, -⟩ := of_arrivalTsi h
  have hslot := slot_eq_slotFor h hp
  unfold slot gridSlot at hslot
  unfold Arrival.missed missedSlot
  rw [hp]
  dsimp only at hslot ⊢
  rw [hslot, if_neg]
  unfold offSlot windowOf at hoff
  rw [hdgt, lowest_of_arrivalTsi h, (snr_of_arrivalTsi h).1, hsame.get (by decide : Attr.peid ∈ missingAttrs)]
  dsimp only at hoff
  split at hoff
  · rename_i hlt
    rw [if_pos hlt]
    exact of_decide_eq_false hoff
  · rename_i hge
    rw [if_neg hge]
    simpa using hoff

end Arrival

end TinyIoT
