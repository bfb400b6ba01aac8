/-
Time series and their instances (`ts.c`, `tsi.c`): create and update of a time series, creation of an
instance with the detection of missing data points, and the eviction of the oldest instances. Unlike
content instances, the instances of a time series are all kept in the tree as well as in the database.
The loop of an eviction does not end when no instance is left to evict and the limits are still
exceeded; a dereference of a missing attribute gives `none`.
-/
import TinyIoT.Resource.Container

namespace TinyIoT

/-- What the handlers of time series find outside the server's own state. -/
structure TsEnv extends Env where
  /-- `parse_time_to_us_tsi`. -/
  parseTime : CStr → Int
  /-- `us_to_iso8601_tsi`. -/
  isoTime : Int → CStr
  /-- `ts_md_is_armed`. -/
  armed : CStr → Bool

/-- `cJSON_GetNumberValue`: none stands for NaN, which every comparison fails with. -/
def Json.number : Json → Option ℚ
  | .num v => some v
  | _ => none

/-! ## Queries -/

namespace Db

/-- The sequence numbers of the instances of a time series. -/
def snrs (db : Db) (tsRi : CStr) : List Int :=
  (db.instances .tsi tsRi).filterMap fun r => (r.obj.get .snr).map Json.valueint

/-- `db_tsi_get_count`. -/
def dbTsiGetCount (db : Db) (tsRi : CStr) : Int := (db.instances .tsi tsRi).length

/-- `db_tsi_get_max_snr`. -/
def dbTsiGetMaxSnr (db : Db) (tsRi : CStr) : Int := ((db.snrs tsRi).max?).getD 0

/-- `db_tsi_get_min_snr`. -/
def dbTsiGetMinSnr (db : Db) (tsRi : CStr) : Int := ((db.snrs tsRi).min?).getD 0

/-- The order of rows by `snr`; a row without it comes after those with it. -/
def snrLt (r q : Row) : Bool :=
  match (r.obj.get .snr).map Json.valueint, (q.obj.get .snr).map Json.valueint with
  | some a, some b => a < b
  | some _, none => true
  | none, _ => false

/-- `db_tsi_get_first_ct`. -/
def dbTsiGetFirstCt (db : Db) (tsRi : CStr) : Option CStr :=
  (firstMin snrLt (db.instances .tsi tsRi)).bind fun r => r.obj.str .ct

/-- `db_tsi_check_dgt_dup`. -/
def dbTsiCheckDgtDup (db : Db) (tsRi dgt : CStr) : Bool :=
  (db.instances .tsi tsRi).any fun r => r.obj.str .dgt = some dgt

end Db

/-! ## Eviction -/

namespace Server

/-- The instances of a time series in memory. -/
def tsis (s : Server) (ts : Nat) : List RTNode := (s.children ts).roots.filter fun n => n.ty = .tsi

/-- The order `delete_oldest_tsi` compares creation times in. -/
def ctLt (n m : RTNode) : Bool := strLt ((n.obj.str .ct).getD []) ((m.obj.str .ct).getD [])

/-- The counters of a time series after one instance is evicted; those that are missing stay so. -/
def countDown (ts : Obj) (cs : Int) : Obj :=
  let down (o : Obj) (k : Attr) (n : Int) : Obj := match o.get k with
    | none => o
    | some j => o.set k (j.setIntValue (cInt (j.valueint - n)))
  down (down ts .cni 1) .cbs cs

/-- `delete_oldest_tsi`: nothing happens when there is no instance; creation times are read only when
there are two to compare. -/
def deleteOldestTsi (s : Server) (ts : Nat) : Option Server :=
  match firstMin ctLt (s.tsis ts) with
  | none => some s
  | some oldest =>
    if 1 < (s.tsis ts).length ∧ !(s.tsis ts).all (fun n => (n.obj.str .ct).isSome) then none
    else do
      let parent ← s.node? ts
      let cs ← oldest.obj.get .cs
      let s := s.setObj ts (countDown parent.obj cs.valueint)
      return { s with db := s.db.dbDeleteOnem2mResource oldest }.freeRtnode oldest.id

/-- `cni` and `cbs`, dereferenced. -/
def counters (s : Server) (ts : Nat) : Option (Int × Int) := do
  let n ← s.node? ts
  let cni ← n.obj.get .cni
  let cbs ← n.obj.get .cbs
  return (cni.valueint, cbs.valueint)

end Server

/-- How an eviction ends, if it does. -/
inductive Eviction where
  | within (s : Server)
  | endless

/-- The loop of `create_tsi` and `update_ts`: evict while the counters are over the limits. Each pass
takes one of the instances, of which there are `fuel`; when there is none the loop goes on for ever. -/
def evictTsi (exceeds : Int → Int → Bool) (ts : Nat) : (fuel : Nat) → Server → (cni cbs : Int) → Option Eviction
  | fuel, s, cni, cbs =>
    if exceeds cni cbs then
      match fuel with
      | 0 => some .endless
      | fuel + 1 => do
        let s ← s.deleteOldestTsi ts
        let (cni, cbs) ← s.counters ts
        evictTsi exceeds ts fuel s cni cbs
    else some (.within s)

/-- What a handler that evicts does: it answers, or it does not return. -/
inductive Outcome where
  | reply (s : Server) (r : Resp)
  | endless

/-- The answer of a handler that returns. -/
def Outcome.answer : Outcome → Option (Server × Resp)
  | reply s r => some (s, r)
  | endless => none

/-! ## Time series -/

/-- `validate_ts`. -/
def validateTs (ts : Obj) (op : Operation) : Except Resp Unit := do
  validateMandatoryAttrs .ts ts op
  if [Attr.pei, .peid, .mni, .mbs, .mdn, .mdt].any fun k => ((ts.get k).bind Json.number).any (· < 0) then
    .error (handleError .badRequest "negative value not allowed")

/-- The test of `cnf` in `create_ts` and `update_ts`. -/
def checkTsCnf (ts : Obj) : Except Resp Unit :=
  match ts.get .cnf with
  | none => .ok ()
  | some (.str cnf) =>
    if validateCnf cnf then .ok () else .error (handleError .badRequest "attribute `cnf` is invalid")
  | some _ => .error (handleError .badRequest "invalid attribute type : cnf")

/-- `pei` and `peid` of a new time series: a `pei` that is not positive goes, `peid` goes with it or gets
its default. -/
def createPeriod (ts : Obj) : Obj × Option Int :=
  match (ts.get .pei).bind fun j => if j.isNumber then some j.valueint else none with
  | none => ((if ts.has .pei then ts.del .pei else ts).del .peid, none)
  | some pei =>
    if pei ≤ 0 then ((ts.del .pei).del .peid, none)
    else (if ts.has .peid then ts else ts.add .peid (.int (pei.tdiv 2)), some pei)

/-- `mdt` and `mdn` are numbers above zero, or the detection of missing data cannot be on. -/
def checkDetection (mdt mdn : Option ℚ) : Except Resp Unit :=
  if mdt.any (0 < ·) && mdn.any (0 < ·) then .ok ()
  else .error (handleError .badRequest "mdt and mdn must be valid when mdd is true")

/-- An attribute gets a default when it is missing. -/
def Obj.orAdd (o : Obj) (k : Attr) (v : Json) : Obj := if o.has k then o else o.add k v

/-- The counters of a new time series. -/
def resetTs (ts : Obj) : Obj :=
  let ts := (((ts.del .mdc).del .cni).del .cbs).del .mdlt
  ((ts.add .mdc (.int 0)).add .cni (.int 0)).add .cbs (.int 0)

/-- The object `create_ts` stores, from the one with the general attributes. -/
def buildTs (env : Env) (req : Req) (ts : Obj) : Except Resp Obj := do
  let ts := ts.orAdd .cr (.str req.fr)
  validateTs ts .create
  let (ts, pei) := createPeriod ts
  let ts := ts.orAdd .mdd (.bool false)
  if (ts.get .mdd).any Json.isTrue then
    checkDetection ((ts.get .mdt).bind Json.number) ((ts.get .mdn).bind Json.number)
  let ts := (((ts.orAdd .mbs (.int 262144)).orAdd .mni (.int 100)).orAdd .mdn (.int 10)).orAdd .mdt (.int 0)
  checkTsCnf ts
  let ts := resetTs ts
  match pei, ts.get .peid with
  | some pei, some peid =>
    if pei.tdiv 2 < peid.valueint then .error (handleError .badRequest "peid > pei/2") else .ok ()
  | _, _ => .ok ()
  return announceAt env ts

namespace Server

/-- `create_ts`. -/
def createTs (env : Env) (req : Req) (s : Server) (parent : RTNode) : Option (Server × Resp) :=
  if req.rvi = 1 then some (s, handleError .badRequest "TS not supported in R1")
  else do
    let (ts, n) ← addGeneralAttribute env req.pc parent.obj .ts s.riCount
    let s := { s with riCount := n }
    match buildTs env req ts with
    | .error r => return (s, r)
    | .ok ts => s.storeResource parent ts .ts

end Server

/-- `mdd` is on: true, or the number 1. -/
def mddOn (j : Json) : Bool := j.isTrue || j.valueint = 1

/-- The parameters of the detection of missing data, which cannot change while it is on or is switched. -/
def detectionParams : List Attr := [.pei, .peid, .mdt, .mdn]

/-- The tests of `update_ts` on `mdd` and its parameters. -/
def checkMddUpdate (target body : Obj) : Except Resp Unit :=
  let active := ((body.get .mdd).or (target.get .mdd)).any mddOn
  let params := detectionParams.any fun k => body.has k
  if active then
    if params then .error (handleError .badRequest "Cannot update params when mdd is true")
    else
      -- an attribute that is missing counts as -1, one that is no number passes the comparison
      let low (k : Attr) : Bool := match target.get k with
        | none => true
        | some j => j.number.any (· ≤ 0)
      if low .mdt || low .mdn then .error (handleError .badRequest "mdt and mdn must be valid when mdd is true")
      else .ok ()
  else if body.has .mdd && params then
    .error (handleError .badRequest "pei/peid/mdt/mdn update not allowed when disabling mdd")
  else .ok ()

/-- `pei` and `peid` of an update, with -1 for a value that is not given: a `pei` that is not positive
becomes null, and a new `pei` without a `peid` brings its default. -/
def updatePeriod (target body : Obj) : Except Resp Obj :=
  let cleared := ((body.get .pei).bind Json.number).any (· ≤ 0)
  let body := if cleared then (body.set .pei .null).orAdd .peid .null else body
  let newPei : Option ℚ := if cleared then some (-1) else match body.get .pei with
    | none => some (-1)
    | some j => j.number
  let newPeid : Option ℚ := match body.get .peid with
    | some (.num v) => some v
    | _ => some (-1)
  let given := newPei ≠ some (-1)
  let defaulted := given ∧ newPeid = some (-1)
  -- a null `pei` is read as NaN, and so is its half; the cast to int gives the least one
  let half : Option ℚ := newPei.map (· / 2)
  let body := if defaulted then body.add .peid (.int (match half with
    | none => intMin
    | some q => (Json.num q).valueint)) else body
  let newPeid := if defaulted then half else newPeid
  let now (k : Attr) : Option ℚ := match target.get k with
    | none => some 0
    | some j => j.number
  let pei := if given then newPei else now .pei
  let peid := if newPeid ≠ some (-1) then newPeid else now .peid
  match pei, peid with
  | some pei, some peid =>
    if 0 < pei ∧ pei / 2 < peid then .error (handleError .badRequest "peid > pei/2") else .ok body
  | _, _ => .ok body

/-- Switching the detection on empties the list of missing points. -/
def restartDetection (now : CStr) (ts : Obj) : Obj :=
  let ts := match ts.get .mdc with
    | none => ts.add .mdc (.int 0)
    | some j => ts.set .mdc (j.setIntValue 0)
  (ts.del .mdlt).set .lt (.str now)

/-- The test of the loop in `update_ts`: a limit that is missing does not count. -/
def overTs (ts : Obj) (cni cbs : Int) : Bool :=
  (ts.get .mni).any (fun j => j.valueint < cni) || (ts.get .mbs).any (fun j => j.valueint < cbs)

namespace Server

/-- The end of `update_ts`: the limits apply to the instances there are, and the row is written. -/
def settleTs (s : Server) (target : RTNode) (ri : CStr) (ts : Obj) : Option Outcome := do
  let s := s.setObj target.id ts
  let cni := ((ts.get .cni).map Json.valueint).getD 0
  let cbs := ((ts.get .cbs).map Json.valueint).getD 0
  match ← evictTsi (overTs ts) target.id (s.tsis target.id).length s cni cbs with
  | .endless => return .endless
  | .within s =>
    let n ← s.node? target.id
    return .reply { s with db := s.db.dbUpdateResource n.obj ri } (done .updated)

/-- `update_ts`. -/
def updateTs (env : Env) (kept : Json → List Json) (req : Req) (s : Server) (target : RTNode) : Option Outcome :=
  if [Attr.mdc, .mdlt, .cni, .cbs].any fun k => req.pc.has k then
    some (.reply s (handleError .badRequest "Cannot manually update read-only attributes"))
  else match (do checkTsCnf req.pc; checkMddUpdate target.obj req.pc; updatePeriod target.obj req.pc) with
    | .error r => some (.reply s r)
    | .ok body => do
      let ri ← target.ri
      let on := (body.get .mdd).any mddOn
      let obj := if on then restartDetection env.now target.obj else target.obj
      let db := if on then s.db.dbUpdateResource [(.mdlt, .null)] ri else s.db
      let (body, cleared) := processAnncAtUpdate kept obj body
      let db := if cleared then db.dbUpdateResource [(.at, .null)] ri else db
      settleTs { s with db := db } target ri (obj.updateResource body)

end Server

/-! ## Time series instance -/

/-- `%d`. -/
def decimal (n : Int) : CStr := (if n < 0 then ['-'] else []) ++ Nat.toDigits 10 n.natAbs

/-- The name `create_tsi` gives an instance without one: by its number alone when that is new, else by
the number and the count of instances. -/
def tsiName (db : Db) (tsRi : CStr) (snr : Int) (given : Bool) : CStr :=
  if given then "tsi_".toList ++ decimal snr ++ '_' :: decimal (db.dbTsiGetCount tsRi)
  else "tsi_".toList ++ decimal snr

/-- The `snr` of a new instance. -/
def tsiSnr (db : Db) (tsRi : CStr) (tsi : Obj) : Except Resp Int :=
  match tsi.get .snr with
  | none => .ok (cInt (db.dbTsiGetMaxSnr tsRi + 1))
  | some (.num v) =>
    if (Json.num v).valueint < 0 then .error (handleError .badRequest "snr invalid")
    else .ok (Json.num v).valueint
  | some _ => .error (handleError .badRequest "snr invalid")

/-- The body of a new instance with its size, number and name. -/
def buildTsi (db : Db) (tsRi : CStr) (snr : Int) (tsi : Obj) : Obj :=
  let given := tsi.has .snr
  (tsi.orAdd .snr (.int snr)).orAdd .rn (.str (tsiName db tsRi snr given))

/-- The slot on the grid of a time series the instance is off, if it is: the grid starts at the arrival
of the instance with the lowest number and has one slot every `pei`. -/
def missedSlot (env : TsEnv) (db : Db) (ts : Obj) (tsRi : CStr) (pei : Int) (dgt : Option CStr) (snr : Int) :
    Option Int :=
  let current := (dgt.map env.parseTime).getD 0
  let period := pei * 1000
  let delta := ((ts.get .peid).map fun j => j.valueint * 1000).getD 0
  let base := db.dbTsiGetMinSnr tsRi
  let anchor := ((db.dbTsiGetFirstCt tsRi).map env.parseTime).getD current
  let anchor := if anchor ≤ 0 then current else anchor
  -- `snr` and `base_snr` are subtracted as `int`
  let expected := anchor + cInt (snr - base) * period
  let missed :=
    if current < expected - delta then snr ≠ base
    else expected + delta < current && env.armed tsRi
  if missed then some expected else none

/-- A missing point is recorded: the list keeps the newest `mdn` and `mdc` is its length. -/
def recordMissing (ts : Obj) (time : CStr) : Obj :=
  let old : List Json := match ts.get .mdlt with
    | some (.arr l) => l
    | _ => []
  let all := old ++ [.str time]
  let mdn := (ts.num .mdn).getD 0
  let l := if 0 < mdn then all.drop (all.length - mdn.toNat) else all
  let ts := if ts.has .mdlt then ts.set .mdlt (.arr l) else ts.add .mdlt (.arr l)
  if ts.has .mdc then ts.set .mdc (.int l.length) else ts.add .mdc (.int l.length)

/-- The detection of a missing point at the arrival of an instance. What it tells the monitoring thread
and the subscribers is not part of the time series. -/
def detectMissing (env : TsEnv) (db : Db) (ts : Obj) (tsRi : CStr) (dgt : Option CStr) (snr : Int) : Obj :=
  match ts.get .mdd, ts.get .pei with
  | some mdd, some pei =>
    if mdd.isTrue ∧ 0 < pei.valueint then
      match missedSlot env db ts tsRi pei.valueint dgt snr with
      | none => ts
      | some slot => recordMissing ts (env.isoTime slot)
    else ts
  | _, _ => ts

/-- A counter of a time series as `create_tsi` finds it. -/
def normalizeCount (ts : Obj) (k : Attr) : Obj :=
  match ts.get k with
  | none => ts.add k (.int 0)
  | some j => ts.set k (j.setIntValue ((ts.num k).getD 0))

/-- The counters of a time series after an instance is stored: `cni` is counted, `cbs` is added to. -/
def countIn (db : Db) (tsRi : CStr) (cs : Int) (ts : Obj) : Obj :=
  let put (o : Obj) (k : Attr) (f : Int → Int) : Obj := match o.get k with
    | none => o
    | some j => o.set k (j.setIntValue (f j.valueint))
  put (put ts .cni fun _ => db.dbTsiGetCount tsRi) .cbs fun n => cInt (n + cs)

namespace Server

/-- The end of `create_tsi`: the limits apply, the row of the time series is written and the response is
made from the new node, which must still be there. -/
def settleTsi (s : Server) (ts : Nat) (tsRi : CStr) (mbs : Int) (new : Nat) : Option Outcome := do
  let parent ← s.node? ts
  let mni ← parent.obj.get .mni
  let (cni, cbs) ← s.counters ts
  let exceeds (cni cbs : Int) : Bool := mni.valueint < cni || mbs < cbs
  match ← evictTsi exceeds ts (s.tsis ts).length s cni cbs with
  | .endless => return .endless
  | .within s =>
    let n ← s.node? ts
    let _ ← s.node? new
    return .reply { s with db := s.db.dbUpdateResource n.obj tsRi } (done .created)

/-- `create_tsi` after its checks: the row, the counters of the time series, the new node. -/
def storeTsi (env : TsEnv) (s : Server) (parent : RTNode) (tsRi : CStr) (tsi : Obj) (cs mbs snr : Int) :
    Option Outcome := do
  let (tsi, n) ← addGeneralAttribute env.toEnv tsi parent.obj .tsi s.riCount
  let s := { s with riCount := n }
  let rn ← tsi.str .rn
  match s.db.dbStoreResource tsi (parent.uri ++ '/' :: rn) with
  | none => return .reply s (handleError .internalServerError "DB fail")
  | some db =>
    let ts := countIn db tsRi cs parent.obj
    let ts := detectMissing env db ts tsRi (tsi.str .dgt) snr
    let ts := ts.putStr .lt env.now
    let db := db.dbUpdateResource [(.lt, .str env.now)] tsRi
    let node ← createRtnode s.nextId tsi .tsi
    let s := { s with db := db, nextId := s.nextId + 1 }.setObj parent.id ts
    (s.addChildResourceTree parent node).settleTsi parent.id tsRi mbs node.id

/-- `create_tsi`. -/
def createTsi (env : TsEnv) (req : Req) (s : Server) (parent : RTNode) : Option Outcome :=
  if parent.ty ≠ .ts then some (.reply s (handleError .invalidChildResourcetype "Parent not TS"))
  else match validateMandatoryAttrs .tsi req.pc .create with
    | .error r => some (.reply s r)
    | .ok () => do
      let tsi := req.pc.del .cs
      let tsRi ← parent.ri
      if (tsi.str .dgt).any (s.db.dbTsiCheckDgtDup tsRi) then return .reply s (handleError .conflict "dgt dup")
      let con ← tsi.str .con
      let cs : Int := con.length
      let tsi := tsi.add .cs (.int cs)
      let mbs ← parent.obj.get .mbs
      if mbs.valueint < cs then return .reply s (handleError .notAcceptable "mbs exceed")
      let obj := normalizeCount (normalizeCount parent.obj .cni) .cbs
      let s := s.setObj parent.id obj
      match tsiSnr s.db tsRi tsi with
      | .error r => return .reply s r
      | .ok snr => s.storeTsi env { parent with obj := obj } tsRi (buildTsi s.db tsRi snr tsi) cs mbs.valueint snr

end Server

end TinyIoT
