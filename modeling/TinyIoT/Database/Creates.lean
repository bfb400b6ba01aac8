/-
Runs of `create_cin` calls on one connection: every thread takes the steps of the function one after the
other, every statement has any outcome, and the lock makes a thread wait. Every error path of the function
frees the instance's object twice. Where no call takes one after its BEGIN, no transaction is left behind.
-/
import Mathlib.Logic.Function.Basic
import TinyIoT.Database.Transactions

namespace TinyIoT

/-- Where a thread is in `create_cin`. -/
inductive CreatePoint where
  | idle
  | entered
  /-- In `db_begin_tx`, at `pg_lock`. -/
  | locking
  /-- In `update_cnt_cin`. -/
  | updating
  | storing
  | committing
  | rollingBack
  deriving DecidableEq, Repr

namespace CreatePoint

/-- The transaction is begun and not given back. -/
def inTx : CreatePoint → Bool
  | updating | storing | committing | rollingBack => true
  | _ => false

end CreatePoint

/-- A step of thread `t`, or the loss of the connection to PostgreSQL. -/
inductive TxAct (θ : Type) where
  | call (t : θ)
  /-- The request is refused before the database is used. -/
  | refuse (t : θ)
  | begin (t : θ)
  | lock (t : θ) (reconnects : Bool) (o : SqlOutcome)
  | row (t : θ) (k : RowCall) (e : RowEnv)
  /-- `update_cnt_cin` returns. -/
  | updated (t : θ) (done : Bool)
  | store (t : θ) (e : RowEnv)
  | commit (t : θ) (o : SqlOutcome)
  | rollback (t : θ) (o : SqlOutcome)
  | lose

/-- The transaction state and the points of the threads. -/
structure TxRun (θ : Type) where
  tx : TxState θ := {}
  point : θ → CreatePoint := fun _ => .idle
  /-- An object is freed twice: the process takes no further step. -/
  freedTwice : Bool := false

namespace TxRun

variable {θ : Type} [DecidableEq θ]

def goto (c : TxRun θ) (t : θ) (p : CreatePoint) (tx : TxState θ) : TxRun θ :=
  { c with tx := tx, point := Function.update c.point t p }

/-- The way out of `create_cin`. On its error paths `free_rtnode(cin_rtnode)` deletes the object, which is a member of
`root` and is deleted with it again. -/
def leave (c : TxRun θ) (t : θ) (failed : Bool) (tx : TxState θ) : TxRun θ :=
  { c.goto t .idle tx with freedTwice := c.freedTwice || failed }

/-- One step of the running process; `none` where the thread is elsewhere or waits. -/
def actRunning (b : Backend) (c : TxRun θ) : TxAct θ → Option (TxRun θ)
  | .call t => if c.point t = .idle then some (c.goto t .entered c.tx) else none
  | .refuse t => if c.point t = .entered then some (c.goto t .idle c.tx) else none
  | .begin t =>
    if c.point t = .entered then
      some (if c.tx.owner = some t then c.goto t .updating { c.tx with depth := c.tx.depth + 1 } else c.goto t .locking c.tx)
    else none
  | .lock t r o =>
    if c.point t = .locking then
      (c.tx.lock.lock t).map fun m =>
        let (tx, began) := TxState.dbBeginTxLocked b t r o { c.tx with lock := m }
        if began then c.goto t .updating tx else c.leave t true tx
    else none
  | .row t k e => if c.point t = .updating then (c.tx.rowCall b t k e).map fun r => c.goto t .updating r.1 else none
  | .updated t done =>
    if c.point t = .updating then some (c.goto t (if done then .storing else .rollingBack) c.tx) else none
  | .store t e =>
    if c.point t = .storing then
      (c.tx.rowCall b t .storeResource e).map fun r => c.goto t (if r.2 then .committing else .rollingBack) r.1
    else none
  | .commit t o =>
    if c.point t = .committing then
      let (tx, ended) := c.tx.dbCommitTx b t o
      some (c.leave t (!ended) tx)
    else none
  | .rollback t o => if c.point t = .rollingBack then some (c.leave t true (c.tx.dbRollbackTx b t o).1) else none
  | .lose => if b = .postgresql ∧ c.tx.link.isUp then some { c with tx := { c.tx with link := .broken } } else none

/-- One step. -/
def act (b : Backend) (c : TxRun θ) (a : TxAct θ) : Option (TxRun θ) :=
  if c.freedTwice then none else c.actRunning b a

/-- No `create_cin` is in progress. -/
def Quiet (c : TxRun θ) : Prop := ∀ t, c.point t = .idle

/-- A `create_cin` of any thread, where its `BEGIN` succeeds, has a transaction of its own. -/
def StartsOwn (b : Backend) (tx : TxState θ) : Prop :=
  ∀ t, ∃ tx', tx.dbBeginTx b t true .ok = some (tx', true) ∧ tx'.Owned t ∧ tx'.link.inTx = true

/-- Where no `create_cin` is in progress the process runs, there is no transaction, and the next one starts its own. -/
def Settled (b : Backend) (c : TxRun θ) : Prop := c.Quiet → c.freedTwice = false ∧ c.tx.Clear ∧ StartsOwn b c.tx

/-- There is a connection for the BEGIN and it succeeds, so do `update_cnt_cin`, the INSERT and the COMMIT; no
ROLLBACK is called for. -/
def Succeeds (b : Backend) (c : TxRun θ) : TxAct θ → Prop
  | .lock _ r o => ((c.tx.link.getConn b r).1.sendBegin b o).2 = true
  | .updated _ done => done = true
  | .store _ e => (RowCall.storeResource.onLink b e c.tx.depth c.tx.link).2 = true
  | .commit _ o => (c.tx.link.sendEnd b o).2 = true
  | .rollback _ _ => False
  | _ => True

instance (b : Backend) (c : TxRun θ) : (a : TxAct θ) → Decidable (c.Succeeds b a)
  | .lock _ r o => inferInstanceAs (Decidable (((c.tx.link.getConn b r).1.sendBegin b o).2 = true))
  | .updated _ done => inferInstanceAs (Decidable (done = true))
  | .store _ e => inferInstanceAs (Decidable ((RowCall.storeResource.onLink b e c.tx.depth c.tx.link).2 = true))
  | .commit _ o => inferInstanceAs (Decidable ((c.tx.link.sendEnd b o).2 = true))
  | .rollback _ _ => isFalse id
  | .call _ | .refuse _ | .begin _ | .row _ _ _ | .lose => isTrue trivial

/-- Any step. -/
def Step (b : Backend) (c c' : TxRun θ) : Prop := ∃ a, c.act b a = some c'

/-- A step in which no call of the database fails. -/
def SucceedingStep (b : Backend) (c c' : TxRun θ) : Prop := ∃ a, c.Succeeds b a ∧ c.act b a = some c'

/-! ## Who has the transaction -/

/-- The run seen from outside: nobody has the transaction, or one thread has it and is the only one between its
begin and its end. -/
structure Has (b : Backend) (who : Option θ) (c : TxRun θ) : Prop where
  link : c.tx.link.Reachable b
  tx : who.elim c.tx.Clear fun t => c.tx.Owned t
  inside : ∀ t, (c.point t).inTx = true ↔ who = some t
  running : c.freedTwice = false

variable {b : Backend} {c c' : TxRun θ} {who : Option θ} {t : θ} {p : CreatePoint} {tx : TxState θ}

theorem goto_point_self (c : TxRun θ) (t : θ) (p : CreatePoint) (tx : TxState θ) : (c.goto t p tx).point t = p := by
  simp [goto]

theorem goto_point_of_ne {u : θ} (h : u ≠ t) (c : TxRun θ) (p : CreatePoint) (tx : TxState θ) :
    (c.goto t p tx).point u = c.point u := by
  simp [goto, h]

omit [DecidableEq θ] in
theorem has_start (b : Backend) : Has b none ({} : TxRun θ) :=
  ⟨fun _ => rfl, ⟨rfl, rfl, rfl, rfl⟩, fun t => by simp [CreatePoint.inTx], rfl⟩

/-- A step within or outside a transaction. -/
theorem Has.keep (h : Has b who c) (hp : p.inTx = (c.point t).inTx) (hl : tx.link.Reachable b)
    (htx : who.elim tx.Clear fun t => tx.Owned t) : Has b who (c.goto t p tx) := by
  refine ⟨hl, htx, fun u => ?_, h.running⟩
  by_cases hu : u = t
  · subst hu
    rw [goto_point_self, hp]
    exact h.inside u
  · rw [goto_point_of_ne hu]
    exact h.inside u

/-- A transaction begins. -/
theorem Has.start (h : Has b none c) (hp : p.inTx = true) (hl : tx.link.Reachable b) (htx : tx.Owned t) :
    Has b (some t) (c.goto t p tx) := by
  refine ⟨hl, htx, fun u => ?_, h.running⟩
  by_cases hu : u = t
  · subst hu
    rw [goto_point_self]
    simp [hp]
  · rw [goto_point_of_ne hu]
    constructor
    · intro hi
      cases (h.inside u).mp hi
    · intro he
      exact absurd (Option.some.inj he).symm hu

/-- A transaction ends. -/
theorem Has.finish (h : Has b (some t) c) (hp : p.inTx = false) (hl : tx.link.Reachable b) (htx : tx.Clear) :
    Has b none (c.goto t p tx) := by
  refine ⟨hl, htx, fun u => ?_, h.running⟩
  by_cases hu : u = t
  · subst hu
    rw [goto_point_self]
    simp [hp]
  · rw [goto_point_of_ne hu]
    constructor
    · intro hi
      exact absurd (Option.some.inj ((h.inside u).mp hi)).symm hu
    · intro he
      cases he

omit [DecidableEq θ] in
/-- A thread in the transaction is the one that has it. -/
theorem Has.owned (h : Has b who c) (hp : (c.point t).inTx = true) : who = some t ∧ c.tx.Owned t := by
  have hw := (h.inside t).mp hp
  subst hw
  exact ⟨rfl, h.tx⟩

/-- The lock is given to a thread outside the transaction where nobody has it. -/
theorem Has.none_of_lock (h : Has b who c) (hp : (c.point t).inTx = false) {m : RecMutex θ}
    (hm : c.tx.lock.lock t = some m) : who = none := by
  cases who with
  | none => rfl
  | some u =>
    have hut : u ≠ t := fun he => by
      subst he
      rw [(h.inside u).mpr rfl] at hp
      cases hp
    have howned : c.tx.Owned u := h.tx
    rw [howned.lock, RecMutex.lock_other hut] at hm
    cases hm

omit [DecidableEq θ] in
/-- A thread outside the transaction is not the owner. -/
theorem Has.not_owner (h : Has b who c) (hp : (c.point t).inTx = false) : c.tx.owner ≠ some t := by
  intro howner
  cases who with
  | none =>
    have hclear : c.tx.Clear := h.tx
    rw [hclear.owner] at howner
    cases howner
  | some u =>
    have howned : c.tx.Owned u := h.tx
    rw [howned.owner] at howner
    rw [(h.inside t).mpr howner] at hp
    cases hp

/-- A row function of the thread that has the transaction. -/
theorem Has.rowCall (h : Has b who c) (hin : (c.point t).inTx = true) (hp : p.inTx = true) {k : RowCall} {e : RowEnv}
    {done : Bool} (hr : c.tx.rowCall b t k e = some (tx, done)) : Has b who (c.goto t p tx) := by
  obtain ⟨l, rfl, hl⟩ := TxState.rowCall_cases hr
  obtain ⟨rfl, howned⟩ := h.owned hin
  exact h.keep (hp.trans hin.symm) (hl h.link) ⟨howned.depth, howned.owner, howned.lock⟩

/-- What a step does to who has the transaction. -/
theorem Has.step (h : Has b who c) {a : TxAct θ} (hok : c.Succeeds b a) (hs : c.act b a = some c') :
    ∃ who', Has b who' c' := by
  rw [act, h.running, if_neg (by simp)] at hs
  cases a with
  | call t =>
    simp only [actRunning, Option.ite_none_right_eq_some, Option.some.injEq] at hs
    obtain ⟨hp, rfl⟩ := hs
    exact ⟨who, h.keep (by rw [hp]; rfl) h.link h.tx⟩
  | refuse t =>
    simp only [actRunning, Option.ite_none_right_eq_some, Option.some.injEq] at hs
    obtain ⟨hp, rfl⟩ := hs
    exact ⟨who, h.keep (by rw [hp]; rfl) h.link h.tx⟩
  | begin t =>
    simp only [actRunning, Option.ite_none_right_eq_some, Option.some.injEq] at hs
    obtain ⟨hp, rfl⟩ := hs
    rw [if_neg (h.not_owner (by rw [hp]; rfl))]
    exact ⟨who, h.keep (by rw [hp]; rfl) h.link h.tx⟩
  | lock t r o =>
    simp only [actRunning, Option.ite_none_right_eq_some] at hs
    obtain ⟨hp, hs⟩ := hs
    obtain ⟨m, hm, rfl⟩ := Option.map_eq_some_iff.mp hs
    have hw := h.none_of_lock (by rw [hp]; rfl) hm
    subst hw
    obtain ⟨hbegan, hl, howned⟩ := TxState.owned_dbBeginTxLocked h.tx h.link hm hok
    rw [if_pos hbegan]
    exact ⟨some t, h.start rfl hl howned⟩
  | row t k e =>
    simp only [actRunning, Option.ite_none_right_eq_some] at hs
    obtain ⟨hp, hs⟩ := hs
    obtain ⟨⟨tx, done⟩, hr, rfl⟩ := Option.map_eq_some_iff.mp hs
    exact ⟨who, h.rowCall (by rw [hp]; rfl) rfl hr⟩
  | updated t done =>
    simp only [actRunning, Option.ite_none_right_eq_some, Option.some.injEq] at hs
    obtain ⟨hp, rfl⟩ := hs
    exact ⟨who, h.keep (by rw [hp]; cases done <;> rfl) h.link h.tx⟩
  | store t e =>
    simp only [actRunning, Option.ite_none_right_eq_some] at hs
    obtain ⟨hp, hs⟩ := hs
    obtain ⟨⟨tx, done⟩, hr, rfl⟩ := Option.map_eq_some_iff.mp hs
    exact ⟨who, h.rowCall (by rw [hp]; rfl) (by cases done <;> rfl) hr⟩
  | commit t o =>
    simp only [actRunning, Option.ite_none_right_eq_some, Option.some.injEq] at hs
    obtain ⟨hp, rfl⟩ := hs
    obtain ⟨rfl, howned⟩ := h.owned (t := t) (by rw [hp]; rfl)
    obtain ⟨hended, hclear⟩ := TxState.clear_dbCommitTx howned hok
    have hfin : Has b none (c.goto t .idle (c.tx.dbCommitTx b t o).1) :=
      h.finish rfl (TxState.reachable_dbCommitTx h.link) hclear
    refine ⟨none, hfin.link, hfin.tx, hfin.inside, ?_⟩
    rw [leave, h.running, hended]
    rfl
  | rollback t o => exact hok.elim
  | lose =>
    simp only [actRunning, Option.ite_none_right_eq_some, Option.some.injEq] at hs
    obtain ⟨⟨hb, -⟩, rfl⟩ := hs
    refine ⟨who, fun hb' => absurd (hb.symm.trans hb') (by simp), ?_, h.inside, h.running⟩
    have htx := h.tx
    cases who with
    | none =>
      have hclear : c.tx.Clear := htx
      exact ⟨hclear.depth, hclear.owner, hclear.lock, rfl⟩
    | some u =>
      have howned : c.tx.Owned u := htx
      exact ⟨howned.depth, howned.owner, howned.lock⟩

/-- Where there is no transaction the next one is begun. -/
theorem startsOwn_of_clear (h : tx.Clear) (hl : tx.link.Reachable b) : StartsOwn b tx := by
  intro t
  have hconn : ∃ l, tx.link.getConn b true = (.up l, true) ∧ l = false := by
    obtain ⟨-, -, -, hnone⟩ := h
    unfold Link.getConn
    split
    · rename_i hup
      have hup : tx.link.isUp = true := hup.elim hl id
      cases hlink : tx.link with
      | up l =>
        rw [hlink] at hnone
        exact ⟨l, rfl, hnone⟩
      | _ => simp [hlink, Link.isUp] at hup
    · exact ⟨false, rfl, rfl⟩
  obtain ⟨l, hconn, rfl⟩ := hconn
  refine ⟨{ depth := 1, owner := some t, lock := .held t 0, link := .up true }, ?_, ⟨rfl, rfl, rfl⟩, rfl⟩
  simp [TxState.dbBeginTx, TxState.dbBeginTxLocked, h.owner, h.lock, h.depth, hconn, Link.sendBegin]

end TxRun

variable {θ : Type} [DecidableEq θ]

/-- In every run of `create_cin` calls in which no call of the database fails, whatever the threads do in between, no
transaction is left where no call is in progress, and the next call starts its own. -/
theorem settled_of_succeeding_run {b : Backend} {c : TxRun θ} (h : Reach (· = {}) (TxRun.SucceedingStep b) c) :
    c.Settled b := by
  have hwho : ∃ who, c.Has b who := h.inv (I := fun c => ∃ who, c.Has b who)
    (fun _ hc => ⟨none, hc ▸ TxRun.has_start b⟩) fun _ _ ⟨_, hi⟩ ⟨_, hok, hs⟩ => hi.step hok hs
  obtain ⟨who, hw⟩ := hwho
  intro hquiet
  cases who with
  | none => exact ⟨hw.running, hw.tx, TxRun.startsOwn_of_clear hw.tx hw.link⟩
  | some t =>
    have hin := (hw.inside t).mpr rfl
    rw [hquiet t] at hin
    cases hin

/-! ## Two threads -/

namespace TxRun

/-- Runs given by their steps. -/
def run (b : Backend) (as : List (TxAct (Fin 2))) : Option (TxRun (Fin 2)) := as.foldlM (act b) {}

/-- A call of `create_cin` up to the end of its transaction. -/
def storesRow (t : Fin 2) : List (TxAct (Fin 2)) :=
  [.call t, .begin t, .lock t true .ok, .row t .updateResource {}, .updated t true, .store t {}]

/-- The second thread begins between two steps of the first one and waits for the lock; between the two transactions
the connection is lost and a request is refused. -/
def twoCreates : List (TxAct (Fin 2)) :=
  [.call 1, .begin 1] ++ storesRow 0 ++ [.commit 0 .ok, .lose, .call 0, .refuse 0, .lock 1 true .ok,
    .row 1 .deleteOneCinMni { rows := .failed false }, .updated 1 true, .store 1 {}, .commit 1 .ok]

end TxRun

theorem settled_of_succeeding_run_two : ∃ c : TxRun (Fin 2), Reach (· = {}) (TxRun.SucceedingStep .postgresql) c ∧
    c.Quiet ∧ c.freedTwice = false ∧ c.tx.Clear := by
  have hrun : (TxRun.twoCreates.foldlM (fun (c : TxRun (Fin 2)) a =>
      if c.Succeeds .postgresql a then c.act .postgresql a else none)
      {}).any (fun c => decide (∀ t, c.point t = .idle)) = true := by decide
  obtain ⟨c, hc, hquiet⟩ := (Option.any_eq_true _ _).mp hrun
  have hr : Reach (· = {}) (TxRun.SucceedingStep .postgresql) c := by
    refine Reach.of_foldlM ?_ _ (.start rfl) hc
    intro c a c' hc'
    obtain ⟨hok, hs⟩ := Option.ite_none_right_eq_some.mp hc'
    exact ⟨a, hok, hs⟩
  have hquiet : c.Quiet := fun t => of_decide_eq_true hquiet t
  obtain ⟨hrunning, hclear, -⟩ := settled_of_succeeding_run hr hquiet
  exact ⟨c, hr, hquiet, hrunning, hclear⟩

/-- A COMMIT that fails leaves its thread the owner. -/
theorem exists_left (b : Backend) : ∃ c : TxRun (Fin 2), Reach (· = {}) (TxRun.Step b) c ∧
    c.Quiet ∧ ¬ c.Settled b ∧ ¬ c.tx.Clear ∧ c.freedTwice = true := by
  have hrun : (TxRun.run b (TxRun.storesRow 0 ++ [.commit 0 (.failed true)])).any (fun c =>
      decide (∀ t, c.point t = .idle) && c.freedTwice && c.tx.owner = some 0 && c.tx.lock = .held 0 0) = true := by
    cases b <;> decide
  obtain ⟨c, hc, hleft⟩ := (Option.any_eq_true _ _).mp hrun
  simp only [Bool.and_eq_true, decide_eq_true_eq] at hleft
  obtain ⟨⟨⟨hquiet, hfreed⟩, howner⟩, -⟩ := hleft
  have hr : Reach (· = {}) (TxRun.Step b) c := Reach.of_foldlM (fun _ a _ hs => ⟨a, hs⟩) _ (.start rfl) hc
  have hnot : ¬ c.tx.Clear := by
    intro hclear
    rw [hclear.owner] at howner
    cases howner
  exact ⟨c, hr, hquiet, fun hsettled => hnot (hsettled hquiet).2.1, hnot, hfreed⟩

/-- After a COMMIT that fails its thread is the owner still and has the lock, and the object is freed twice. -/
theorem not_settled_after_failed_commit :
    (∃ c : TxRun (Fin 2), Reach (· = {}) (TxRun.Step .postgresql) c ∧
      c.Quiet ∧ ¬ c.Settled .postgresql ∧ ¬ c.tx.Clear ∧ c.freedTwice = true) ∧
    ∃ c : TxRun (Fin 2), Reach (· = {}) (TxRun.Step .sqlite) c ∧
      c.Quiet ∧ ¬ c.Settled .sqlite ∧ ¬ c.tx.Clear ∧ c.freedTwice = true :=
  ⟨exists_left .postgresql, exists_left .sqlite⟩

end TinyIoT
