/-
The transactions of the two back ends (`db_begin_tx`, `db_commit_tx`, `db_rollback_tx`) and the calls of
`create_cin` that are in progress. Every statement has the outcome its environment gives it, and the
threads take their steps in any order.
-/
import TinyIoT.Lib.Mutex
import TinyIoT.Lib.Reach
import TinyIoT.Database.Tables

namespace TinyIoT

/-! ## The connection -/

/-- How a statement ends. A statement that fails may take the open transaction with it. -/
inductive SqlOutcome where
  | ok
  | failed (lost : Bool)
  deriving DecidableEq, Repr

/-- `pg_conn`: NULL, not `CONNECTION_OK`, or connected; `db` of SQLite is always connected. -/
inductive Link where
  | absent
  | broken
  | up (inTx : Bool)
  deriving DecidableEq, Repr

namespace Link

/-- A transaction is open on the connection. -/
def inTx : Link → Bool
  | up t => t
  | _ => false

def isUp : Link → Bool
  | up _ => true
  | _ => false

/-- `BEGIN`. SQLite refuses it inside a transaction; PostgreSQL warns. -/
def sendBegin (b : Backend) : Link → SqlOutcome → Link × Bool
  | up t, .ok => if b = .sqlite ∧ t then (up t, false) else (up true, true)
  | up t, .failed lost => (up (t && !lost), false)
  | l, _ => (l, false)

/-- `COMMIT`, `END` and `ROLLBACK`. SQLite refuses them outside a transaction; PostgreSQL warns. -/
def sendEnd (b : Backend) : Link → SqlOutcome → Link × Bool
  | up t, .ok => if b = .sqlite ∧ !t then (up t, false) else (up false, true)
  | up t, .failed lost => (up (t && !lost), false)
  | l, _ => (l, false)

/-- A statement on rows. -/
def sendRow : Link → SqlOutcome → Link × Bool
  | up t, .ok => (up t, true)
  | up t, .failed lost => (up (t && !lost), false)
  | l, _ => (l, false)

/-- `get_pg_conn`: a connection that is lost is made again, where that succeeds. -/
def getConn (b : Backend) (reconnects : Bool) (l : Link) : Link × Bool :=
  if b = .sqlite ∨ l.isUp then (l, true) else if reconnects then (up false, true) else (absent, false)

end Link

/-! ## The transaction functions -/

/-- `tx_depth`, `tx_owner` (where `tx_owner_valid`), the lock and the connection. -/
structure TxState (θ : Type) where
  depth : Nat := 0
  owner : Option θ := none
  lock : RecMutex θ := .free
  link : Link := .up false

namespace TxState

variable {θ : Type} [DecidableEq θ]

/-- `db_begin_tx` of a thread that has the lock. -/
def dbBeginTxLocked (b : Backend) (t : θ) (reconnects : Bool) (o : SqlOutcome) (s : TxState θ) : TxState θ × Bool :=
  if s.depth ≠ 0 then ({ s with lock := s.lock.unlock t }, false)
  else
    let (l, found) := s.link.getConn b reconnects
    if found then
      let (l, began) := l.sendBegin b o
      if began then ({ s with link := l, owner := some t, depth := 1 }, true)
      else ({ s with link := l, lock := s.lock.unlock t }, false)
    else ({ s with link := l, lock := s.lock.unlock t }, false)

/-- `db_begin_tx`; `none` where the thread waits for the lock. -/
def dbBeginTx (b : Backend) (t : θ) (reconnects : Bool) (o : SqlOutcome) (s : TxState θ) : Option (TxState θ × Bool) :=
  if s.owner = some t then some ({ s with depth := s.depth + 1 }, true)
  else (s.lock.lock t).map fun m => dbBeginTxLocked b t reconnects o { s with lock := m }

/-- `db_commit_tx`. -/
def dbCommitTx (b : Backend) (t : θ) (o : SqlOutcome) (s : TxState θ) : TxState θ × Bool :=
  if s.owner ≠ some t then (s, false)
  else if s.depth = 0 then (s, false)
  else
    let s := { s with depth := s.depth - 1 }
    if s.depth = 0 ∧ s.link ≠ .absent then
      let (l, ended) := s.link.sendEnd b o
      -- the lock and the owner stay where the COMMIT fails
      if ended then ({ s with link := l, owner := none, lock := s.lock.unlock t }, true) else ({ s with link := l }, false)
    else (s, true)

/-- `db_rollback_tx`. -/
def dbRollbackTx (b : Backend) (t : θ) (o : SqlOutcome) (s : TxState θ) : TxState θ × Bool :=
  if s.owner ≠ some t then (s, false)
  else if s.depth = 0 ∨ s.link = .absent then ({ s with depth := 0, owner := none, lock := s.lock.unlock t }, false)
  else
    let s := { s with depth := 0 }
    let (l, ended) := s.link.sendEnd b o
    if ended then ({ s with link := l, owner := none, lock := s.lock.unlock t }, true) else ({ s with link := l }, false)

end TxState

/-! ## The row functions -/

/-- The functions `create_cin` and `update_cnt_cin` send their rows with. -/
inductive RowCall where
  | storeResource | updateResource | deleteOnem2mResource | deleteOneCinMni | getCinRtnodeList
  deriving DecidableEq, Repr

namespace RowCall

/-- The functions that open a transaction of their own where there is none. -/
def opensTx (k : RowCall) : Bool := k = .storeResource || k = .updateResource

def takesLock (b : Backend) (k : RowCall) : Bool :=
  b = .postgresql || k != .deleteOneCinMni && k != .getCinRtnodeList

end RowCall

/-- What the statements of a row function meet. -/
structure RowEnv where
  reconnects : Bool := true
  begun : SqlOutcome := .ok
  rows : SqlOutcome := .ok
  ended : SqlOutcome := .ok

namespace RowCall

/-- A row function outside a transaction. -/
def ownTx (b : Backend) (k : RowCall) (e : RowEnv) (l : Link) : Link × Bool :=
  let (l, began) := l.sendBegin b e.begun
  -- the result of the BEGIN in `db_store_resource` of SQLite is not looked at
  if began || b = .sqlite && k = .storeResource then
    let (l, done) := l.sendRow e.rows
    let (l, ended) := l.sendEnd b e.ended
    (l, done && (ended || b = .sqlite))
  else (l, false)

/-- What a row function does to the connection. -/
def onLink (b : Backend) (k : RowCall) (e : RowEnv) (depth : Nat) (l : Link) : Link × Bool :=
  let (l, found) := l.getConn b e.reconnects
  if found then
    if k.opensTx && depth = 0 then k.ownTx b e l
    else
      let (l, done) := l.sendRow e.rows
      -- a DELETE that fails ends the transaction it is in
      if !done && b = .sqlite && k = .deleteOnem2mResource then ((l.sendEnd b e.ended).1, false) else (l, done)
  else (l, false)

end RowCall

/-- A row function; `none` where the thread waits for the lock. -/
def TxState.rowCall {θ : Type} [DecidableEq θ] (b : Backend) (t : θ) (k : RowCall) (e : RowEnv) (s : TxState θ) :
    Option (TxState θ × Bool) :=
  let (l, done) := k.onLink b e s.depth s.link
  if k.takesLock b then (s.lock.lock t).map fun m => ({ s with link := l, lock := m.unlock t }, done)
  else some ({ s with link := l }, done)

/-! ## What the functions keep -/

namespace Link

variable {b : Backend} {l : Link} {o : SqlOutcome}

/-- A transaction ends where the statement succeeds. -/
theorem inTx_sendEnd (h : (l.sendEnd b o).2 = true) : (l.sendEnd b o).1.inTx = false := by
  cases l with
  | absent => cases h
  | broken => cases h
  | up t =>
    cases o with
    | failed lost => cases h
    | ok =>
      unfold sendEnd at h ⊢
      dsimp only at h ⊢
      split
      · rename_i hc
        rw [if_pos hc] at h
        cases h
      · rfl

theorem isUp_sendBegin : (l.sendBegin b o).1.isUp = l.isUp := by
  unfold sendBegin
  split
  · split <;> rfl
  · rfl
  · rfl

theorem isUp_sendEnd : (l.sendEnd b o).1.isUp = l.isUp := by
  unfold sendEnd
  split
  · split <;> rfl
  · rfl
  · rfl

theorem isUp_sendRow : (l.sendRow o).1.isUp = l.isUp := by
  unfold sendRow
  split <;> rfl

theorem isUp_of_sendBegin (h : (l.sendBegin b o).2 = true) : l.isUp = true := by
  cases l with
  | up t => rfl
  | absent => cases h
  | broken => cases h

/-- What is connected has been found. -/
theorem getConn_found {r : Bool} (h : (l.getConn b r).1.isUp = true) : (l.getConn b r).2 = true := by
  unfold getConn at h ⊢
  split
  · rfl
  · rename_i hc
    rw [if_neg hc] at h
    cases r with
    | true => rfl
    | false => cases h

/-- SQLite has its connection all the time. -/
def Reachable (b : Backend) (l : Link) : Prop := b = .sqlite → l.isUp = true

theorem Reachable.congr {l' : Link} (h : l.Reachable b) (he : l'.isUp = l.isUp) : l'.Reachable b := fun hb => he.trans (h hb)

theorem Reachable.getConn (h : l.Reachable b) (r : Bool) : (l.getConn b r).1.Reachable b := fun hb => by
  rw [Link.getConn, if_pos (.inl hb)]
  exact h hb

end Link

theorem RowCall.reachable_onLink {b : Backend} {l : Link} (k : RowCall) (e : RowEnv) (depth : Nat) (h : l.Reachable b) :
    (k.onLink b e depth l).1.Reachable b := by
  have hconn := h.getConn e.reconnects
  unfold onLink
  dsimp only
  split
  · split
    · unfold ownTx
      dsimp only
      split
      · exact hconn.congr (Link.isUp_sendEnd.trans (Link.isUp_sendRow.trans Link.isUp_sendBegin))
      · exact hconn.congr Link.isUp_sendBegin
    · split
      · exact hconn.congr (Link.isUp_sendEnd.trans Link.isUp_sendRow)
      · exact hconn.congr Link.isUp_sendRow
  · exact hconn

namespace TxState

variable {θ : Type} [DecidableEq θ] {b : Backend} {t : θ} {s s' : TxState θ} {o : SqlOutcome} {r : Bool}

/-- No transaction: depth 0, no owner, the lock free, none open on the connection. -/
structure Clear (s : TxState θ) : Prop where
  depth : s.depth = 0
  owner : s.owner = none
  lock : s.lock = .free
  link : s.link.inTx = false

/-- Thread `t` has its transaction. -/
structure Owned (t : θ) (s : TxState θ) : Prop where
  depth : s.depth = 1
  owner : s.owner = some t
  lock : s.lock = .held t 0

/-- `db_begin_tx` starts a transaction where it finds a connection and the BEGIN succeeds. -/
theorem owned_dbBeginTxLocked (h : s.Clear) (hl : s.link.Reachable b) {m : RecMutex θ} (hm : s.lock.lock t = some m)
    (hbegun : ((s.link.getConn b r).1.sendBegin b o).2 = true) :
    (dbBeginTxLocked b t r o { s with lock := m }).2 = true ∧
      (dbBeginTxLocked b t r o { s with lock := m }).1.link.Reachable b ∧
      (dbBeginTxLocked b t r o { s with lock := m }).1.Owned t := by
  have hheld : m = .held t 0 := by
    rw [h.lock] at hm
    cases hm
    rfl
  have hfound := Link.getConn_found (Link.isUp_of_sendBegin hbegun)
  have hconn := hl.getConn r
  unfold dbBeginTxLocked
  rw [if_neg (by simp [h.depth])]
  dsimp only
  rw [if_pos hfound, if_pos hbegun]
  exact ⟨rfl, hconn.congr Link.isUp_sendBegin, rfl, rfl, hheld⟩

/-- A COMMIT that succeeds leaves no transaction. -/
theorem clear_dbCommitTx (h : s.Owned t) (ho : (s.link.sendEnd b o).2 = true) :
    (dbCommitTx b t o s).2 = true ∧ (dbCommitTx b t o s).1.Clear := by
  have hlink : s.link ≠ .absent := by
    intro hl
    rw [hl] at ho
    cases ho
  unfold dbCommitTx
  rw [if_neg (by simp [h.owner]), if_neg (by simp [h.depth])]
  dsimp only
  rw [if_pos ⟨by rw [h.depth], hlink⟩, if_pos ho]
  refine ⟨rfl, by rw [h.depth], rfl, ?_, Link.inTx_sendEnd ho⟩
  show RecMutex.unlock t s.lock = _
  rw [h.lock, RecMutex.unlock_last]

theorem reachable_dbCommitTx (hl : s.link.Reachable b) : (dbCommitTx b t o s).1.link.Reachable b := by
  unfold dbCommitTx
  split
  · exact hl
  · split
    · exact hl
    · dsimp only
      split
      · split <;> exact hl.congr Link.isUp_sendEnd
      · exact hl

/-- A row function leaves the transaction to its owner. -/
theorem rowCall_cases {k : RowCall} {e : RowEnv} {done : Bool} (h : s.rowCall b t k e = some (s', done)) :
    ∃ l, s' = { s with link := l } ∧ (s.link.Reachable b → l.Reachable b) := by
  unfold rowCall at h
  dsimp only at h
  split at h
  · obtain ⟨m, hm, h⟩ := Option.map_eq_some_iff.mp h
    cases h
    exact ⟨_, by rw [RecMutex.unlock_of_lock hm], RowCall.reachable_onLink k e _⟩
  · cases h
    exact ⟨_, rfl, RowCall.reachable_onLink k e _⟩

end TxState

end TinyIoT
