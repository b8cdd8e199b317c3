import RGraph.Lib.Run
import RGraph.Txn.LockTable

/-!
# The transaction manager (`txn/manager.rs`)

Transactions take locks through `acquire_lock`, `acquire_range_lock` and
`record_phantom_write`, and end through `commit` or `rollback`, or inside a
lock call when they find that an older transaction has wounded them.

A call borrows its `Transaction` mutably, so a transaction is in one call at a
time, but the calls of different transactions run on different threads. What
they share is the lock table, the abort registry, the active set and the SSI
sets, each behind its own mutex. A call is therefore cut at its accesses to
these: `Pc` is the place in the call where the next access happens, and
`TxOp.step` lets one thread make it. A run is any order of such steps.

A waiter sleeps in `recv_timeout`. When its thread is scheduled it either finds
the grant in its channel or has timed out; both are the step of `Pc.wait`,
according to whether the grant has been sent.
-/

namespace RGraph.Txn

inductive IsolationLevel where
  | readUncommitted
  | readCommitted
  | repeatableRead
  | serializable
  deriving DecidableEq, Repr

inductive TxStatus where
  | active
  | committed
  | aborted
  deriving DecidableEq, Repr

inductive TxError where
  | walFlush
  | woundWait (txid : TxId)
  | notActive (txid : TxId) (status : TxStatus)
  | phantomConflict (txid : TxId)
  deriving DecidableEq, Repr

/-- A lock call with its arguments. -/
inductive LockCall where
  | acquireLock (resourceId : ResourceId) (mode : LockMode)
  | acquireRangeLock (rangeId : ResourceId)
  | recordPhantomWrite (rangeId : ResourceId)
  deriving DecidableEq, Repr

def LockCall.resource : LockCall → ResourceId
  | .acquireLock r _ => r
  | .acquireRangeLock r => r
  | .recordPhantomWrite r => r

def LockCall.mode : LockCall → LockMode
  | .acquireLock _ m => m
  | .acquireRangeLock _ => .shared
  | .recordPhantomWrite _ => .exclusive

/-- How a transaction that has started to release its locks will end. -/
inductive Ending where
  | commit
  | rollback
  /-- The rollback that `commit` makes when SSI validation fails. -/
  | phantomConflict
  /-- Wounded, and found out inside a lock call. -/
  | wounded
  deriving DecidableEq, Repr

/-- The next shared access of a transaction's thread. -/
inductive Pc where
  /-- No call in progress. -/
  | idle
  /-- `acquire_lock`: look oneself up in the abort registry. -/
  | entry (c : LockCall)
  /-- `record_phantom_write`: take the active snapshot. -/
  | snapshot (c : LockCall)
  /-- `record_phantom_write`: read the holders, mark the active readers. -/
  | readers (c : LockCall) (snap : List TxId)
  /-- The head of the loop: `try_acquire`. -/
  | attempt (c : LockCall)
  /-- `acquire_lock`, denied: look oneself up again. -/
  | denied (c : LockCall) (rx : Option Chan)
  /-- Read the holders and decide to wound, to wait or to retry. -/
  | inspect (c : LockCall) (rx : Option Chan)
  /-- Wounding: `abort_registry.mark_aborted`. -/
  | mark (c : LockCall) (victim : TxId)
  /-- Wounding: release the contested resource of the victim. -/
  | wound (c : LockCall) (victim : TxId)
  /-- `recv_timeout`. -/
  | wait (c : LockCall) (rx : Chan)
  /-- `acquire_lock`, told `granted`: look oneself up once more. -/
  | notified (c : LockCall)
  /-- Timed out: look oneself up before the next attempt. -/
  | timedOut (c : LockCall)
  /-- Releasing what `held_locks` and `read_ranges` list, one at a time. -/
  | releasing (rs : List ResourceId) (how : Ending)
  deriving DecidableEq, Repr

/-- A transaction, the place its thread has reached, and what its last
finished call returned. -/
structure Transaction where
  status : TxStatus
  isolationLevel : IsolationLevel
  heldLocks : List ResourceId
  readRanges : List ResourceId
  inConflict : Bool
  outConflict : Bool
  pc : Pc
  result : Except TxError Unit
  deriving Repr

namespace Transaction

def begin (level : IsolationLevel) : Transaction :=
  ⟨.active, level, [], [], false, false, .idle, .ok ()⟩

def isActive (tx : Transaction) : Bool := tx.status == .active

/-- Come back from a call. -/
def answer (tx : Transaction) (res : Except TxError Unit) : Transaction :=
  { tx with pc := .idle, result := res }

def goto (tx : Transaction) (pc : Pc) : Transaction := { tx with pc := pc }

/-- `push` unless the vector contains it. -/
def pushNew (rs : List ResourceId) (r : ResourceId) : List ResourceId :=
  if rs.contains r then rs else rs ++ [r]

/-- Track a granted resource, so that `release_all` can free it later. -/
def track (tx : Transaction) (c : LockCall) : Transaction :=
  match c with
  | .acquireLock r _ => { tx with heldLocks := pushNew tx.heldLocks r }
  | .acquireRangeLock r => { tx with readRanges := pushNew tx.readRanges r }
  | .recordPhantomWrite r => { tx with heldLocks := pushNew tx.heldLocks r }

/-- The two `release_all` calls, first over `held_locks` and then over
`read_ranges`; both vectors are cleared. -/
def startRelease (tx : Transaction) (how : Ending) : Transaction :=
  { tx with
    heldLocks := [], readRanges := []
    pc := .releasing (tx.heldLocks ++ tx.readRanges) how }

end Transaction

/-- The shared components, and the transactions by id. Of the global state the
active set and the id counter are kept. `sent` lists the channels that a grant
has been sent to. -/
structure TransactionManager where
  nextTxid : TxId
  active : List TxId
  lockTable : LockTable
  abortRegistry : List TxId
  outSet : List TxId
  sent : List Chan
  txs : TxId → Option Transaction

namespace TransactionManager

def new : TransactionManager := ⟨1, [], LockTable.new, [], [], [], fun _ => none⟩

def isAborted (s : TransactionManager) (t : TxId) : Bool := s.abortRegistry.contains t

/-- Write a transaction back. -/
def setTx (s : TransactionManager) (t : TxId) (tx : Transaction) : TransactionManager :=
  { s with txs := Function.update s.txs t (some tx) }

/-- Under Serializable, both SSI conflicts are recorded. The manager's own
calls never fill the tracker's `in_set`. -/
def isDoomed (s : TransactionManager) (t : TxId) (tx : Transaction) : Bool :=
  tx.isolationLevel == .serializable &&
    ((tx.outConflict || s.outSet.contains t) && tx.inConflict)

/-- `LockTable::release`, with the grants it sends. -/
def release (s : TransactionManager) (r : ResourceId) (t : TxId) : TransactionManager :=
  let (table, woken) := s.lockTable.release r t
  { s with lockTable := table, sent := s.sent ++ woken.map Waiter.sender }

/-- `global_state.commit_tx` or `abort_tx`, and `ssi_tracker.cleanup`. -/
def forget (s : TransactionManager) (t : TxId) : TransactionManager :=
  { s with active := s.active.erase t, outSet := s.outSet.erase t }

/-- The end of `commit`, `rollback` and of the abort of a wounded transaction,
after the locks. A commit leaves the abort registry alone. -/
def finish (s : TransactionManager) (t : TxId) (tx : Transaction)
    (how : Ending) : TransactionManager :=
  let s := s.forget t
  match how with
  | .commit => s.setTx t ({ tx with status := .committed }.answer (.ok ()))
  | .rollback =>
    { s with abortRegistry := s.abortRegistry.erase t }.setTx t
      ({ tx with status := .aborted }.answer (.ok ()))
  | .phantomConflict =>
    { s with abortRegistry := s.abortRegistry.erase t }.setTx t
      ({ tx with status := .aborted }.answer (.error (.phantomConflict t)))
  | .wounded =>
    { s with abortRegistry := s.abortRegistry.erase t }.setTx t
      ({ tx with status := .aborted }.answer (.error (.woundWait t)))

/-- The SSI part of `record_phantom_write`: every other holder that reads the
range and was active in the snapshot gets `out_conflict`. -/
def activeReaders (s : TransactionManager) (t : TxId) (r : ResourceId)
    (snap : List TxId) : List TxId :=
  ((s.lockTable.holders r).filter fun h =>
    h.1 != t && (h.2 == .shared || h.2 == .intentionShared) && snap.contains h.1).map Prod.fst

/-- A lock call after `is_active`. Only `acquire_lock` starts at the abort
registry. -/
def callStart : LockCall → Pc
  | .acquireLock r m => .entry (.acquireLock r m)
  | .acquireRangeLock r => .attempt (.acquireRangeLock r)
  | .recordPhantomWrite r => .snapshot (.recordPhantomWrite r)

/-- After a denied attempt. -/
def callDenied (rx : Option Chan) : LockCall → Pc
  | .acquireLock r m => .denied (.acquireLock r m) rx
  | .acquireRangeLock r => .inspect (.acquireRangeLock r) rx
  | .recordPhantomWrite r => .inspect (.recordPhantomWrite r) rx

/-- Wound-wait over the holders read, in their order: wound the first one
younger than the requester, else wait, else (no other holder) retry. -/
def callInspect (s : TransactionManager) (t : TxId) (c : LockCall) (rx : Option Chan) : Pc :=
  let others := ((s.lockTable.holders c.resource).map Prod.fst).filter (· != t)
  match others.find? (fun h => decide (t < h)) with
  | some victim => .mark c victim
  | none =>
    match others, rx with
    | [], _ => .attempt c
    | _ :: _, some rx => .wait c rx
    | _ :: _, none => .attempt c

/-- A grant was received. `acquire_lock` checks the registry before it tracks
the resource, the two others do not. -/
def callGranted (s : TransactionManager) (t : TxId) (tx : Transaction) :
    LockCall → TransactionManager
  | .acquireLock r m => s.setTx t (tx.goto (.notified (.acquireLock r m)))
  | .acquireRangeLock r => s.setTx t ((tx.track (.acquireRangeLock r)).answer (.ok ()))
  | .recordPhantomWrite r => s.setTx t ((tx.track (.recordPhantomWrite r)).answer (.ok ()))

/-- One shared access of the thread of `t`. -/
def stepTx (s : TransactionManager) (t : TxId) (tx : Transaction) : TransactionManager :=
  match tx.pc with
  | .idle => s
  | .entry c =>
    if s.isAborted t then s.setTx t (tx.startRelease .wounded)
    else s.setTx t (tx.goto (.attempt c))
  | .snapshot c => s.setTx t (tx.goto (.readers c s.active))
  | .readers c snap =>
    let readers := s.activeReaders t c.resource snap
    { s with outSet := s.outSet ∪ readers }.setTx t
      { tx with
        inConflict := tx.inConflict || !readers.isEmpty, pc := .attempt c }
  | .attempt c =>
    match s.lockTable.tryAcquire c.resource t c.mode with
    | (table, .granted, _) =>
      { s with lockTable := table }.setTx t ((tx.track c).answer (.ok ()))
    | (table, .denied, rx) =>
      { s with lockTable := table }.setTx t (tx.goto (callDenied rx c))
  | .denied c rx =>
    if s.isAborted t then s.setTx t (tx.startRelease .wounded)
    else s.setTx t (tx.goto (.inspect c rx))
  | .inspect c rx => s.setTx t (tx.goto (s.callInspect t c rx))
  | .mark c victim =>
    { s with abortRegistry := s.abortRegistry.insert victim }.setTx t
      (tx.goto (.wound c victim))
  | .wound c victim =>
    ((s.release c.resource victim).forget victim).setTx t
      (tx.answer (.error (.woundWait victim)))
  | .wait c rx =>
    if s.sent.contains rx then s.callGranted t tx c
    else s.setTx t (tx.goto (.timedOut c))
  | .notified c =>
    if s.isAborted t then s.setTx t (tx.startRelease .wounded)
    else s.setTx t ((tx.track c).answer (.ok ()))
  | .timedOut c =>
    if s.isAborted t then s.setTx t (tx.startRelease .wounded)
    else s.setTx t (tx.goto (.attempt c))
  | .releasing [] how => s.finish t tx how
  | .releasing (r :: rs) how => (s.release r t).setTx t (tx.goto (.releasing rs how))

/-- `begin_with_isolation`. -/
def beginWithIsolation (s : TransactionManager) (level : IsolationLevel) : TransactionManager :=
  { s with
    nextTxid := s.nextTxid + 1
    active := s.active ++ [s.nextTxid] }.setTx s.nextTxid (Transaction.begin level)

/-- The start of a lock call. -/
def callLock (s : TransactionManager) (t : TxId) (tx : Transaction)
    (c : LockCall) : TransactionManager :=
  if tx.isActive then s.setTx t (tx.goto (callStart c))
  else s.setTx t (tx.answer (.error (.notActive t tx.status)))

/-- `commit` up to its first release. `walOk` says whether the commit record
was appended and flushed; if not, the transaction stays active. -/
def commit (s : TransactionManager) (t : TxId) (tx : Transaction)
    (walOk : Bool) : TransactionManager :=
  if tx.isActive then
    if s.isDoomed t tx then s.setTx t (tx.startRelease .phantomConflict)
    else if walOk then s.setTx t (tx.startRelease .commit)
    else s.setTx t (tx.answer (.error .walFlush))
  else s.setTx t (tx.answer (.error (.notActive t tx.status)))

/-- `rollback` up to its first release; the abort record is best effort. -/
def rollback (s : TransactionManager) (t : TxId) (tx : Transaction) : TransactionManager :=
  if tx.isActive then s.setTx t (tx.startRelease .rollback)
  else s.setTx t (tx.answer (.error (.notActive t tx.status)))

end TransactionManager

/-- A thread begins a transaction, starts a call on one, or makes the next
access of the call it is in. -/
inductive TxOp where
  | begin (level : IsolationLevel)
  | lock (t : TxId) (c : LockCall)
  | commit (t : TxId) (walOk : Bool)
  | rollback (t : TxId)
  | step (t : TxId)
  deriving DecidableEq, Repr

/-- One step of the system. A call starts only when its transaction is in
none. -/
def txStep (s : TransactionManager) : TxOp → TransactionManager
  | .begin level => s.beginWithIsolation level
  | .lock t c =>
    match s.txs t with
    | some tx => if tx.pc = .idle then s.callLock t tx c else s
    | none => s
  | .commit t walOk =>
    match s.txs t with
    | some tx => if tx.pc = .idle then s.commit t tx walOk else s
    | none => s
  | .rollback t =>
    match s.txs t with
    | some tx => if tx.pc = .idle then s.rollback t tx else s
    | none => s
  | .step t =>
    match s.txs t with
    | some tx => s.stepTx t tx
    | none => s

end RGraph.Txn
