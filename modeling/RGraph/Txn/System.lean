import RGraph.Txn.Manager
import RGraph.Txn.State

/-!
# The transaction manager with its logs

The manager's calls write two logs: the abort log of the global state, which
the snapshots read, and the write-ahead log, whose commit records decide after
a crash which transactions happened. `TxSystem` is the manager together with
both, each written by the accesses that write it in `txn/manager.rs`: a wound
calls `abort_tx` for its victim, a transaction that ends calls `commit_tx` or
`abort_tx` for itself, and `commit` appends a commit record and flushes.

A flush that fails leaves the appended records in the writer's buffer, where
the next flush finds them, whoever makes it.
-/

namespace RGraph.Txn

open RGraph.Lib

/-- What the write-ahead log answers to a commit. -/
inductive WalOutcome where
  | appendFailed
  | flushFailed
  | flushed
  deriving DecidableEq, Repr

/-- The global state is kept with its history. `walBuffer` and `walDurable`
are the transactions with a commit record in the buffer and on disk, and
`wounded` those that an older requester has put in the abort registry. -/
structure TxSystem where
  manager : TransactionManager
  history : TxHistory
  walBuffer : List TxId
  walDurable : List TxId
  wounded : List TxId

inductive SysOp where
  | begin (level : IsolationLevel)
  | lock (t : TxId) (c : LockCall)
  | commit (t : TxId) (outcome : WalOutcome)
  | rollback (t : TxId)
  | step (t : TxId)
  /-- A flush of the write-ahead log on somebody else's behalf. -/
  | flush
  deriving DecidableEq, Repr

namespace TxSystem

def new : TxSystem := ⟨TransactionManager.new, TxHistory.withStart txIdBootstrap, [], [], []⟩

/-- With a commit record in the log, on disk or on the way there. -/
def appended (s : TxSystem) : List TxId := s.walBuffer ++ s.walDurable

def flushWal (s : TxSystem) : TxSystem :=
  { s with walBuffer := [], walDurable := s.walDurable ++ s.walBuffer }

/-- `commit` gets past the status check and SSI validation. -/
def reachesWal (m : TransactionManager) (t : TxId) : Bool :=
  match m.txs t with
  | some tx => decide (tx.pc = .idle) && tx.isActive && !m.isDoomed t tx
  | none => false

def logCommit (s : TxSystem) (t : TxId) : WalOutcome → TxSystem
  | .appendFailed => s
  | .flushFailed => { s with walBuffer := s.walBuffer ++ [t] }
  | .flushed => flushWal { s with walBuffer := s.walBuffer ++ [t] }

/-- The log after a call of `commit`. -/
def logged (s : TxSystem) (t : TxId) (outcome : WalOutcome) : TxSystem :=
  if reachesWal s.manager t then s.logCommit t outcome else s

/-- The call on the global state that goes with an access of `t`. -/
def globalCall (h : TxHistory) (t : TxId) : Pc → TxHistory
  | .wound _ victim => h.step (.abort victim)
  | .releasing [] .commit => h.step (.commit t)
  | .releasing [] _ => h.step (.abort t)
  | _ => h

def marked (wounded : List TxId) : Pc → List TxId
  | .mark _ victim => wounded.insert victim
  | _ => wounded

def step (s : TxSystem) : SysOp → TxSystem
  | .begin level =>
    { s with
      manager := txStep s.manager (.begin level)
      history := s.history.step .begin }
  | .lock t c => { s with manager := txStep s.manager (.lock t c) }
  | .commit t outcome =>
    { s.logged t outcome with
      manager := txStep s.manager (.commit t (outcome == .flushed)) }
  | .rollback t => { s with manager := txStep s.manager (.rollback t) }
  | .step t =>
    match s.manager.txs t with
    | some tx =>
      { s with
        manager := txStep s.manager (.step t)
        history := globalCall s.history t tx.pc
        wounded := marked s.wounded tx.pc }
    | none => s
  | .flush => s.flushWal

end TxSystem

end RGraph.Txn
