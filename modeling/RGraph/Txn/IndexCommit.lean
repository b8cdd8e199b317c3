import RGraph.Index.Manager
import RGraph.Txn.System

/-!
# Committing with index mutations (`txn/manager.rs`)

A transaction stages mutations of the secondary indexes, and
`commit_with_indexes` applies them before it enters `commit`. The index manager
is borrowed for the whole call, so no other thread comes between; what other
threads do to the lock table and the SSI sets before `commit` looks at them is
done in the state the call starts from.

`apply_batch` is taken to be all-or-nothing: it answers with an error and has
changed nothing, or every mutation is applied.
-/

namespace RGraph.Txn

open RGraph.Lib RGraph.Index

/-- `TxError::IndexMutation`, or another `TxError`. -/
inductive CommitError where
  | indexMutation (e : BTreeError)
  | tx (e : TxError)
  deriving DecidableEq, Repr

/-- The manager, the `index_mutations` of its transactions, and the indexes. -/
structure IndexedSystem where
  manager : TransactionManager
  indexMutations : TxId → List IndexMutation
  indexes : IndexManager

namespace IndexedSystem

def new : IndexedSystem := ⟨.new, fun _ => [], .new⟩

/-- The mutations, all applied. -/
def applied (s : IndexedSystem) (t : TxId) : IndexManager :=
  applyBatch (s.indexMutations t) s.indexes

def clearMutations (s : IndexedSystem) (t : TxId) : IndexedSystem :=
  { s with indexMutations := Function.update s.indexMutations t [] }

def stageIndexMutation (s : IndexedSystem) (t : TxId) (m : IndexMutation) :
    Except CommitError Unit × IndexedSystem :=
  match s.manager.txs t with
  | some tx =>
    if tx.isActive then
      (.ok (), { s with
          indexMutations := Function.update s.indexMutations t (s.indexMutations t ++ [m]) })
    else (.error (.tx (.notActive t tx.status)), s)
  | none => (.ok (), s)

/-- The accesses of a call of `t` that has started to release its locks. -/
def toEnd (m : TransactionManager) (t : TxId) (tx : Transaction) : TransactionManager :=
  run txStep m (List.replicate (tx.heldLocks.length + tx.readRanges.length + 1) (.step t))

/-- What the last call of `t` returned. -/
def returned (m : TransactionManager) (t : TxId) : Except CommitError Unit :=
  match m.txs t with
  | some tx => tx.result.mapError .tx
  | none => .ok ()

/-- `batch` is the error of `apply_batch`, if it has one, and `outcome` what
becomes of the commit record. -/
def commitWithIndexes (s : IndexedSystem) (t : TxId) (tx : Transaction)
    (batch : Option BTreeError) (outcome : WalOutcome) : Except CommitError Unit × IndexedSystem :=
  if tx.isActive then
    match batch with
    | some e =>
      (.error (.indexMutation e), { s.clearMutations t with
          manager := toEnd (txStep s.manager (.rollback t)) t tx })
    | none =>
      let m := toEnd (txStep s.manager (.commit t (outcome == .flushed))) t tx
      (returned m t, { s.clearMutations t with
          indexes := s.applied t, manager := m })
  else (.error (.tx (.notActive t tx.status)), s)

end IndexedSystem

end RGraph.Txn
