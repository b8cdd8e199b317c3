import Mathlib.Logic.Function.Basic
import Mathlib.Data.List.Sort
import RGraph.Lib.Run
import RGraph.Txn.LockTable

/-!
# Snapshots and the global transaction state (`txn/snapshot.rs`, `txn/state.rs`)

The global state knows which transactions run and which have aborted; that a
transaction has committed is nowhere stored. A snapshot keeps the bounds `xmin`
and `xmax` and the transactions that ran when it was taken, and shares the
abort log with the global state, so what it answers is worked out from numbers
frozen at its begin and from a log that goes on growing.

Every call runs under one mutex, so a run of the component is a list of calls.
The `BTreeSet` of active ids is a list without repetitions, its first element
the least. The id counter, a `u64`, is a number that does not wrap.
-/

namespace RGraph.Txn

open RGraph.Lib

/-- "No transaction": the deleter of a live version. -/
def txIdInvalid : TxId := 0

/-- The first id a new database issues. -/
def txIdBootstrap : TxId := 1

/-- `aborted` says whether the abort log is attached. The log is shared, so its
contents are an argument of what reads it. -/
structure Snapshot where
  xmin : TxId
  xmax : TxId
  active : List TxId
  ownerTxid : TxId
  aborted : Bool
  deriving DecidableEq, Repr

namespace Snapshot

def new (xmin xmax : TxId) (active : List TxId) (ownerTxid : TxId) : Snapshot :=
  ⟨xmin, xmax, active.insertionSort (· ≤ ·), ownerTxid, false⟩

def withAborted (snap : Snapshot) : Snapshot := { snap with aborted := true }

def isAborted (snap : Snapshot) (log : List TxId) (txid : TxId) : Bool :=
  snap.aborted && log.contains txid

/-- A binary search of the sorted list. -/
def isActive (snap : Snapshot) (txid : TxId) : Bool := snap.active.contains txid

def txidCommittedBeforeSnapshot (snap : Snapshot) (log : List TxId)
    (txid : TxId) (committedHint : Bool) : Bool :=
  if txid = txIdInvalid then false
  else if snap.isAborted log txid then false
  else if committedHint then true
  else if txid < snap.xmin then true
  else if snap.xmax ≤ txid then false
  else !snap.isActive txid

def isVisible (snap : Snapshot) (log : List TxId) (xminTuple xmaxTuple : TxId)
    (xminCommitted xmaxCommitted : Bool) : Bool :=
  let xminVisible := snap.txidCommittedBeforeSnapshot log xminTuple xminCommitted
  if !xminVisible && xminTuple != snap.ownerTxid then false
  else if xmaxTuple = txIdInvalid then true
  else if xmaxTuple = snap.ownerTxid then false
  else !snap.txidCommittedBeforeSnapshot log xmaxTuple xmaxCommitted

end Snapshot

structure GlobalTxState where
  globalXmin : TxId
  globalXmax : TxId
  active : List TxId
  /-- The counter of the id allocator. -/
  nextTxid : TxId
  /-- The abort log. -/
  aborted : List TxId
  deriving DecidableEq, Repr

namespace GlobalTxState

/-- A state whose allocator starts at `start`. -/
def withStart (start : TxId) : GlobalTxState := ⟨start, start, [], start, []⟩

/-- The lowest active id, or `other` when there is none. -/
def lowestActive (active : List TxId) (other : TxId) : TxId := active.min?.getD other

/-- `begin_tx`: the state after it, the new id and its snapshot. -/
def beginTx (s : GlobalTxState) : GlobalTxState × TxId × Snapshot :=
  let txid := s.nextTxid
  let xmax := s.nextTxid + 1
  let xmin := lowestActive s.active txid
  ({ s with
      nextTxid := xmax, active := s.active.insert txid
      globalXmax := xmax, globalXmin := min xmin txid },
    txid, (Snapshot.new xmin xmax s.active txid).withAborted)

/-- The compare-and-swap loop: `global_xmin` never retreats here. -/
def advanceXmin (s : GlobalTxState) (candidate : TxId) : GlobalTxState :=
  if candidate ≤ s.globalXmin then s else { s with globalXmin := candidate }

def removeActive (s : GlobalTxState) (txid : TxId) : GlobalTxState :=
  let active := s.active.erase txid
  { s with active := active }.advanceXmin (lowestActive active s.globalXmax)

def commitTx (s : GlobalTxState) (txid : TxId) : GlobalTxState := s.removeActive txid

def abortTx (s : GlobalTxState) (txid : TxId) : GlobalTxState :=
  { s with aborted := s.aborted.insert txid }.removeActive txid

end GlobalTxState

/-! ## Histories -/

inductive TxEvent where
  | begin
  | commit (txid : TxId)
  | abort (txid : TxId)
  deriving DecidableEq, Repr

/-- The state, with what it does not record: the snapshots handed out, and the
transactions that committed. -/
structure TxHistory where
  state : GlobalTxState
  snapshots : TxId → Option Snapshot
  committed : List TxId

namespace TxHistory

def withStart (start : TxId) : TxHistory := ⟨GlobalTxState.withStart start, fun _ => none, []⟩

/-- One call. A commit of an id that is not active commits nothing. -/
def step (h : TxHistory) : TxEvent → TxHistory
  | .begin =>
    let (s, txid, snap) := h.state.beginTx
    { h with
      state := s, snapshots := Function.update h.snapshots txid (some snap) }
  | .commit txid =>
    { h with
      state := h.state.commitTx txid
      committed :=
        if txid ∈ h.state.active then h.committed.insert txid
        else h.committed }
  | .abort txid => { h with state := h.state.abortTx txid }

/-- The history after some events on a state that starts to count at
`start`. -/
def after (start : TxId) (events : List TxEvent) : TxHistory := run step (withStart start) events

/-- The id that a begin hands out next, and its snapshot. -/
def owner (h : TxHistory) : TxId := h.state.beginTx.2.1

def snapshot (h : TxHistory) : Snapshot := h.state.beginTx.2.2

/-- Handed out in this history. -/
def Issued (start : TxId) (h : TxHistory) (txid : TxId) : Prop :=
  start ≤ txid ∧ txid < h.state.nextTxid

instance (start : TxId) (h : TxHistory) (txid : TxId) :
    Decidable (h.Issued start txid) :=
  inferInstanceAs (Decidable (start ≤ txid ∧ txid < h.state.nextTxid))

/-- Only transactions abort that have begun and have not committed. -/
def Lawful (h : TxHistory) : TxEvent → Prop
  | .abort txid => txid < h.state.nextTxid ∧ txid ∉ h.committed
  | _ => True

instance (h : TxHistory) (e : TxEvent) : Decidable (h.Lawful e) := by
  cases e <;> dsimp only [Lawful] <;> infer_instance

end TxHistory

end RGraph.Txn
