import RGraph.Lib.Run
import RGraph.Wal.Aries
import RGraph.Wal.Writer

/-!
# Calls on the log

A run of the WAL writer keeps what its callers know: the LSNs they were given,
the records still in the buffer, and the records of each segment that a
successful flush has acknowledged.

`commit` and `rollback` of `txn/manager.rs` are the calls on the log that a
transaction ends with. `commit` appends its record and flushes. `rollback`
appends an abort record and does not flush, on the ground that a missing
commit record means an abort.
-/

namespace RGraph.Wal

open RGraph.Lib Aries

/-- What a caller appends; the integers are `u64`. -/
structure LogEntry where
  recordType : RecordType
  txid : Nat
  prevLsn : Nat
  timestamp : Nat
  payload : Bytes
  txid_lt : txid < 2 ^ 64
  prevLsn_lt : prevLsn < 2 ^ 64
  timestamp_lt : timestamp < 2 ^ 64

def LogEntry.record (e : LogEntry) : WalRecord :=
  ⟨e.recordType, e.txid, 0, e.prevLsn, e.timestamp, e.payload, 0, 0⟩

structure WalRun where
  writer : WalWriter
  dir : WalDir
  returned : List Nat
  pending : List WalRecord
  acked : Nat → List WalRecord

inductive WalOp where
  | append (e : LogEntry) (o : FlushEnd)
  | flush (o : FlushEnd)
  | rotate (o : FlushEnd) (now : Nat)
  | reclaim (checkpointLsn : Nat)
  | reopen

namespace WalRun

variable (h : WalHash)

def start : WalRun :=
  let (w, d) := WalWriter.openDir h WalDir.empty
  ⟨w, d, [], [], fun _ => []⟩

/-- A flush has succeeded: what was pending is acknowledged. -/
def ack (s : WalRun) : WalRun :=
  { s with
    pending := []
    acked := Function.update s.acked s.writer.segmentId
      (s.acked s.writer.segmentId ++ s.pending) }

def flushStep (s : WalRun) (o : FlushEnd) : WalRun :=
  match s.writer.flush s.dir o with
  | (true, w, d) => { s.ack with writer := w, dir := d }
  | (false, w, d) => { s with writer := w, dir := d }

/-- The buffer has no room for the record, so it is flushed first. -/
def isFull (s : WalRun) (r : WalRecord) : Bool :=
  s.writer.buffer.length + r.encode.length > WalWriter.bufferSize

end WalRun

def walStep (h : WalHash) (s : WalRun) : WalOp → WalRun
  | .append e o =>
    let r := e.record.setLsn h s.writer.currentLsn
    let told := if s.isFull r && (s.writer.flush s.dir o).1 then s.ack else s
    match s.writer.append h s.dir e.record o with
    | (.ok lsn, w, d) =>
      { told with
        writer := w
        dir := d
        returned := lsn :: s.returned
        pending := told.pending ++ [r] }
    | (.error _, w, d) => { told with writer := w, dir := d }
  | .flush o => s.flushStep o
  | .rotate o now =>
    match s.writer.rotate h s.dir o now with
    | (true, w, d) => { s.ack with writer := w, dir := d }
    | (false, w, d) => { s with writer := w, dir := d }
  | .reclaim checkpointLsn =>
    { s with
      dir := (WalWriter.reclaimArchivedSegmentsBefore s.dir checkpointLsn).1 }
  | .reopen =>
    let (w, d) := WalWriter.openDir h s.dir
    { s with writer := w, dir := d, pending := [] }

/-! ## Transactions -/

/-- The log and the statuses that the handles of the transactions have. -/
structure TxLog where
  wal : WalRun
  status : Nat → TxStatus

/-- The calls of the transactions and of the rest of the engine. An outcome is
given for each write a call may make; `doomed` is the SSI validation. -/
inductive TxLogOp where
  | log (e : LogEntry) (o : FlushEnd)
  | flush (o : FlushEnd)
  | rotate (o : FlushEnd) (now : Nat)
  | reclaim (checkpointLsn : Nat)
  | commit (t now : Fin (2 ^ 64)) (doomed : Bool) (o o' : FlushEnd)
  | rollback (t now : Fin (2 ^ 64)) (o : FlushEnd)

namespace TxLog

def endEntry (ty : RecordType) (t now : Fin (2 ^ 64)) : LogEntry :=
  ⟨ty, t, 0, now, [], t.2, t.pos, now.2⟩

def start (h : WalHash) : TxLog := ⟨WalRun.start h, fun _ => .active⟩

/-- `append` returns an LSN. -/
def appends (h : WalHash) (s : WalRun) (e : LogEntry) (o : FlushEnd) : Bool :=
  (s.writer.append h s.dir e.record o).1.toBool

/-- What a call asks of the log, in order. -/
def walOps (h : WalHash) (s : TxLog) : TxLogOp → List WalOp
  | .log e o => [.append e o]
  | .flush o => [.flush o]
  | .rotate o now => [.rotate o now]
  | .reclaim checkpointLsn => [.reclaim checkpointLsn]
  | .commit t now doomed o o' =>
    if s.status t ≠ .active then []
    else if doomed then [.append (endEntry .abort t now) o]
    else if appends h s.wal (endEntry .commit t now) o then
      [.append (endEntry .commit t now) o, .flush o']
    else [.append (endEntry .commit t now) o]
  | .rollback t now o =>
    if s.status t ≠ .active then [] else [.append (endEntry .abort t now) o]

/-- A commit that fails leaves its transaction active. A rollback ignores what
becomes of its record. -/
def ended (h : WalHash) (s : TxLog) : TxLogOp → Option (Nat × TxStatus)
  | .commit t now doomed o o' =>
    let w := walStep h s.wal (.append (endEntry .commit t now) o)
    if s.status t ≠ .active then none
    else if doomed then some (t, .aborted)
    else if appends h s.wal (endEntry .commit t now) o ∧
        (w.writer.flush w.dir o').1 then some (t, .committed)
    else none
  | .rollback t _ _ => if s.status t ≠ .active then none else some (t, .aborted)
  | _ => none

def step (h : WalHash) (s : TxLog) (op : TxLogOp) : TxLog where
  wal := run (walStep h) s.wal (s.walOps h op)
  status := match s.ended h op with
    | some (t, st) => Function.update s.status t st
    | none => s.status

end TxLog

end RGraph.Wal
