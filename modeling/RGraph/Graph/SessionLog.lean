import RGraph.Graph.EngineLog

/-!
# The log over several sessions

The log of `Graph.EngineLog` with what else reaches it and with the points
where a process can stop: the records of the operations that log no page, the
compaction brackets, property records under a fixed transaction id and the
fuzzy checkpoints of `wal/checkpoint.rs`; what of the log is on disk; and the
two LSNs of the superblock, in memory and in the file.

A session ends with a reopen. Whatever was flushed is still there, and of the
rest any number of records (all of them if the engine was closed). Recovery
reads the segments from the one of the checkpoint on, except for those that a
checkpoint has removed. Of an open that stops before the superblock is
written, only what recovery did to the log is left.
-/

namespace RGraph.Graph

open RGraph.Lib RGraph.Storage RGraph.Wal

/-- A record of a transaction. -/
inductive TxRecord where
  | page (w : PageWrite)
  | nodeDelete (payload : Bytes)
  | edgeInsert (payload : Bytes)
  | edgeDelete (payload : Bytes)

namespace TxRecord

def recordType : TxRecord → RecordType
  | page _ => .pageInsert
  | nodeDelete _ => .nodeDelete
  | edgeInsert _ => .edgeInsert
  | edgeDelete _ => .edgeDelete

def payload : TxRecord → Bytes
  | page w => w.payload
  | nodeDelete payload | edgeInsert payload | edgeDelete payload => payload

end TxRecord

/-- A record that belongs to no transaction. -/
inductive BareRecord where
  | compactionBegin
  | compactionEnd (reclaimed : Nat)
  | propertyInsert (payload : Bytes)
  | nodeInsert (payload : Bytes)
  | edgeInsert (payload : Bytes)

namespace BareRecord

def recordType : BareRecord → RecordType
  | compactionBegin => .compactionBegin
  | compactionEnd _ => .compactionEnd
  | propertyInsert _ => .propertyInsert
  | nodeInsert _ => .nodeInsert
  | edgeInsert _ => .edgeInsert

/-- Property changes are logged under the id 1, whoever has it. -/
def txid : BareRecord → Nat
  | compactionBegin | compactionEnd _ => 0
  | propertyInsert _ | nodeInsert _ | edgeInsert _ => 1

def payload : BareRecord → Bytes
  | compactionBegin => []
  | compactionEnd reclaimed => natToBE 8 reclaimed
  | propertyInsert payload | nodeInsert payload | edgeInsert payload => payload

end BareRecord

/-- What the superblock says about the log. -/
structure LogMarks where
  currentWalLsn : Nat
  lastCheckpointLsn : Nat
  deriving DecidableEq

structure SessionLog where
  log : List LogItem
  /-- How many of the records are on disk. -/
  flushed : Nat
  lastLsn : Nat
  marks : LogMarks
  /-- The superblock in the file. -/
  saved : LogMarks
  /-- The segments removed by checkpoints. -/
  removed : List Nat
  isOpen : Bool
  nextTxid : Nat
  begun : Nat
  active : List (Nat × Nat)
  deriving DecidableEq

/-- The segment of an LSN. -/
def lsnSegmentId (lsn : Nat) : Nat := lsn / 2 ^ 32

/-- The payload of `CheckpointEnd`: the pages that are still dirty, each with
its recovery LSN, and no active transaction. -/
def checkpointEndPayload (dirty : List (UInt64 × UInt64)) : Bytes :=
  natToBE 4 dirty.length ++
    (dirty.flatMap (fun d => natToBE 8 d.1.toNat ++ natToBE 8 d.2.toNat) ++ natToBE 4 0)

/-- How far a checkpoint comes before an append or a sync fails. -/
inductive CheckpointEnd where
  | begun
  | written
  | done
  deriving DecidableEq

inductive SessionOp where
  | begin
  | log (txid : Nat) (r : TxRecord) (gap now : Nat)
  | bare (r : BareRecord) (gap now : Nat)
  | commit (txid gap now : Nat) (flushed : Bool)
  | rollback (txid gap now : Nat)
  | flush
  | checkpoint (dirty : List (UInt64 × UInt64)) (archived : List Nat)
      (gap now : Nat) (stop : CheckpointEnd)
  | saveSuperblock
  | reopen (kept : Nat) (data : Bytes) (now : Nat) (completed : Bool)

namespace SessionLog

/-- A new database. -/
def start : SessionLog := ⟨[], 0, 0, ⟨0, 0⟩, ⟨0, 0⟩, [], true, 1, 0, []⟩

def append (h : WalHash) (s : SessionLog) (tx : Nat) (recordType : RecordType)
    (txid prevLsn : Nat) (payload : Bytes) (gap now : Nat) : SessionLog :=
  let lsn := s.lastLsn + 1 + gap
  if lsn < 2 ^ 64 then
    { s with
      log := s.log ++ [⟨tx, WalRecord.new h now recordType txid lsn prevLsn payload⟩]
      lastLsn := lsn }
  else s

/-- `log` of the engine: the superblock's LSN is the link to the record before
and then moves to this one. -/
def logRecord (h : WalHash) (s : SessionLog) (tx : Nat)
    (recordType : RecordType) (txid : Nat) (payload : Bytes) (gap now : Nat) : SessionLog :=
  let s' := s.append h tx recordType txid s.marks.currentWalLsn payload gap now
  if s.lastLsn < s'.lastLsn then
    { s' with marks := { s'.marks with currentWalLsn := s'.lastLsn } }
  else s'

def flush (s : SessionLog) : SessionLog :=
  { s with flushed := s.log.length }

def finish (s : SessionLog) (txid : Nat) : SessionLog :=
  { s with active := s.active.filter (·.1 != txid) }

/-- The process stops: the flushed records stay, and of the others the first
ones. -/
def crash (s : SessionLog) (kept : Nat) : SessionLog :=
  let log := s.log.take (max kept s.flushed)
  { s with
    log := log
    flushed := log.length
    lastLsn := (log.getLast?.map (·.record.lsn)).getD 0
    marks := s.saved
    isOpen := false
    active := [] }

/-- What recovery loads. -/
def readable (s : SessionLog) : List LogItem :=
  s.log.filter fun e =>
    lsnSegmentId s.saved.lastCheckpointLsn ≤ lsnSegmentId e.record.lsn ∧
      lsnSegmentId e.record.lsn ∉ s.removed

def records (s : SessionLog) : List WalRecord := s.readable.map (·.record)

/-- `Checkpoint::run`; the engine then moves its checkpoint and removes the
archived segments below it. -/
def checkpoint (h : WalHash) (s : SessionLog) (dirty : List (UInt64 × UInt64))
    (archived : List Nat) (gap now : Nat) (stop : CheckpointEnd) : SessionLog :=
  let lsn := s.lastLsn + 1 + gap
  let b := s.append h s.begun .checkpointBegin 0 0 [] gap now
  let e := b.flush.append h s.begun .checkpointEnd 0 0
    (checkpointEndPayload dirty) 0 now
  match stop with
  | .begun => b
  | .written => e
  | .done =>
    if lsn + 1 < 2 ^ 64 then
      { e.flush with
        marks := { s.marks with lastCheckpointLsn := lsn }
        removed := s.removed ++ archived.filter (· < lsnSegmentId lsn) }
    else e

/-- Recovery, and a new session if it gets to the end. -/
def recover (h : WalHash) (crc : Crc32c) (s : SessionLog) (data : Bytes)
    (now : Nat) (completed : Bool) : SessionLog :=
  match Aries.runAllPhases h crc now s.saved.lastCheckpointLsn s.records
      data with
  | none => s
  | some res =>
    let s := res.clrs.foldl (fun s r =>
      s.append h s.begun r.recordType r.txid r.prevLsn r.payload 0 now) s
    let s := { s with begun := s.begun + 1 }
    if completed then
      let marks := if res.tables.maxLsn > 0 then
        ⟨res.tables.maxLsn, res.tables.maxLsn⟩ else s.marks
      { s with
        marks := marks, saved := marks, isOpen := true, nextTxid := 1 }
    else s

end SessionLog

open SessionLog in
def sessionLogStep (h : WalHash) (crc : Crc32c) (s : SessionLog) (op : SessionOp) : SessionLog :=
  match op with
  | .reopen kept data now completed => (s.crash kept).recover h crc data now completed
  | op =>
    if ¬ s.isOpen then s
    else
      match op with
      | .begin =>
        { s with
          nextTxid := s.nextTxid + 1
          begun := s.begun + 1
          active := s.active ++ [(s.nextTxid, s.begun)] }
      | .log txid r gap now =>
        match s.active.find? (·.1 == txid) with
        | none => s
        | some (_, tx) => s.logRecord h tx r.recordType txid r.payload gap now
      | .bare r gap now =>
        let s := s.logRecord h s.begun r.recordType r.txid r.payload gap
          now
        { s with begun := s.begun + 1 }
      | .commit txid gap now flushed =>
        match s.active.find? (·.1 == txid) with
        | none => s
        | some (_, tx) =>
          let s := s.append h tx .commit txid 0 [] gap now
          -- without the flush the transaction is still active
          if flushed then s.flush.finish txid else s
      | .rollback txid gap now =>
        match s.active.find? (·.1 == txid) with
        | none => s
        | some (_, tx) => (s.append h tx .abort txid 0 [] gap now).finish txid
      | .flush => s.flush
      | .checkpoint dirty archived gap now stop =>
        let s := s.checkpoint h dirty archived gap now stop
        { s with begun := s.begun + 1 }
      | .saveSuperblock => { s with saved := s.marks }
      | .reopen .. => s

end RGraph.Graph
