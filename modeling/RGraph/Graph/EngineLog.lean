import RGraph.Wal.Aries

/-!
# The log the engine writes

What `graph/engine.rs` and `txn/manager.rs` put into the write-ahead log: a
page record for every page a transaction changes, with the LSN of the page
record before it as `prev_lsn`, and a commit or abort record with none. Page
images are whole slotted pages. No begin record is ever written.

Opening an engine recovers the log, moves the checkpoint to the last LSN it
saw and starts a new transaction manager, whose ids begin at 1 again. So an
item of the log also says, for the statements only, which transaction wrote
it: `tx` counts transactions over the whole life of the database.

The WAL gives every record an LSN above all before it (`gap` is how far), and
a crash can cut the log at any record: each state of a run is such a point.
-/

namespace RGraph.Graph

open RGraph.Lib RGraph.Storage RGraph.Wal

/-- A page image as the engine logs it. -/
structure PageWrite where
  pageId : Nat
  image : Bytes
  pageId_lt : pageId < 2 ^ 51
  length_image : image.length = pageSize
  magic : hasValidMagicBytes image = true

namespace PageWrite

def payload (w : PageWrite) : Bytes := natToBE 8 w.pageId ++ w.image

/-- What the page holds once the write has reached it: the image with the LSN
of its record, and the checksum of that. -/
def afterImage (crc : Crc32c) (w : PageWrite) (lsn : Nat) : Bytes :=
  updateChecksumBytes crc (writeAt w.image 0 (natToBE 8 lsn))

end PageWrite

structure LogItem where
  tx : Nat
  record : WalRecord
  deriving DecidableEq

structure EngineRun where
  log : List LogItem
  lastLsn : Nat
  currentWalLsn : Nat
  checkpointLsn : Nat
  nextTxid : Nat
  begun : Nat
  /-- The transactions of this session that are not finished: id and `tx`. -/
  active : List (Nat × Nat)
  deriving DecidableEq

inductive EngineOp where
  | begin
  | logPage (txid : Nat) (w : PageWrite) (gap now : Nat)
  | commit (txid gap now : Nat)
  | rollback (txid gap now : Nat)
  | reopen (data : Bytes) (now : Nat)

namespace EngineRun

def start : EngineRun := ⟨[], 0, 0, 0, 1, 0, []⟩

def records (s : EngineRun) : List WalRecord := s.log.map (·.record)

/-- Append a record; LSNs are 64 bits wide. -/
def append (h : WalHash) (s : EngineRun) (tx : Nat) (recordType : RecordType)
    (txid prevLsn : Nat) (payload : Bytes) (gap now : Nat) : EngineRun :=
  let lsn := s.lastLsn + 1 + gap
  if lsn < 2 ^ 64 then
    { s with
      log := s.log ++ [⟨tx, WalRecord.new h now recordType txid lsn prevLsn payload⟩]
      lastLsn := lsn }
  else s

/-- Log the end of a transaction, which is then no longer active. -/
def finish (h : WalHash) (s : EngineRun) (recordType : RecordType)
    (txid gap now : Nat) : EngineRun :=
  match s.active.find? (·.1 == txid) with
  | none => s
  | some (_, tx) =>
    let s := s.append h tx recordType txid 0 [] gap now
    { s with active := s.active.filter (·.1 != txid) }

end EngineRun

open EngineRun in
def engineStep (h : WalHash) (crc : Crc32c) (s : EngineRun) :
    EngineOp → EngineRun
  | .begin =>
    { s with
      nextTxid := s.nextTxid + 1
      begun := s.begun + 1
      active := s.active ++ [(s.nextTxid, s.begun)] }
  | .logPage txid w gap now =>
    match s.active.find? (·.1 == txid) with
    | none => s
    | some (_, tx) =>
      let s := s.append h tx .pageInsert txid s.currentWalLsn w.payload
        gap now
      { s with currentWalLsn := s.lastLsn }
  | .commit txid gap now => s.finish h .commit txid gap now
  | .rollback txid gap now => s.finish h .abort txid gap now
  | .reopen data now =>
    match Aries.runAllPhases h crc now s.checkpointLsn s.records data with
    | none => s
    | some res =>
      let s := if res.tables.maxLsn > 0 then
        { s with
          currentWalLsn := res.tables.maxLsn
          checkpointLsn := res.tables.maxLsn } else s
      let s := res.clrs.foldl (fun s r =>
        s.append h s.begun r.recordType r.txid r.prevLsn r.payload 0 now) s
      { s with nextTxid := 1, begun := s.begun + 1, active := [] }

end RGraph.Graph
