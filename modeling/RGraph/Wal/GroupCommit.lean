import RGraph.Wal.Writer

/-!
# Group commit (`wal/group_commit.rs`)

Submissions wait in a bounded channel. A submitter that wins the leader lock
takes slots out of the channel, appends the records of all of them, flushes
once, and sends each submitter its result; then it gives up the lock. The WAL
mutex is held from the first append to the flush, so that part is one step.
Between the other steps of the leader the other threads run.

A slot is known by the number of its submission. Waiting for a result with a
timeout has no effect but to try for the leader lock again, so `lead` may happen
whenever the lock is free.
-/

namespace RGraph.Wal

open RGraph.Lib

/-! ## The log under the WAL mutex

Beside the writer and the directory runs a history: which records are in the
buffer, which ones a successful flush has covered, each with the submission it
is from, and what the segment file held when it was last synced. -/

structure GroupLog where
  writer : WalWriter
  dir : WalDir
  pending : List (Nat × Bytes)
  log : List (Nat × Bytes)
  durable : Bytes

namespace GroupLog

def openDir (h : WalHash) (d : WalDir) : GroupLog :=
  let (w, d) := WalWriter.openDir h d
  ⟨w, d, [], [], (d.live w.segmentId).getD []⟩

def flush (g : GroupLog) (o : FlushEnd) : Bool × GroupLog :=
  let (ok, w, d) := g.writer.flush g.dir o
  if ok then
    (true,
      { writer := w
        dir := d
        pending := []
        log := g.log ++ g.pending
        durable := if g.writer.buffer = [] then g.durable
          else (d.live w.segmentId).getD [] })
  else (false, { g with writer := w, dir := d })

/-- The bytes of a record under the LSN it is about to get. -/
def stamped (h : WalHash) (g : GroupLog) (r : WalRecord) : Bytes :=
  (r.setLsn h g.writer.currentLsn).encode

/-- Append a record of a submission. What does not fit into the buffer makes
the writer flush first. -/
def append (h : WalHash) (g : GroupLog) (id : Nat) (r : WalRecord)
    (o : FlushEnd) : Except String Nat × GroupLog :=
  let bytes := g.stamped h r
  let flushed :=
    if g.writer.buffer.length + bytes.length > WalWriter.bufferSize then
      (g.flush o).2
    else g
  match g.writer.append h g.dir r o with
  | (.ok lsn, w, d) =>
    (.ok lsn, { flushed with
      writer := w, dir := d, pending := flushed.pending ++ [(id, bytes)] })
  | (.error e, w, d) => (.error e, { flushed with writer := w, dir := d })

end GroupLog

/-! ## One round of the leader -/

structure CommitSlot where
  id : Nat
  records : List WalRecord

/-- Append the records of a slot; `ends` says how the flush in the `n`th append
of the round ends, if there is one. Returns the last LSN. -/
def appendSlot (h : WalHash) (ends : Nat → FlushEnd) (id : Nat) :
    List WalRecord → Nat → Nat → GroupLog → Except String Nat × Nat × GroupLog
  | [], lastLsn, n, g => (.ok lastLsn, n, g)
  | r :: records, _, n, g =>
    match g.append h id r (ends n) with
    | (.ok lsn, g) => appendSlot h ends id records lsn (n + 1) g
    | (.error e, g) => (.error e, n + 1, g)

/-- All slots, up to the first error. -/
def appendSlots (h : WalHash) (ends : Nat → FlushEnd) :
    List CommitSlot → Nat → GroupLog → Except String (List Nat) × Nat × GroupLog
  | [], n, g => (.ok [], n, g)
  | slot :: slots, n, g =>
    match appendSlot h ends slot.id slot.records 0 n g with
    | (.error e, n, g) => (.error e, n, g)
    | (.ok lsn, n, g) =>
      match appendSlots h ends slots n g with
      | (.error e, n, g) => (.error e, n, g)
      | (.ok lsns, n, g) => (.ok (lsn :: lsns), n, g)

/-- Append everything, then flush once. -/
def commitBatch (h : WalHash) (ends : Nat → FlushEnd) (slots : List CommitSlot)
    (g : GroupLog) : Except String (List Nat) × GroupLog :=
  match appendSlots h ends slots 0 g with
  | (.error e, _, g) => (.error e, g)
  | (.ok lsns, n, g) =>
    match g.flush (ends n) with
    | (true, g) => (.ok lsns, g)
    | (false, g) => (.error "flush failed", g)

/-- What each slot is told. -/
def slotResults (slots : List CommitSlot) (res : Except String (List Nat)) :
    List (CommitSlot × Except String Nat) :=
  slots.zipIdx.map fun (slot, i) => (slot, res.map fun lsns => (lsns[i]?).getD 0)

/-! ## The queue -/

inductive LeaderPhase where
  | collecting (slots : List CommitSlot)
  | notifying (results : List (CommitSlot × Except String Nat))

structure GroupCommitQueue where
  channel : List CommitSlot
  leader : Option LeaderPhase
  wal : GroupLog
  /-- The records of every submission, by number. -/
  submitted : List (List WalRecord)
  answers : List (Nat × Except String Nat)

namespace GroupCommitQueue

def channelCapacity : Nat := 1024

def batchSize : Nat := 64

def new (h : WalHash) (d : WalDir) : GroupCommitQueue := ⟨[], none, GroupLog.openDir h d, [], []⟩

end GroupCommitQueue

inductive GroupEvent where
  | submit (records : List WalRecord)
  | lead
  | collect
  | write (ends : Nat → FlushEnd)
  | notify
  /-- Another user of the writer flushes it. -/
  | flush (o : FlushEnd)

/-- A step that is not enabled changes nothing. -/
def groupStep (h : WalHash) (s : GroupCommitQueue) :
    GroupEvent → GroupCommitQueue
  | .submit records =>
    if s.channel.length < GroupCommitQueue.channelCapacity then
      { s with
        channel := s.channel ++ [⟨s.submitted.length, records⟩]
        submitted := s.submitted ++ [records] }
    else s
  | .lead =>
    match s.leader with
    | none => { s with leader := some (.collecting []) }
    | some _ => s
  | .collect =>
    match s.leader, s.channel with
    | some (.collecting slots), slot :: channel =>
      if slots.length < GroupCommitQueue.batchSize then
        { s with
          channel := channel
          leader := some (.collecting (slots ++ [slot])) }
      else s
    | _, _ => s
  | .write ends =>
    match s.leader with
    | some (.collecting []) => { s with leader := none }
    | some (.collecting slots) =>
      let (res, g) := commitBatch h ends slots s.wal
      { s with
        wal := g
        leader := some (.notifying (slotResults slots res)) }
    | _ => s
  | .notify =>
    match s.leader with
    | some (.notifying []) => { s with leader := none }
    | some (.notifying ((slot, res) :: results)) =>
      { s with
        answers := (slot.id, res) :: s.answers
        leader := some (.notifying results) }
    | _ => s
  | .flush o => { s with wal := (s.wal.flush o).2 }

end RGraph.Wal
