import Mathlib.Logic.Function.Basic
import RGraph.Wal.Record

/-!
# The WAL writer and the segment loader

`wal/writer.rs`, and from `wal/aries.rs` how recovery finds and reads the
segments. A directory is two maps from segment ids to file contents, the live
segments and the archived ones. The `wal-current` link has no reader and is
left out.

A flush that fails has written some part of the buffer and keeps the buffer.
Renaming into the archive, deleting and creating files succeed.
-/

namespace RGraph.Wal

open RGraph.Lib

/-! ## Log sequence numbers -/

@[irreducible] def makeLsn (segmentId offset : Nat) : Nat :=
  segmentId % 2 ^ 32 * 2 ^ 32 + offset % 2 ^ 32

@[irreducible] def lsnSegmentId (lsn : Nat) : Nat := lsn / 2 ^ 32 % 2 ^ 32

@[irreducible] def lsnOffset (lsn : Nat) : Nat := lsn % 2 ^ 32

/-! ## The directory -/

structure WalDir where
  live : Nat → Option Bytes
  archive : Nat → Option Bytes

namespace WalDir

def empty : WalDir := ⟨fun _ => none, fun _ => none⟩

def set (d : WalDir) (seg : Nat) (content : Bytes) : WalDir :=
  { d with live := Function.update d.live seg (some content) }

/-- Write at the end of a live segment. -/
def append (d : WalDir) (seg : Nat) (bs : Bytes) : WalDir := d.set seg ((d.live seg).getD [] ++ bs)

/-- Open a live segment, creating it if it is not there. -/
def create (d : WalDir) (seg : Nat) : WalDir := d.set seg ((d.live seg).getD [])

def archiveSegment (d : WalDir) (seg : Nat) : WalDir :=
  match d.live seg with
  | some content =>
    { live := Function.update d.live seg none
      archive := Function.update d.archive seg (some content) }
  | none => d

def removeArchived (d : WalDir) (seg : Nat) : WalDir :=
  { d with archive := Function.update d.archive seg none }

end WalDir

/-- Probe segment ids upwards and stop at the first gap. -/
def probe (present : Nat → Bool) : Nat → Nat → Nat → Nat
  | 0, _, maxId => maxId
  | fuel + 1, id, maxId =>
    if present id then probe present fuel (id + 1) id
    else if id > maxId then maxId
    else probe present fuel (id + 1) maxId

def findHighestSegmentId (d : WalDir) : Nat := probe (fun id => (d.live id).isSome) (2 ^ 32) 0 0

/-! ## The writer -/

structure WalWriter where
  currentLsn : Nat
  /-- The buffered part of the buffer. -/
  buffer : Bytes
  unsynced : Nat
  segmentId : Nat
  segmentStartLsn : Nat
  segmentRecordCount : Nat
  totalSegmentCount : Nat
  durableLsn : Nat
  bytesSinceCheckpoint : Nat
  deriving DecidableEq

/-- How a flush ends: on an error, some of the buffer has been written. -/
inductive FlushEnd where
  | ok
  | failed (written : Nat)
  deriving DecidableEq, Repr

structure SegmentDescriptor where
  segmentId : Nat
  segmentStartLsn : Nat
  previousSegmentId : Nat
  recordCount : Nat
  integrityHash : UInt64

def descriptorMagic : Nat := 0x57414453

def SegmentDescriptor.encode (s : SegmentDescriptor) : Bytes :=
  natToBE 4 descriptorMagic ++ setLen (natToBE 8 s.segmentId ++
    natToBE 8 s.segmentStartLsn ++ natToBE 8 s.previousSegmentId ++
    natToBE 8 s.recordCount ++ natToBE 8 s.integrityHash.toNat) 4092

namespace WalWriter

def bufferSize : Nat := 1024 * 1024

def liveSegmentRetention : Nat := 2

def openDir (h : WalHash) (d : WalDir) : WalWriter × WalDir :=
  let segmentId := findHighestSegmentId d
  let (offset, d) :=
    match d.live segmentId with
    | some content =>
      let validEnd := WalRecord.lastValidOffset h content
      let d := if validEnd < content.length then
        d.set segmentId (setLen content validEnd) else d
      (if segmentId = 0 then max (validEnd % 2 ^ 32) 1
        else validEnd % 2 ^ 32, d)
    | none => (if segmentId = 0 then 1 else 0, d.create segmentId)
  ({ currentLsn := makeLsn segmentId offset
     buffer := []
     unsynced := 0
     segmentId := segmentId
     segmentStartLsn := makeLsn segmentId 0
     segmentRecordCount := 0
     totalSegmentCount := segmentId + 1
     durableLsn := makeLsn segmentId offset
     bytesSinceCheckpoint := 0 }, d)

def flush (w : WalWriter) (d : WalDir) (o : FlushEnd) : Bool × WalWriter × WalDir :=
  if w.buffer = [] then (true, w, d)
  else
    match o with
    | .ok =>
      (true,
        { w with
          buffer := []
          unsynced := 0
          durableLsn := max w.durableLsn w.currentLsn },
        d.append w.segmentId w.buffer)
    | .failed n => (false, w, d.append w.segmentId (w.buffer.take n))

/-- Put the bytes of a record into the buffer and move the LSN past it. -/
def buffered (w : WalWriter) (bytes : Bytes) : WalWriter :=
  { w with
    buffer := w.buffer ++ bytes
    unsynced := w.unsynced + bytes.length
    currentLsn := makeLsn (lsnSegmentId w.currentLsn) (lsnOffset w.currentLsn + bytes.length)
    segmentRecordCount := w.segmentRecordCount + 1
    bytesSinceCheckpoint := w.bytesSinceCheckpoint + bytes.length }

def append (h : WalHash) (w : WalWriter) (d : WalDir) (r : WalRecord)
    (o : FlushEnd) : Except String Nat × WalWriter × WalDir :=
  let r := r.setLsn h w.currentLsn
  let bytes := r.encode
  if w.buffer.length + bytes.length > bufferSize then
    match w.flush d o with
    | (false, w, d) => (.error "flush failed", w, d)
    | (true, w, d) =>
      if bytes.length > bufferSize then
        (.error "WAL record larger than buffer pool", w, d)
      else (.ok r.lsn, w.buffered bytes, d)
  else (.ok r.lsn, w.buffered bytes, d)

def archiveOldSegments (d : WalDir) (currentSegmentId : Nat) : WalDir :=
  if currentSegmentId < liveSegmentRetention then d
  else (List.range (currentSegmentId - (liveSegmentRetention - 1))).foldl
    WalDir.archiveSegment d

/-- What ends the file of a segment: a descriptor, and a record that holds it;
`now` is the clock. -/
def closing (h : WalHash) (w : WalWriter) (d : WalDir) (now : Nat) : Bytes :=
  let content := (d.live w.segmentId).getD []
  let descriptor : SegmentDescriptor :=
    { segmentId := w.segmentId
      segmentStartLsn := w.segmentStartLsn
      previousSegmentId := w.segmentId - 1
      recordCount := w.segmentRecordCount
      integrityHash := if content.length = 0 then 0 else h.xxHash64 content }
  let descBlock := descriptor.encode
  let descRec := WalRecord.new h now .segmentDescriptor 0 0 0 descBlock
  descBlock ++ descRec.encode

/-- What `rotate` does after its flush. -/
def nextSegment (h : WalHash) (w : WalWriter) (d : WalDir) (now : Nat) : WalWriter × WalDir :=
  let d := d.append w.segmentId (w.closing h d now)
  let next := w.segmentId + 1
  let d := d.create next
  ({ w with
     segmentId := next
     segmentStartLsn := makeLsn next 0
     currentLsn := makeLsn next 0
     segmentRecordCount := 0
     totalSegmentCount := w.totalSegmentCount + 1 },
    archiveOldSegments d w.segmentId)

def rotate (h : WalHash) (w : WalWriter) (d : WalDir) (o : FlushEnd)
    (now : Nat) : Bool × WalWriter × WalDir :=
  match w.flush d o with
  | (false, w, d) => (false, w, d)
  | (true, w, d) => (true, w.nextSegment h d now)

/-- The directory afterwards, and how many segments were deleted. -/
def reclaimArchivedSegmentsBefore (d : WalDir) (checkpointLsn : Nat) : WalDir × Nat :=
  (List.range (lsnSegmentId checkpointLsn)).foldl (fun (d, n) seg =>
    if (d.archive seg).isSome then (d.removeArchived seg, n + 1) else (d, n))
    (d, 0)

end WalWriter

/-! ## The loader -/

def highestSegmentId (d : WalDir) : Nat :=
  probe (fun id => (d.live id).isSome || (d.archive id).isSome) (2 ^ 32) 0 0

/-- The file recovery reads for a segment: the live one, else the archived. -/
def WalDir.file (d : WalDir) (seg : Nat) : Option Bytes :=
  match d.live seg with
  | some content => some content
  | none => d.archive seg

def loadAllSegments (h : WalHash) (d : WalDir) (checkpointLsn : Nat) : List WalRecord :=
  let start := checkpointLsn / 2 ^ 32
  (List.range' start (highestSegmentId d + 1 - start)).flatMap fun seg =>
    match d.file seg with
    | some raw => WalRecord.loadSingleSegment h raw
    | none => []

end RGraph.Wal
