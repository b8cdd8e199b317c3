import Mathlib.Data.List.Sort
import RGraph.Storage.PageBytes
import RGraph.Wal.Record

/-!
# Recovery

`wal/aries.rs`: analysis, redo and undo over a list of log records and a data
file. The two tables are lists with at most one entry for each id; the code
iterates over them only to sort or to take a minimum. The log writer that undo
is given is a list: the compensation records it appends, in order. The page
checksum is a `Crc32c`; the before-image trailer and the records use the
functions of the record format.

The data file exists when recovery runs, and its reads and writes succeed.
-/

namespace RGraph.Wal

open RGraph.Lib RGraph.Storage

inductive TxStatus where
  | active
  | committed
  | aborted
  deriving DecidableEq, Repr

structure AttEntry where
  txid : Nat
  status : TxStatus
  lastLsn : Nat
  deriving DecidableEq, Repr

structure DptEntry where
  pageId : Nat
  recLsn : Nat
  deriving DecidableEq, Repr

namespace Aries

/-- The record types whose payload is a page id and a page image. -/
def isPageRecord : RecordType → Bool
  | .pageInsert | .pageUpdate | .pageFree | .bitmapUpdate
  | .indexPageInsert | .indexPageUpdate | .indexPageFree => true
  | _ => false

/-! ## Payloads -/

def pageIdFromPayload (payload : Bytes) : Nat := beToNat (readAt payload 0 8)

def extractPageAndImage (r : WalRecord) : Option (Nat × Bytes) :=
  if r.recordType = .clr then
    if r.payload.length < 16 then none
    else some (pageIdFromPayload (r.payload.drop 8), r.payload.drop 16)
  else if r.payload.length < 8 then none
  else some (pageIdFromPayload r.payload, r.payload.drop 8)

def beforeImageMagic : Nat := 0x42494D47

def extractBeforeImage (h : WalHash) (payload : Bytes) : Option Bytes :=
  let n := payload.length
  if n < 12 then none
  else if beToNat (readAt payload (n - 4) 4) ≠ beforeImageMagic then none
  else
    let imageLen := beToNat (readAt payload (n - 8) 4)
    if imageLen > pageSize ∨ imageLen + 12 > n then none
    else
      let image := readAt payload (n - 12 - imageLen) imageLen
      if (h.crc32c image).toNat ≠ beToNat (readAt payload (n - 12) 4) then none
      else some image

def buildClrPayload (undoNextLsn pageId : Nat) (beforeImage : Bytes) : Bytes :=
  natToBE 8 undoNextLsn ++ (natToBE 8 pageId ++ beforeImage.take pageSize)

def clrUndoNextLsn (payload : Bytes) : Nat :=
  if payload.length < 8 then 0 else beToNat (readAt payload 0 8)

def orInsertPage (dpt : List DptEntry) (e : DptEntry) : List DptEntry :=
  if dpt.any (·.pageId == e.pageId) then dpt else dpt ++ [e]

def seedDptFromCheckpoint (payload : Bytes) (dpt : List DptEntry) : List DptEntry :=
  if payload.length < 4 then dpt
  else
    let count := beToNat (readAt payload 0 4)
    if payload.length < count * 16 + 4 then dpt
    else (List.range count).foldl (fun dpt i =>
      let base := 4 + i * 16
      orInsertPage dpt ⟨beToNat (readAt payload base 8), beToNat (readAt payload (base + 8) 8)⟩) dpt

/-! ## Analysis -/

def orInsert (att : List AttEntry) (e : AttEntry) : List AttEntry :=
  if att.any (·.txid == e.txid) then att else att ++ [e]

def setStatus (att : List AttEntry) (txid : Nat) (status : TxStatus) : List AttEntry :=
  att.map fun e => if e.txid = txid then { e with status := status } else e

/-- Raise the last LSN of a transaction that is in the table. -/
def touch (att : List AttEntry) (txid lsn : Nat) : List AttEntry :=
  att.map fun e =>
    if e.txid = txid ∧ lsn > e.lastLsn then { e with lastLsn := lsn } else e

structure Tables where
  att : List AttEntry
  dpt : List DptEntry
  maxLsn : Nat
  deriving DecidableEq

def analysisStep (a : Tables) (r : WalRecord) : Tables :=
  let a := { a with maxLsn := max a.maxLsn r.lsn }
  match r.recordType with
  | .begin =>
    { a with
      att := touch (orInsert a.att ⟨r.txid, .active, r.lsn⟩) r.txid r.lsn }
  | .commit =>
    { a with
      att := touch (setStatus (orInsert a.att ⟨r.txid, .committed, r.lsn⟩)
        r.txid .committed) r.txid r.lsn }
  | .abort =>
    { a with
      att := touch (setStatus (orInsert a.att ⟨r.txid, .aborted, r.lsn⟩)
        r.txid .aborted) r.txid r.lsn }
  | .clr => { a with att := touch a.att r.txid r.lsn }
  | .pageInsert | .pageUpdate | .pageFree | .bitmapUpdate
  | .indexPageInsert | .indexPageUpdate | .indexPageFree =>
    { a with
      dpt := if r.payload.length ≥ 8 then
        orInsertPage a.dpt ⟨pageIdFromPayload r.payload, r.lsn⟩ else a.dpt
      att := touch a.att r.txid r.lsn }
  | .nodeInsert | .nodeDelete | .nodeUpdate | .edgeInsert | .edgeDelete
  | .edgeUpdate | .propertyInsert | .propertyUpdate | .rdfTripleInsert
  | .rdfTripleDelete => { a with att := touch a.att r.txid r.lsn }
  | .checkpointEnd => { a with dpt := seedDptFromCheckpoint r.payload a.dpt }
  | .checkpointBegin | .segmentDescriptor | .compactionBegin
  | .compactionEnd => a

def analysis (records : List WalRecord) : Tables := records.foldl analysisStep ⟨[], [], 0⟩

/-! ## Redo -/

def readPageLsn (data : Bytes) (pageId : Nat) : Nat :=
  let offset := pageId * pageSize
  if data.length < offset + 8 then 0 else beToNat (readAt data offset 8)

def applyAfterImage (crc : Crc32c) (data : Bytes) (pageId : Nat)
    (afterImage : Bytes) (lsn : Nat) : Bytes :=
  let copyLen := min afterImage.length pageSize
  let buf := writeAt (setLen (afterImage.take copyLen) pageSize) 0
    (natToBE 8 lsn)
  let buf := if copyLen = pageSize ∧ hasValidMagicBytes buf then
    updateChecksumBytes crc buf else buf
  writeAt data (pageId * pageSize) buf

def statusOf (att : List AttEntry) (txid : Nat) : Option TxStatus :=
  (att.find? (·.txid == txid)).map (·.status)

/-- One record; the second component counts the images applied. -/
def redoStep (crc : Crc32c) (a : Tables) (minRecLsn : Nat)
    (acc : Bytes × Nat) (r : WalRecord) : Bytes × Nat :=
  if r.lsn < minRecLsn then acc
  else if ¬ (isPageRecord r.recordType ∨ r.recordType = .clr) then acc
  else if r.recordType ≠ .clr ∧ statusOf a.att r.txid ≠ some .committed then
    acc
  else
    match extractPageAndImage r with
    | none => acc
    | some (pageId, afterImage) =>
      if ¬ a.dpt.any (·.pageId == pageId) then acc
      else if readPageLsn acc.1 pageId ≥ r.lsn then acc
      else (applyAfterImage crc acc.1 pageId afterImage r.lsn, acc.2 + 1)

def redo (crc : Crc32c) (a : Tables) (records : List WalRecord) (data : Bytes) : Bytes × Nat :=
  if a.dpt.isEmpty then (data, 0)
  else
    let minRecLsn := ((a.dpt.map (·.recLsn)).min?).getD 0
    records.foldl (redoStep crc a minRecLsn) (data, 0)

/-! ## Undo -/

def applyInverse (h : WalHash) (data : Bytes) (r : WalRecord) (pageId : Nat) : Bytes :=
  match extractBeforeImage h r.payload with
  | some beforeImage =>
    writeAt data (pageId * pageSize) (setLen (beforeImage.take pageSize) pageSize)
  | none =>
    if r.recordType = .pageInsert ∨ r.recordType = .indexPageInsert then
      writeAt data (pageId * pageSize) (List.replicate pageSize 0)
    else data

/-- The data file, and the compensation records given to the log. -/
structure Undone where
  data : Bytes
  clrs : List WalRecord
  deriving DecidableEq

def undoRecord (h : WalHash) (now : Nat) (r : WalRecord) (u : Undone) : Undone :=
  if isPageRecord r.recordType then
    match extractPageAndImage r with
    | some (pageId, _) =>
      let clrImage := (extractBeforeImage h r.payload).getD
        (List.replicate pageSize 0)
      { data := applyInverse h u.data r pageId
        clrs := u.clrs ++ [WalRecord.new h now .clr r.txid 0 r.prevLsn
          (buildClrPayload r.prevLsn pageId clrImage)] }
    | none => u
  else u

/-- The index of the log by LSN: a later record replaces an earlier one. -/
def lsnIndex (records : List WalRecord) (lsn : Nat) : Option WalRecord :=
  records.reverse.find? (·.lsn == lsn)

/-- Walk a chain of records backwards. A chain that does not end is `none`. -/
def undoChain (h : WalHash) (now : Nat) (records : List WalRecord) :
    Nat → Nat → Undone → Option Undone
  | 0, _, _ => none
  | fuel + 1, currentLsn, u =>
    match lsnIndex records currentLsn with
    | none => some u
    | some r =>
      if r.recordType = .clr then
        let next := clrUndoNextLsn r.payload
        if next = 0 then some u else undoChain h now records fuel next u
      else
        let u := undoRecord h now r u
        if r.prevLsn = 0 then some u
        else undoChain h now records fuel r.prevLsn u

/-- The losers, latest first. -/
def toUndo (att : List AttEntry) : List AttEntry :=
  (att.filter fun e => e.status = .active ∨ e.status = .aborted).insertionSort
    fun a b => b.lastLsn ≤ a.lastLsn

def undo (h : WalHash) (now : Nat) (a : Tables) (records : List WalRecord)
    (data : Bytes) : Option Undone :=
  (toUndo a.att).foldlM (fun u e =>
    undoChain h now records (records.length + 1) e.lastLsn u) ⟨data, []⟩

/-! ## The three phases -/

structure Recovered where
  tables : Tables
  redoCount : Nat
  data : Bytes
  clrs : List WalRecord
  deriving DecidableEq

def runAllPhases (h : WalHash) (crc : Crc32c) (now checkpointLsn : Nat)
    (records : List WalRecord) (data : Bytes) : Option Recovered :=
  let a := analysis (records.filter fun r => r.lsn ≥ checkpointLsn)
  let (data, redoCount) := redo crc a records data
  match undo h now a records data with
  | none => none
  | some u => some ⟨a, redoCount, u.data, u.clrs⟩

end Aries

end RGraph.Wal
