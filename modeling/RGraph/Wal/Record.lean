import RGraph.Lib.Checksum
import RGraph.Lib.File

/-!
# WAL records

`wal/record.rs`. A record is framed by two magics and carries a CRC-32C of its
header and an xxHash64 of its payload; both functions come from libraries and
are parameters here. Integers are big-endian, `u64` but for the payload length.

`decode` reads a record at an offset of a buffer. The model cuts the buffer at
the offset first, so that the positions below are those of the layout.
-/

namespace RGraph.Wal

open RGraph.Lib

/-- The two checksums. -/
structure WalHash where
  crc32c : Bytes → UInt32
  xxHash64 : Bytes → UInt64

/-- The functions of the libraries, to compute with. -/
def WalHash.standard : WalHash := ⟨Crc32c.castagnoli.crc32c, XxHash.xxHash64⟩

/-- The text WAL!. -/
def walMagicStart : Nat := 0x57414C21

/-- The text !LAW. -/
def walMagicEnd : Nat := 0x214C4157

def walVersion : UInt8 := 1

/-- The size without payload. -/
def walRecordMinSize : Nat := 4 + 1 + 1 + 8 + 8 + 8 + 8 + 4 + 4 + 8 + 4

inductive RecordType where
  | begin
  | commit
  | abort
  | pageInsert
  | pageUpdate
  | pageFree
  | bitmapUpdate
  | checkpointBegin
  | checkpointEnd
  | nodeInsert
  | nodeDelete
  | edgeInsert
  | edgeDelete
  | propertyInsert
  | nodeUpdate
  | edgeUpdate
  | propertyUpdate
  | rdfTripleInsert
  | rdfTripleDelete
  | clr
  | segmentDescriptor
  | compactionBegin
  | compactionEnd
  | indexPageInsert
  | indexPageUpdate
  | indexPageFree
  deriving DecidableEq, Repr

namespace RecordType

def toByte : RecordType → UInt8
  | begin => 0x01
  | commit => 0x02
  | abort => 0x03
  | pageInsert => 0x10
  | pageUpdate => 0x11
  | pageFree => 0x12
  | bitmapUpdate => 0x13
  | checkpointBegin => 0x20
  | checkpointEnd => 0x21
  | nodeInsert => 0x30
  | nodeDelete => 0x31
  | edgeInsert => 0x32
  | edgeDelete => 0x33
  | propertyInsert => 0x34
  | nodeUpdate => 0x35
  | edgeUpdate => 0x36
  | propertyUpdate => 0x37
  | rdfTripleInsert => 0x38
  | rdfTripleDelete => 0x39
  | clr => 0x40
  | segmentDescriptor => 0x50
  | compactionBegin => 0x60
  | compactionEnd => 0x61
  | indexPageInsert => 0x70
  | indexPageUpdate => 0x71
  | indexPageFree => 0x72

def ofByte? : UInt8 → Option RecordType
  | 0x01 => some begin
  | 0x02 => some commit
  | 0x03 => some abort
  | 0x10 => some pageInsert
  | 0x11 => some pageUpdate
  | 0x12 => some pageFree
  | 0x13 => some bitmapUpdate
  | 0x20 => some checkpointBegin
  | 0x21 => some checkpointEnd
  | 0x30 => some nodeInsert
  | 0x31 => some nodeDelete
  | 0x32 => some edgeInsert
  | 0x33 => some edgeDelete
  | 0x34 => some propertyInsert
  | 0x35 => some nodeUpdate
  | 0x36 => some edgeUpdate
  | 0x37 => some propertyUpdate
  | 0x38 => some rdfTripleInsert
  | 0x39 => some rdfTripleDelete
  | 0x40 => some clr
  | 0x50 => some segmentDescriptor
  | 0x60 => some compactionBegin
  | 0x61 => some compactionEnd
  | 0x70 => some indexPageInsert
  | 0x71 => some indexPageUpdate
  | 0x72 => some indexPageFree
  | _ => none

theorem ofByte?_toByte (t : RecordType) : ofByte? t.toByte = some t := by
  cases t <;> rfl

theorem toByte_of_ofByte? {b : UInt8} {t : RecordType} (h : ofByte? b = some t) : t.toByte = b := by
  unfold ofByte? at h
  split at h <;> cases h <;> rfl

end RecordType

/-- One record; `prevLsn` is the one before it of its transaction. -/
structure WalRecord where
  recordType : RecordType
  txid : Nat
  lsn : Nat
  prevLsn : Nat
  timestamp : Nat
  payload : Bytes
  headerCrc : UInt32
  payloadHash : UInt64
  deriving DecidableEq

namespace WalRecord

def onDiskSize (r : WalRecord) : Nat := walRecordMinSize + r.payload.length

/-- The bytes up to the header checksum. -/
def header (r : WalRecord) : Bytes :=
  natToBE 4 walMagicStart ++ ([walVersion] ++ ([r.recordType.toByte] ++
    (natToBE 8 r.txid ++ (natToBE 8 r.lsn ++ (natToBE 8 r.prevLsn ++
      (natToBE 8 r.timestamp ++ natToBE 4 r.payload.length))))))

/-- The checksum counts as zero. -/
def computeHeaderCrc (h : WalHash) (r : WalRecord) : UInt32 := h.crc32c (r.header ++ natToBE 4 0)

def computePayloadHash (h : WalHash) (r : WalRecord) : UInt64 := h.xxHash64 r.payload

/-- Both checksums are computed anew. -/
def setLsn (h : WalHash) (r : WalRecord) (lsn : Nat) : WalRecord :=
  let r := { r with lsn := lsn }
  { r with
    payloadHash := r.computePayloadHash h
    headerCrc := r.computeHeaderCrc h }

/-- A new record; `now` is the clock. -/
def new (h : WalHash) (now : Nat) (recordType : RecordType)
    (txid lsn prevLsn : Nat) (payload : Bytes) : WalRecord :=
  setLsn h ⟨recordType, txid, lsn, prevLsn, now, payload, 0, 0⟩ lsn

def encode (r : WalRecord) : Bytes :=
  r.header ++ (natToBE 4 r.headerCrc.toNat ++ (r.payload ++
    (natToBE 8 r.payloadHash.toNat ++ natToBE 4 walMagicEnd)))

/-- The record at `offset`, and how many bytes it takes. -/
def decode (h : WalHash) (buf : Bytes) (offset : Nat) : Option (WalRecord × Nat) :=
  let bs := buf.drop offset
  if bs.length < walRecordMinSize then none
  else if beToNat (readAt bs 0 4) ≠ walMagicStart then none
  else if bs.getD 4 0 ≠ walVersion then none
  else
    match RecordType.ofByte? (bs.getD 5 0) with
    | none => none
    | some recordType =>
      let payloadLen := beToNat (readAt bs 38 4)
      if bs.length < 46 + payloadLen + 8 + 4 then none
      else if beToNat (readAt bs (54 + payloadLen) 4) ≠ walMagicEnd then none
      else
        let r : WalRecord :=
          { recordType := recordType
            txid := beToNat (readAt bs 6 8)
            lsn := beToNat (readAt bs 14 8)
            prevLsn := beToNat (readAt bs 22 8)
            timestamp := beToNat (readAt bs 30 8)
            payload := readAt bs 46 payloadLen
            headerCrc := .ofNat (beToNat (readAt bs 42 4))
            payloadHash := .ofNat (beToNat (readAt bs (46 + payloadLen) 8)) }
        if r.computeHeaderCrc h ≠ r.headerCrc then none
        else if r.computePayloadHash h ≠ r.payloadHash then none
        else some (r, 46 + payloadLen + 12)

/-- The loop of `load_single_segment` and of `last_valid_offset`: the records
up to the first that does not decode, and where that is. -/
def decodeLoop (h : WalHash) (raw : Bytes) :
    Nat → Nat → List WalRecord × Nat
  | 0, offset => ([], offset)
  | fuel + 1, offset =>
    if offset < raw.length then
      match decode h raw offset with
      | some (r, size) =>
        let (rs, last) := decodeLoop h raw fuel (offset + size)
        (r :: rs, last)
      | none => ([], offset)
    else ([], offset)

/-- The records of a file. -/
def loadSingleSegment (h : WalHash) (raw : Bytes) : List WalRecord :=
  (decodeLoop h raw raw.length 0).1

/-- Where they end. -/
def lastValidOffset (h : WalHash) (raw : Bytes) : Nat := (decodeLoop h raw raw.length 0).2

end WalRecord

end RGraph.Wal
