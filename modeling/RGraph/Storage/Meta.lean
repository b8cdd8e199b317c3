import RGraph.Storage.PageBytes

/-!
# The superblock

`storage/meta.rs`. The 128 bytes of a superblock are a `repr(C)` struct
without padding, read back by `read_unaligned`, so a block on disk is modelled
as the struct its bytes spell: any 128 bytes are exactly one value. Bytes
matter only to the checksum, which is taken over them with the checksum field
zero. The counters are `u64`; they are natural numbers here, since nothing
takes one to its limit.
-/

namespace RGraph.Storage

open RGraph.Lib

def formatVersion : Nat := 1

def metaMagic : Nat := 0x5247524150480001

structure Superblock where
  magic : Nat
  version : Nat
  pageSize : Nat
  totalPageCount : Nat
  freePageCount : Nat
  nextFreePageId : Nat
  currentWalLsn : Nat
  lastCheckpointLsn : Nat
  checkpointDirtyPageTableOffset : Nat
  generation : Nat
  checksum : UInt32
  graphMode : UInt8
  reserved : Vector UInt8 51
  deriving DecidableEq

namespace Superblock

def new (pageSize : Nat) : Superblock where
  magic := metaMagic
  version := formatVersion
  pageSize := pageSize
  totalPageCount := 0
  freePageCount := 0
  nextFreePageId := 1
  currentWalLsn := 0
  lastCheckpointLsn := 0
  checkpointDirtyPageTableOffset := 0
  generation := 1
  checksum := 0
  graphMode := 0
  reserved := Vector.replicate 51 0

/-- What a zeroed block spells. -/
def zero : Superblock where
  magic := 0
  version := 0
  pageSize := 0
  totalPageCount := 0
  freePageCount := 0
  nextFreePageId := 0
  currentWalLsn := 0
  lastCheckpointLsn := 0
  checkpointDirtyPageTableOffset := 0
  generation := 0
  checksum := 0
  graphMode := 0
  reserved := Vector.replicate 51 0

/-- The struct in memory, on a little-endian machine. -/
def bytes (sb : Superblock) : Bytes :=
  natToLE 8 sb.magic ++ natToLE 4 sb.version ++ natToLE 4 sb.pageSize ++
  natToLE 8 sb.totalPageCount ++ natToLE 8 sb.freePageCount ++
  natToLE 8 sb.nextFreePageId ++ natToLE 8 sb.currentWalLsn ++
  natToLE 8 sb.lastCheckpointLsn ++
  natToLE 8 sb.checkpointDirtyPageTableOffset ++
  natToLE 8 sb.generation ++ natToLE 4 sb.checksum.toNat ++
  [sb.graphMode] ++ sb.reserved.toList

def computeChecksum (crc : Crc32c) (sb : Superblock) : UInt32 :=
  crc.crc32c { sb with checksum := 0 }.bytes

def updateChecksum (crc : Crc32c) (sb : Superblock) : Superblock :=
  { sb with checksum := sb.computeChecksum crc }

def verifyChecksum (crc : Crc32c) (sb : Superblock) : Bool := sb.checksum == sb.computeChecksum crc

end Superblock

inductive SuperblockError where
  | tooShort
  | badMagic
  | endiannessMismatch
  | checksumMismatch
  | unsupportedVersion (found supported : Nat)
  | wrongPageSize (found expected : Nat)
  deriving DecidableEq, Repr

inductive ErrorKind where
  | invalidData
  | unsupported
  deriving DecidableEq, Repr

namespace SuperblockError

def display : SuperblockError → String
  | tooShort => "superblock buffer too short"
  | badMagic => "not an RGraph superblock (bad magic) or severe corruption"
  | endiannessMismatch =>
    "superblock was written on a machine of the opposite endianness " ++
    "(native-endian on-disk format); rebuild the database on this " ++
    "architecture"
  | checksumMismatch => "superblock checksum mismatch (corrupt)"
  | unsupportedVersion found supported =>
    s!"unsupported superblock format version {found} (this build supports {supported})"
  | wrongPageSize found expected =>
    s!"superblock page size {found} differs from this build's page size {expected}"

def errorKind : SuperblockError → ErrorKind
  | unsupportedVersion _ _ => .unsupported
  | wrongPageSize _ _ => .unsupported
  | endiannessMismatch => .unsupported
  | tooShort => .invalidData
  | badMagic => .invalidData
  | checksumMismatch => .invalidData

def specificity : SuperblockError → Nat
  | endiannessMismatch => 5
  | unsupportedVersion _ _ => 4
  | wrongPageSize _ _ => 3
  | checksumMismatch => 2
  | badMagic => 1
  | tooShort => 0

end SuperblockError

/-- A block read from the file is a whole page, so the length test of the
source has been passed. -/
def validateSuperblock (crc : Crc32c) (sb : Superblock) : Except SuperblockError Superblock :=
  if sb.magic ≠ metaMagic then
    if sb.magic = leToNat (natToBE 8 metaMagic) then
      .error .endiannessMismatch
    else
      .error .badMagic
  else if !sb.verifyChecksum crc then
    .error .checksumMismatch
  else if sb.version ≠ formatVersion then
    .error (.unsupportedVersion sb.version formatVersion)
  else if sb.pageSize ≠ pageSize then
    .error (.wrongPageSize sb.pageSize pageSize)
  else
    .ok sb

structure LoadError where
  kind : ErrorKind
  message : String
  deriving DecidableEq, Repr

/-- `load_superblock` on a file of `fileLen` bytes with these two copies. -/
def loadSuperblock (crc : Crc32c) (fileLen : Nat)
    (primary mirror : Superblock) : Except LoadError Superblock :=
  let minLen := 2 * pageSize
  if fileLen < minLen then
    .error ⟨.invalidData,
      s!"database file too short: expected at least {minLen} bytes, found {fileLen}"⟩
  else
    match validateSuperblock crc primary, validateSuperblock crc mirror with
    | .ok p, .ok m => if m.generation > p.generation then .ok m else .ok p
    | .ok p, .error _ => .ok p
    | .error _, .ok m => .ok m
    | .error ep, .error em =>
      let reason := if em.specificity > ep.specificity then em else ep
      .error ⟨reason.errorKind, reason.display⟩

/-! ## What `sync_superblock` writes

The mirror goes first, one generation up, and is made durable; then the
primary, two generations up. The in-memory copy ends two generations up. -/

def Superblock.mirrorImage (crc : Crc32c) (sb : Superblock) : Superblock :=
  { sb with generation := sb.generation + 1 }.updateChecksum crc

def Superblock.primaryImage (crc : Crc32c) (sb : Superblock) : Superblock :=
  { sb with generation := sb.generation + 2 }.updateChecksum crc

def Superblock.afterSync (sb : Superblock) : Superblock :=
  { sb with generation := sb.generation + 2 }

end RGraph.Storage
