import RGraph.Storage.PageBytes

/-!
# The double-write buffer and the direct write path

`wal/doublewrite.rs`, and `write_page` of `storage/manager.rs` without a
buffer pool. A page is staged in a file of its own, that file is synced, the
page is written in place, and the staging file is emptied. On open, every
staged image is put back over a page that is missing or fails its checksum.

The data file exists while a manager is open, so the test for a missing file
is left out. Offsets are natural numbers: a page id that `pageOffset` accepts
is below 2^51, and so is every id whose bytes come from two such ids.
-/

namespace RGraph.Wal

open RGraph.Lib RGraph.Storage

def doublewriteCapacity : Nat := 128

def entrySize : Nat := 8 + pageSize

/-! ## The staging file -/

def encodeEntry (page : Nat × Bytes) : Bytes := natToBE 8 page.1 ++ setLen page.2 pageSize

def encodeBatch (pages : List (Nat × Bytes)) : Bytes :=
  let batch := pages.take doublewriteCapacity
  natToBE 4 batch.length ++ batch.flatMap encodeEntry

def writeBatch (dw : Bytes) (pages : List (Nat × Bytes)) : Bytes :=
  let buf := encodeBatch pages
  setLen (writeAt dw 0 buf) buf.length

def clear (dw : Bytes) : Bytes := setLen dw 0

/-- What a thread does to the staging file. No lock is taken, so calls of other
threads come between those of one. -/
inductive StagingCall where
  | writeBatch (pages : List (Nat × Bytes))
  | clear

def StagingCall.run (dw : Bytes) : StagingCall → Bytes
  | .writeBatch pages => Wal.writeBatch dw pages
  | .clear => Wal.clear dw

def readEntriesFrom (raw : Bytes) (off : Nat) : Nat → List (Nat × Bytes)
  | 0 => []
  | n + 1 =>
    (beToNat (readAt raw off 8), readAt raw (off + 8) pageSize) ::
      readEntriesFrom raw (off + entrySize) n

def readEntries (dw : Bytes) : List (Nat × Bytes) :=
  if dw.length < 4 then []
  else
    let count := beToNat (readAt dw 0 4)
    if dw.length < 4 + count * entrySize then []
    else readEntriesFrom dw 4 count

/-! ## Recovery -/

def verifyPageChecksum (crc : Crc32c) (page : Bytes) : Bool :=
  if page.length < pageSize then false
  else if page.all (· == 0) then true
  else verifyChecksumBytes crc (page.take pageSize)

def pageAt (data : Bytes) (pid : Nat) : Bytes := readAt data (pid * pageSize) pageSize

theorem pageAt_writeAt_self {data image : Bytes} {pid : Nat} (h : image.length = pageSize) :
    pageAt (writeAt data (pid * pageSize) image) pid = image := by
  have := readAt_writeAt_self data (pid * pageSize) image
  rwa [h] at this

theorem pageAt_writeAt_ne {data image : Bytes} {pid q : Nat}
    (h : image.length = pageSize) (hne : q ≠ pid) :
    pageAt (writeAt data (pid * pageSize) image) q = pageAt data q := by
  refine readAt_writeAt_ne data ?_
  rw [h, ← Nat.succ_mul, ← Nat.succ_mul]
  rcases Nat.lt_or_gt_of_ne hne with hlt | hgt
  · exact .inl (Nat.mul_le_mul_right _ hlt)
  · exact .inr (Nat.mul_le_mul_right _ hgt)

def isTorn (crc : Crc32c) (data : Bytes) (pid : Nat) : Bool :=
  if data.length < pid * pageSize + pageSize then true
  else !verifyPageChecksum crc (pageAt data pid)

def restoreEntry (crc : Crc32c) (acc : Bytes × Nat) (e : Nat × Bytes) : Bytes × Nat :=
  if isTorn crc acc.1 e.1 then
    (writeAt acc.1 (e.1 * pageSize) (setLen e.2 pageSize), acc.2 + 1)
  else acc

/-- The data file after recovery, and how many pages were restored. -/
def recoverTornPages (crc : Crc32c) (data dw : Bytes) : Bytes × Nat :=
  (readEntries dw).foldl (restoreEntry crc) (data, 0)

/-! ## `write_page` -/

structure Disk where
  data : Bytes
  dw : Bytes
  deriving DecidableEq

def pageOffset (pid : Nat) : Except String Nat :=
  if pid * pageSize < 2 ^ 64 ∧ pid * pageSize + pageSize < 2 ^ 64 then
    .ok (pid * pageSize)
  else
    .error s!"page id {pid} offset overflows the address space"

def grow (data : Bytes) (required : Nat) : Bytes :=
  if data.length < required then setLen data required else data

def writePage (crc : Crc32c) (s : Disk) (pid : Nat) (buf : Bytes) :
    Except String Disk := do
  let buf := updateChecksumBytes crc buf
  let offset ← pageOffset pid
  let data := grow s.data (offset + pageSize)
  let staged := writeBatch s.dw [(pid, buf)]
  return ⟨writeAt data offset buf, clear staged⟩

/-- Where a crash finds `writePage`. The file operations that are not synced
yet may have reached the disk or not, and the two page writes may be torn. -/
inductive CrashPoint where
  | start
  | grown
  | staging (dw : Bytes)
  | unsized
  | staged
  | inPlace (page : Bytes)
  | written
  | cleared

def crashState (crc : Crc32c) (s : Disk) (pid : Nat) (buf : Bytes) (pt : CrashPoint) : Disk :=
  let image := updateChecksumBytes crc buf
  let offset := pid * pageSize
  let data := grow s.data (offset + pageSize)
  let staged := writeBatch s.dw [(pid, image)]
  match pt with
  | .start => s
  | .grown => ⟨data, s.dw⟩
  | .staging dw => ⟨data, dw⟩
  | .unsized => ⟨data, writeAt s.dw 0 (encodeBatch [(pid, image)])⟩
  | .staged => ⟨data, staged⟩
  | .inPlace page => ⟨writeAt data offset page, staged⟩
  | .written => ⟨writeAt data offset image, staged⟩
  | .cleared => ⟨writeAt data offset image, clear staged⟩

end RGraph.Wal
