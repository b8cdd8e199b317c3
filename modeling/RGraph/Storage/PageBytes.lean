import RGraph.Lib.Checksum
import RGraph.Lib.File

/-!
# The checksum of a page

`storage/page.rs`, the functions over a raw page buffer. Bytes 28 to 32 hold a
CRC-32C of the whole page taken with these four bytes zero; the integers of
the header are in the machine's own order, little-endian here.
-/

namespace RGraph.Storage

open RGraph.Lib

def pageSize : Nat := 8192

def pageMagic : Nat := 0x52475047

def computeChecksumBytes (crc : Crc32c) (buf : Bytes) : UInt32 :=
  crc.append (crc.append (crc.crc32c (buf.take 28)) [0, 0, 0, 0]) (buf.drop 32)

def storedChecksum (buf : Bytes) : Nat := leToNat (readAt buf 28 4)

def verifyChecksumBytes (crc : Crc32c) (buf : Bytes) : Bool :=
  buf.length == pageSize && storedChecksum buf == (computeChecksumBytes crc buf).toNat

def updateChecksumBytes (crc : Crc32c) (buf : Bytes) : Bytes :=
  writeAt buf 28 (natToLE 4 (computeChecksumBytes crc buf).toNat)

def hasValidMagicBytes (buf : Bytes) : Bool :=
  28 ≤ buf.length && leToNat (readAt buf 24 4) == pageMagic

/-! ## Updating makes it verify -/

variable {crc : Crc32c} {buf : Bytes}

theorem length_updateChecksumBytes (crc : Crc32c) (h : buf.length = pageSize) :
    (updateChecksumBytes crc buf).length = pageSize := by
  rw [updateChecksumBytes, length_writeAt, length_natToLE, h]
  rfl

theorem computeChecksumBytes_update (h : buf.length = pageSize) :
    computeChecksumBytes crc (updateChecksumBytes crc buf) = computeChecksumBytes crc buf := by
  have htake : (updateChecksumBytes crc buf).take 28 = buf.take 28 := by
    have : 28 ≤ buf.length := by rw [h]; decide
    rw [updateChecksumBytes, writeAt, Nat.sub_eq_zero_of_le this]
    simp [this]
  have hdrop : (updateChecksumBytes crc buf).drop 32 = buf.drop 32 := by
    have : 28 ≤ buf.length := by rw [h]; decide
    rw [updateChecksumBytes, writeAt, Nat.sub_eq_zero_of_le this]
    simp [List.drop_append, this]
  rw [computeChecksumBytes, htake, hdrop, ← computeChecksumBytes]

theorem storedChecksum_update : storedChecksum (updateChecksumBytes crc buf) =
      (computeChecksumBytes crc buf).toNat := by
  have hread := readAt_writeAt_self buf 28 (natToLE 4 (computeChecksumBytes crc buf).toNat)
  rw [length_natToLE] at hread
  rw [storedChecksum, updateChecksumBytes, hread, leToNat_natToLE]
  exact UInt32.toNat_lt _

theorem verifyChecksumBytes_update (h : buf.length = pageSize) :
    verifyChecksumBytes crc (updateChecksumBytes crc buf) = true := by
  simp [verifyChecksumBytes, length_updateChecksumBytes crc h,
    storedChecksum_update, computeChecksumBytes_update h]

end RGraph.Storage
