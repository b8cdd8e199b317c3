import RGraph.Lib.Bytes

/-!
# Checksums

CRC-32C is a checksum with an incremental form, as the programs that use one
see it; the Castagnoli polynomial (reflected, `0x82F63B78`) is the instance to
compute with, and proofs are over an arbitrary `Crc32c`.

XXH64 is the 64-bit xxHash with seed 0, as a function to compute with. Words
are little-endian. Four lanes take 32 bytes at a time; what is left over goes
in by words of 8, then 4, then 1 byte.
-/

namespace RGraph.Lib

structure Crc32c where
  crc32c : Bytes → UInt32
  /-- Continue a checksum over further bytes. -/
  append : UInt32 → Bytes → UInt32

namespace Crc32c

def shift (c : Nat) : Nat := Nat.xor (Nat.div c 2) (Nat.mul (Nat.mod c 2) 0x82F63B78)

def byte (c : Nat) (b : UInt8) : Nat :=
  shift (shift (shift (shift (shift (shift (shift (shift (Nat.xor c b.toNat))))))))

/-- Feed bytes to the register. The match on the register makes reduction
evaluate it before it goes on. -/
def feed : Bytes → Nat → Nat
  | [], c => c
  | b :: bs, 0 => feed bs (byte 0 b)
  | b :: bs, c + 1 => feed bs (byte (c + 1) b)

def castagnoli : Crc32c where
  crc32c bs := UInt32.ofNat (feed bs 0xFFFFFFFF ^^^ 0xFFFFFFFF)
  append c bs := UInt32.ofNat (feed bs (c.toNat ^^^ 0xFFFFFFFF) ^^^ 0xFFFFFFFF)

-- the check value of the polynomial: the digits "123456789"
example : castagnoli.crc32c
    [0x31, 0x32, 0x33, 0x34, 0x35, 0x36, 0x37, 0x38, 0x39] = 0xE3069283 := by
  decide +kernel

end Crc32c

namespace XxHash


def prime1 : UInt64 := 0x9E3779B185EBCA87
def prime2 : UInt64 := 0xC2B2AE3D27D4EB4F
def prime3 : UInt64 := 0x165667B19E3779F9
def prime4 : UInt64 := 0x85EBCA77C2B2AE63
def prime5 : UInt64 := 0x27D4EB2F165667C5

def rotl (x n : UInt64) : UInt64 := (x <<< n) ||| (x >>> (64 - n))

def word (bs : Bytes) : UInt64 := UInt64.ofNat (leToNat bs)

def round (acc lane : UInt64) : UInt64 := rotl (acc + lane * prime2) 31 * prime1

def mergeRound (acc lane : UInt64) : UInt64 := (acc ^^^ round 0 lane) * prime1 + prime4

def avalanche (x : UInt64) : UInt64 :=
  let x := (x ^^^ (x >>> 33)) * prime2
  let x := (x ^^^ (x >>> 29)) * prime3
  x ^^^ (x >>> 32)

structure Lanes where
  v1 : UInt64
  v2 : UInt64
  v3 : UInt64
  v4 : UInt64

def Lanes.init : Lanes := ⟨prime1 + prime2, prime2, 0, 0 - prime1⟩

/-- Take one stripe of 32 bytes. -/
def Lanes.stripe (l : Lanes) (bs : Bytes) : Lanes :=
  ⟨round l.v1 (word (bs.take 8)), round l.v2 (word ((bs.drop 8).take 8)),
    round l.v3 (word ((bs.drop 16).take 8)),
    round l.v4 (word ((bs.drop 24).take 8))⟩

/-- The stripes, and the bytes left over. -/
def stripes : Nat → Lanes → Bytes → Lanes × Bytes
  | 0, l, bs => (l, bs)
  | n + 1, l, bs => stripes n (l.stripe bs) (bs.drop 32)

def Lanes.converge (l : Lanes) : UInt64 :=
  let acc := rotl l.v1 1 + rotl l.v2 7 + rotl l.v3 12 + rotl l.v4 18
  mergeRound (mergeRound (mergeRound (mergeRound acc l.v1) l.v2) l.v3) l.v4

def tail : Nat → UInt64 → Bytes → UInt64
  | 0, acc, _ => acc
  | fuel + 1, acc, bs =>
    if 8 ≤ bs.length then
      tail fuel (rotl (acc ^^^ round 0 (word (bs.take 8))) 27 * prime1 + prime4) (bs.drop 8)
    else if 4 ≤ bs.length then
      tail fuel (rotl (acc ^^^ (word (bs.take 4) * prime1)) 23 * prime2 + prime3) (bs.drop 4)
    else
      match bs with
      | [] => acc
      | b :: bs => tail fuel (rotl (acc ^^^ (b.toUInt64 * prime5)) 11 * prime1) bs

def xxHash64 (bs : Bytes) : UInt64 :=
  let (acc, rest) :=
    if bs.length < 32 then (prime5, bs)
    else
      let (l, rest) := stripes (bs.length / 32) Lanes.init bs
      (l.converge, rest)
  avalanche (tail (rest.length + 1) (acc + UInt64.ofNat bs.length) rest)

-- the empty text, and "abc"
example : xxHash64 [] = 0xEF46DB3751D8E999 := by decide +kernel
example : xxHash64 [0x61, 0x62, 0x63] = 0x44BC2CF5AD770999 := by decide +kernel

end XxHash

end RGraph.Lib
