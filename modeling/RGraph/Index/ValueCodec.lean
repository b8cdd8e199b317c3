import RGraph.Index.Key
import RGraph.Lib.Binary64

/-!
# Reading values back (`index/value_codec.rs`)

Two orders of values, the one derived for `Value` and the one that the codec
documents, and the decoder of one value at the front of a byte string.
-/

namespace RGraph.Index

open RGraph.Lib RGraph.Graph

def unorderF64Bits (bits : UInt64) : UInt64 :=
  if bits &&& signBit != 0 then bits ^^^ signBit else ~~~bits

namespace Value

def rank : Value → Nat
  | null => 0
  | bool _ => 1
  | int64 _ => 2
  | float64 _ => 3
  | string _ => 4
  | list _ => 5
  | map _ => 6

/-- The derived order of two values of one type. -/
def compareSame : Value → Value → Ordering
  | bool a, bool b => compare a b
  | int64 a, int64 b => compare a.toInt b.toInt
  | float64 a, float64 b => compare a.toNat b.toNat
  | string a, string b => compare a b
  | list a, list b => compare a b
  | map a, map b => compare a b
  | _, _ => .eq

def cmp (v w : Value) : Ordering := (compare v.rank w.rank).then (v.compareSame w)

/-- The same with floats as numbers, and NaN behind them. -/
def documentedSame : Value → Value → Ordering
  | float64 a, float64 b => Binary64.cmp (unorderF64Bits a).toNat (unorderF64Bits b).toNat
  | v, w => v.compareSame w

/-- The order in the documentation of the codec. -/
def documentedCmp (v w : Value) : Ordering := (compare v.rank w.rank).then (v.documentedSame w)

/-- The values that are written as escaped bytes and a terminator. -/
def terminated : Value → Bool
  | string _ | list _ | map _ => true
  | _ => false

end Value

def unorderI64 (v : UInt64) : Int64 := (v ^^^ signBit).toInt64

/-- The bytes up to the terminator, and how many bytes they took. -/
def decodeTerminated : Bytes → Option (Bytes × Nat)
  | [] => none
  | [b] => if b = 0x00 then some ([], 1) else none
  | b :: c :: rest =>
    if b = 0x00 ∧ c = 0xFF then
      (decodeTerminated rest).map fun r => (0x00 :: r.1, 2 + r.2)
    else if b = 0xFF ∧ c = 0x00 then
      (decodeTerminated rest).map fun r => (0xFF :: r.1, 2 + r.2)
    else if b = 0x00 then some ([], 1)
    else (decodeTerminated (c :: rest)).map fun r => (b :: r.1, 1 + r.2)

/-- The value at the front of `data`, and how many bytes it took. -/
def decodeValue (data : Bytes) : Option (Value × Nat) :=
  match data with
  | [] => none
  | tag :: rest =>
    match ValueType.fromByte tag with
    | some .null => some (.null, 1)
    | some .bool => rest.head?.map fun b => (.bool (b != 0), 2)
    | some .int64 =>
      if rest.length < 8 then none
      else some (.int64 (unorderI64 (UInt64.ofNat (beToNat (rest.take 8)))), 9)
    | some .float64 =>
      if rest.length < 8 then none
      else some (.float64 (UInt64.ofNat (beToNat (rest.take 8))), 9)
    | some .string => (decodeTerminated rest).map fun r => (.string r.1, 1 + r.2)
    | some .list => (decodeTerminated rest).map fun r => (.list r.1, 1 + r.2)
    | some .map => (decodeTerminated rest).map fun r => (.map r.1, 1 + r.2)
    | none => none

end RGraph.Index
