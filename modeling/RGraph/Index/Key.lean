import RGraph.Graph.Record

/-!
# Index keys (`index/key.rs`, `index/value_codec.rs`)

A composite key is the concatenation of its fields, most significant byte
first, so that the order of the bytes is the order of the fields. The value in
a property key is written by `encodePropertyValue`: a tag and a form of the
value that keeps the order of its type.
-/

namespace RGraph.Index

open RGraph.Lib RGraph.Graph

/-- Ids are `u128` in keys. -/
def nodeIdKey (nodeId : Nat) : Bytes := natToBE 16 nodeId

def edgeIdKey (edgeId : Nat) : Bytes := natToBE 16 edgeId

def edgeAdjacencyKey (sourceId typeId targetId : Nat) : Bytes :=
  natToBE 16 sourceId ++ (natToBE 8 typeId ++ natToBE 16 targetId)

def labelIndexKey (labelHash nodeId : Nat) : Bytes := natToBE 8 labelHash ++ natToBE 16 nodeId

def typeIndexKey (typeId edgeId : Nat) : Bytes := natToBE 8 typeId ++ natToBE 16 edgeId

def propertyIndexKey (propertyId : Nat) (serializedValue : Bytes) (entityId : Nat) : Bytes :=
  natToBE 8 propertyId ++ (serializedValue ++ natToBE 16 entityId)

def rdfSpoKey (subject predicate object : Nat) : Bytes :=
  natToBE 16 subject ++ (natToBE 8 predicate ++ natToBE 16 object)

def rdfPosKey (predicate object subject : Nat) : Bytes :=
  natToBE 8 predicate ++ (natToBE 16 object ++ natToBE 16 subject)

def rdfOspKey (object subject predicate : Nat) : Bytes :=
  natToBE 16 object ++ (natToBE 16 subject ++ natToBE 8 predicate)

/-- A triple of term ids. -/
structure RdfTriple where
  subject : BitVec 128
  predicate : UInt64
  object : BitVec 128
  deriving DecidableEq, Repr

/-! ## Values -/

/-- A longer value gets no key. -/
def maxEncodedLen : Nat := 512

/-- A floating-point number is given by its bits in their ordered form. -/
inductive Value where
  | null
  | bool (b : Bool)
  | int64 (v : Int64)
  | float64 (ordered : UInt64)
  | string (bytes : Bytes)
  | list (bytes : Bytes)
  | map (bytes : Bytes)
  deriving DecidableEq, Repr

def signBit : UInt64 := 0x8000000000000000

/-- The two's complement bits with the sign bit flipped. -/
def orderI64 (v : Int64) : UInt64 := v.toUInt64 ^^^ signBit

/-- Negative numbers are turned round, below the others. -/
def orderF64Bits (bits : UInt64) : UInt64 :=
  if bits &&& signBit != 0 then ~~~bits else bits ^^^ signBit

/-- No escaped byte ends in a bare zero. -/
def escapeByte (b : UInt8) : Bytes :=
  if b = 0x00 then [0x00, 0xFF]
  else if b = 0xFF then [0xFF, 0x00]
  else [b]

/-- At most `u16::MAX` bytes, escaped, and a bare zero. -/
def encodeTerminated (bytes : Bytes) : Bytes := (bytes.take 0xFFFF).flatMap escapeByte ++ [0x00]

/-- The tag of the type, and the value. -/
def encodeBytes : Value → Bytes
  | .null => [ValueType.null.toByte]
  | .bool b => [ValueType.bool.toByte, if b then 0x01 else 0x00]
  | .int64 v => ValueType.int64.toByte :: natToBE 8 (orderI64 v).toNat
  | .float64 ordered => ValueType.float64.toByte :: natToBE 8 ordered.toNat
  | .string bytes => ValueType.string.toByte :: encodeTerminated bytes
  | .list bytes => ValueType.list.toByte :: encodeTerminated bytes
  | .map bytes => ValueType.map.toByte :: encodeTerminated bytes

def encodeValue (value : Value) : Option Bytes :=
  if maxEncodedLen < (encodeBytes value).length then none
  else some (encodeBytes value)

/-- The value that a property record's type and payload stand for. -/
def propertyValue (valueType : ValueType) (payload : Bytes) : Option Value :=
  match valueType with
  | .null => some .null
  | .bool => payload.head?.map fun b => .bool (b != 0)
  | .int64 =>
    if payload.length < 8 then none
    else some (.int64 (UInt64.ofNat (beToNat (payload.take 8))).toInt64)
  | .float64 =>
    if payload.length < 8 then none
    else some (.float64 (orderF64Bits (UInt64.ofNat (beToNat (payload.take 8)))))
  | .string => some (.string payload)
  | .list => some (.list payload)
  | .map => some (.map payload)

/-- None too if the payload is short. -/
def encodePropertyValue (valueType : ValueType) (payload : Bytes) : Option Bytes :=
  (propertyValue valueType payload).bind encodeValue

end RGraph.Index
