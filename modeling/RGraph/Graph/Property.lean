import RGraph.Graph.Engine

/-!
# Property maps (`graph/graph.rs`, `graph/property.rs`)

A map of properties is stored as a chain of records in the order of the keys.
It is an ordered map here: the hash map of the source shows its order nowhere,
since the keys are sorted before they are written.
-/

namespace RGraph.GraphApi

open RGraph.Lib RGraph.Storage RGraph.Index RGraph.Graph Call

/-! ## Property values -/

/-- The codec has no form for dates, durations, points, lists and maps; these
are all `other`. A float is the bits of an IEEE-754 double. -/
inductive Property where
  | null
  | boolean (b : Bool)
  | integer (v : Int64)
  | float (bits : UInt64)
  | string (s : String)
  | other
  deriving DecidableEq, Repr

namespace Property

def isNan (bits : UInt64) : Bool :=
  bits &&& 0x7FF0000000000000 == 0x7FF0000000000000 && bits &&& 0x000FFFFFFFFFFFFF != 0

def toValueTypePayload : Property → Option (ValueType × Bytes)
  | .null => some (.null, [])
  | .boolean b => some (.bool, [if b then 0x01 else 0x00])
  | .integer v => some (.int64, natToBE 8 v.toUInt64.toNat)
  | .float bits =>
    let bits := if isNan bits then 0x7FF8000000000000 else bits
    some (.float64, natToBE 8 bits.toNat)
  | .string s => some (.string, nameBytes s)
  | .other => none

end Property

def decodePropertyValue (vtype : ValueType) (payload : Bytes) : Property :=
  match vtype with
  | .null => .null
  | .bool => .boolean (payload.headD 0 != 0)
  | .int64 =>
    if 8 ≤ payload.length then
      .integer (UInt64.ofNat (beToNat (payload.take 8))).toInt64
    else .null
  | .float64 =>
    if 8 ≤ payload.length then
      .float (UInt64.ofNat (beToNat (payload.take 8)))
    else .null
  | .string =>
    match nameFromUtf8 payload with
    | some s => .string s
    | none => .null
  | .list => .null
  | .map => .null

abbrev PropertyMap := Std.ExtTreeMap String Property

/-- `PropertyRecord::inline` with its assertion. -/
def inlineProperty (name : String) (value : Property) : Res PropertyRecord :=
  let (vtype, payload) := value.toValueTypePayload.getD (.null, [])
  if payload.length ≤ PropertyRecord.maxInlinePropertyLen then
    .ok (.inlineValue (nameBytes name) 0 vtype payload)
  else .error .panic

def buildPropertyRecords (properties : PropertyMap) : Res (List PropertyRecord) :=
  properties.toList.mapM fun entry => inlineProperty entry.1 entry.2

/-- `MAX_CHAIN_DEPTH`, after which the reader of a chain stops. -/
def maxChainDepth : Nat := 4096

end RGraph.GraphApi
