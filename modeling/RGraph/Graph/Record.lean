import RGraph.Lib.File

/-!
# Graph records (`graph/record.rs`)

Nodes and edges are `#[repr(C)]` structures that are copied to and from the
page as they lie in memory: every integer in the machine's own order,
little-endian here, and no tag that would say which kind a record is. A node
is 32 bytes long and an edge 64. A property is as long as its name and its
payload make it.
-/

namespace RGraph.Graph

open RGraph.Lib

def nameBytes (name : String) : Bytes := name.toByteArray.data.toList

/-- `str::from_utf8`. -/
def nameFromUtf8 (bs : Bytes) : Option String := String.fromUTF8? ⟨bs.toArray⟩

/-- A page id of 24 bits and a slot index of 8. -/
structure SlotRef where
  raw : UInt32
  deriving DecidableEq, Repr

namespace SlotRef

/-- No record. -/
def null : SlotRef := ⟨0⟩

def maxPageId : Nat := 0x00FFFFFF

def maxSlotIndex : Nat := 0xFF

def new (pageId slotIndex : Nat) : SlotRef := ⟨UInt32.ofNat (pageId * 256 + slotIndex)⟩

def pageId (s : SlotRef) : Nat := s.raw.toNat / 256

def slotIndex (s : SlotRef) : Nat := s.raw.toNat % 256

def isNull (s : SlotRef) : Bool := s.raw == 0

end SlotRef

/-! ## Nodes -/

/-- The heads of its two edge lists and of its properties. -/
structure NodeRecord where
  nodeId : UInt64
  labelId : UInt32
  firstOutgoingEdge : SlotRef
  firstIncomingEdge : SlotRef
  firstProperty : SlotRef
  flags : UInt16
  generation : UInt16
  pad : UInt32
  deriving DecidableEq, Repr

/-- Bit 0 of the flags of a node or an edge: a tombstone. -/
def deletedFlag : UInt16 := 0x0001

namespace NodeRecord

def size : Nat := 32

/-- A node without edges and properties. -/
def new (nodeId : UInt64) (labelId : UInt32) : NodeRecord :=
  ⟨nodeId, labelId, .null, .null, .null, 0, 0, 0⟩

def isDeleted (n : NodeRecord) : Bool := n.flags &&& deletedFlag != 0

def encode (n : NodeRecord) : Bytes :=
  natToLE 8 n.nodeId.toNat ++ (natToLE 4 n.labelId.toNat ++
    (natToLE 4 n.firstOutgoingEdge.raw.toNat ++ (natToLE 4 n.firstIncomingEdge.raw.toNat ++
    (natToLE 4 n.firstProperty.raw.toNat ++ (natToLE 2 n.flags.toNat ++
    (natToLE 2 n.generation.toNat ++ natToLE 4 n.pad.toNat))))))

/-- Any 32 bytes are a node. -/
def decode (bytes : Bytes) : Option NodeRecord :=
  if bytes.length ≠ size then none
  else some {
    nodeId := .ofNat (leToNat (readAt bytes 0x00 8))
    labelId := .ofNat (leToNat (readAt bytes 0x08 4))
    firstOutgoingEdge := ⟨.ofNat (leToNat (readAt bytes 0x0C 4))⟩
    firstIncomingEdge := ⟨.ofNat (leToNat (readAt bytes 0x10 4))⟩
    firstProperty := ⟨.ofNat (leToNat (readAt bytes 0x14 4))⟩
    flags := .ofNat (leToNat (readAt bytes 0x18 2))
    generation := .ofNat (leToNat (readAt bytes 0x1A 2))
    pad := .ofNat (leToNat (readAt bytes 0x1C 4)) }

end NodeRecord

/-! ## Edges -/

/-- A member of the list of its source and of that of its target. -/
structure EdgeRecord where
  edgeId : UInt64
  sourceId : UInt64
  targetId : UInt64
  typeId : UInt32
  sourceNode : SlotRef
  targetNode : SlotRef
  prevSourceEdge : SlotRef
  nextSourceEdge : SlotRef
  prevTargetEdge : SlotRef
  nextTargetEdge : SlotRef
  firstProperty : SlotRef
  flags : UInt16
  generation : UInt16
  pad : UInt32
  deriving DecidableEq, Repr

namespace EdgeRecord

def size : Nat := 64

def new (edgeId : UInt64) (typeId : UInt32) (sourceId targetId : UInt64)
    (source target : SlotRef) : EdgeRecord :=
  ⟨edgeId, sourceId, targetId, typeId, source, target, .null, .null, .null, .null, .null, 0, 0, 0⟩

def isDeleted (e : EdgeRecord) : Bool := e.flags &&& deletedFlag != 0

def encode (e : EdgeRecord) : Bytes :=
  natToLE 8 e.edgeId.toNat ++ (natToLE 8 e.sourceId.toNat ++
    (natToLE 8 e.targetId.toNat ++ (natToLE 4 e.typeId.toNat ++
    (natToLE 4 e.sourceNode.raw.toNat ++ (natToLE 4 e.targetNode.raw.toNat ++
    (natToLE 4 e.prevSourceEdge.raw.toNat ++ (natToLE 4 e.nextSourceEdge.raw.toNat ++
    (natToLE 4 e.prevTargetEdge.raw.toNat ++ (natToLE 4 e.nextTargetEdge.raw.toNat ++
    (natToLE 4 e.firstProperty.raw.toNat ++ (natToLE 2 e.flags.toNat ++
    (natToLE 2 e.generation.toNat ++ natToLE 4 e.pad.toNat))))))))))))

/-- Any 64 bytes are an edge. -/
def decode (bytes : Bytes) : Option EdgeRecord :=
  if bytes.length ≠ size then none
  else some {
    edgeId := .ofNat (leToNat (readAt bytes 0x00 8))
    sourceId := .ofNat (leToNat (readAt bytes 0x08 8))
    targetId := .ofNat (leToNat (readAt bytes 0x10 8))
    typeId := .ofNat (leToNat (readAt bytes 0x18 4))
    sourceNode := ⟨.ofNat (leToNat (readAt bytes 0x1C 4))⟩
    targetNode := ⟨.ofNat (leToNat (readAt bytes 0x20 4))⟩
    prevSourceEdge := ⟨.ofNat (leToNat (readAt bytes 0x24 4))⟩
    nextSourceEdge := ⟨.ofNat (leToNat (readAt bytes 0x28 4))⟩
    prevTargetEdge := ⟨.ofNat (leToNat (readAt bytes 0x2C 4))⟩
    nextTargetEdge := ⟨.ofNat (leToNat (readAt bytes 0x30 4))⟩
    firstProperty := ⟨.ofNat (leToNat (readAt bytes 0x34 4))⟩
    flags := .ofNat (leToNat (readAt bytes 0x38 2))
    generation := .ofNat (leToNat (readAt bytes 0x3A 2))
    pad := .ofNat (leToNat (readAt bytes 0x3C 4)) }

end EdgeRecord

/-! ## Properties -/

/-- The tag of a value. -/
inductive ValueType where
  | null
  | bool
  | int64
  | float64
  | string
  | list
  | map
  deriving DecidableEq, Repr

def ValueType.toByte : ValueType → UInt8
  | .null => 0x00
  | .bool => 0x01
  | .int64 => 0x02
  | .float64 => 0x03
  | .string => 0x04
  | .list => 0x05
  | .map => 0x06

def ValueType.fromByte (b : UInt8) : Option ValueType :=
  [null, bool, int64, float64, string, list, map].find? (·.toByte == b)

/-- What comes before the name and the payload. -/
structure PropertyHeader where
  propertyKeyId : UInt32
  valueLength : UInt16
  valueType : UInt8
  pad : UInt8
  deriving DecidableEq, Repr

namespace PropertyHeader

def size : Nat := 8

def new (propertyKeyId : UInt32) (valueType : ValueType) (valueLength : UInt16) : PropertyHeader :=
  ⟨propertyKeyId, valueLength, valueType.toByte, 0⟩

def encode (h : PropertyHeader) : Bytes :=
  natToLE 4 h.propertyKeyId.toNat ++ (natToLE 2 h.valueLength.toNat ++ [h.valueType, h.pad])

end PropertyHeader

/-- The name is kept as its UTF-8 bytes. -/
structure PropertyRecord where
  header : PropertyHeader
  nextProperty : SlotRef
  propertyName : Bytes
  payload : Bytes
  deriving DecidableEq, Repr

namespace PropertyRecord

def maxInlinePropertyLen : Nat := 256

/-- A property whose value is stored in the record. The source asserts that
the payload is not longer than `maxInlinePropertyLen`. -/
def inlineValue (name : Bytes) (propertyKeyId : UInt32)
    (valueType : ValueType) (payload : Bytes) : PropertyRecord :=
  ⟨.new propertyKeyId valueType 0, .null, name, payload⟩

def onDiskSize (p : PropertyRecord) : Nat :=
  PropertyHeader.size + 4 + 2 + p.propertyName.length + p.payload.length

/-- The length in the header is that of everything behind it. -/
def encode (p : PropertyRecord) : Bytes :=
  let totalLen := 4 + 2 + p.propertyName.length + p.payload.length
  { p.header with valueLength := UInt16.ofNat totalLen }.encode ++
    (natToBE 4 p.nextProperty.raw.toNat ++
    (natToBE 2 p.propertyName.length ++ (p.propertyName ++ p.payload)))

end PropertyRecord

end RGraph.Graph
