import RGraph.Graph.Session

/-!
# Graph records read back

Encoding and decoding of nodes and edges, the parts of a slot reference, and
the face of a record: what `rebuild_indexes` takes it for. All that the engine
does to the pointers of a record leaves its face.
-/

namespace RGraph.Lib

/-! ## Fields -/

variable {w : Nat}

theorem readAt_field_skip {off : Nat} (x n : Nat) (rest : Bytes) (h : w ≤ off) :
    readAt (natToLE w x ++ rest) off n = readAt rest (off - w) n := by
  rw [readAt_append_right _ _ (by rw [length_natToLE]; exact h), length_natToLE]

theorem leToNat_field {x : Nat} (rest : Bytes) (h : x < 256 ^ w) :
    leToNat (readAt (natToLE w x ++ rest) 0 w) = x := by
  rw [readAt_append_left _ _ (length_natToLE w x), leToNat_natToLE w x h]

theorem leToNat_field_last {x : Nat} (h : x < 256 ^ w) :
    leToNat (readAt (natToLE w x) 0 w) = x := by
  have := leToNat_field [] h
  rwa [List.append_nil] at this

end RGraph.Lib

namespace RGraph.Graph

open RGraph.Lib

theorem nameFromUtf8_nameBytes (name : String) : nameFromUtf8 (nameBytes name) = some name := by
  simp only [nameFromUtf8, nameBytes, String.fromUTF8?]
  exact dif_pos name.isValidUTF8

/-! ## Nodes and edges -/

theorem NodeRecord.length_encode (n : NodeRecord) : n.encode.length = 32 := by
  simp [NodeRecord.encode]

theorem EdgeRecord.length_encode (g : EdgeRecord) : g.encode.length = 64 := by
  simp [EdgeRecord.encode]

theorem NodeRecord.decode_encode (n : NodeRecord) : NodeRecord.decode n.encode = some n := by
  have h64 := n.nodeId.toNat_lt
  have h1 := n.labelId.toNat_lt
  have h2 := n.firstOutgoingEdge.raw.toNat_lt
  have h3 := n.firstIncomingEdge.raw.toNat_lt
  have h4 := n.firstProperty.raw.toNat_lt
  have h5 := n.flags.toNat_lt
  have h6 := n.generation.toNat_lt
  have h7 := n.pad.toNat_lt
  rw [NodeRecord.decode, if_neg (by rw [n.length_encode]; decide), NodeRecord.encode]
  simp (disch := omega) only [readAt_field_skip, leToNat_field,
    leToNat_field_last, UInt64.ofNat_toNat, UInt32.ofNat_toNat,
    UInt16.ofNat_toNat, Nat.reduceSub, Nat.sub_self]

theorem EdgeRecord.decode_encode (g : EdgeRecord) : EdgeRecord.decode g.encode = some g := by
  have h1 := g.edgeId.toNat_lt
  have h2 := g.sourceId.toNat_lt
  have h3 := g.targetId.toNat_lt
  have h4 := g.typeId.toNat_lt
  have h5 := g.sourceNode.raw.toNat_lt
  have h6 := g.targetNode.raw.toNat_lt
  have h7 := g.prevSourceEdge.raw.toNat_lt
  have h8 := g.nextSourceEdge.raw.toNat_lt
  have h9 := g.prevTargetEdge.raw.toNat_lt
  have h10 := g.nextTargetEdge.raw.toNat_lt
  have h11 := g.firstProperty.raw.toNat_lt
  have h12 := g.flags.toNat_lt
  have h13 := g.generation.toNat_lt
  have h14 := g.pad.toNat_lt
  rw [EdgeRecord.decode, if_neg (by rw [g.length_encode]; decide), EdgeRecord.encode]
  simp (disch := omega) only [readAt_field_skip, leToNat_field,
    leToNat_field_last, UInt64.ofNat_toNat, UInt32.ofNat_toNat,
    UInt16.ofNat_toNat, Nat.reduceSub, Nat.sub_self]

variable {n : NodeRecord} {r : Bytes}

theorem NodeRecord.length_of_decode (h : NodeRecord.decode r = some n) : r.length = 32 := by
  rw [NodeRecord.decode] at h
  split at h
  · cases h
  · next hlen => exact not_not.mp hlen

variable {g : EdgeRecord}

theorem EdgeRecord.length_of_decode (h : EdgeRecord.decode r = some g) : r.length = 64 := by
  rw [EdgeRecord.decode] at h
  split at h
  · cases h
  · next hlen => exact not_not.mp hlen

theorem NodeRecord.decode_eq_none (h : r.length ≠ 32) : NodeRecord.decode r = none := if_pos h

theorem EdgeRecord.decode_eq_none (h : r.length ≠ 64) : EdgeRecord.decode r = none := if_pos h

/-! ## Slot references -/

namespace SlotRef

variable {i p : Nat}

theorem toNat_new (hp : p ≤ maxPageId) (hi : i ≤ maxSlotIndex) :
    (new p i).raw.toNat = p * 256 + i := by
  rw [maxPageId] at hp
  rw [maxSlotIndex] at hi
  rw [new, UInt32.toNat_ofNat_of_lt' (by
    rw [show UInt32.size = 4294967296 from rfl]
    omega)]

theorem pageId_new (hp : p ≤ maxPageId) (hi : i ≤ maxSlotIndex) : (new p i).pageId = p := by
  have := hi
  rw [maxSlotIndex] at this
  rw [pageId, toNat_new hp hi]
  omega

theorem slotIndex_new (hp : p ≤ maxPageId) (hi : i ≤ maxSlotIndex) : (new p i).slotIndex = i := by
  have := hi
  rw [maxSlotIndex] at this
  rw [slotIndex, toNat_new hp hi]
  omega

theorem pageId_le (s : SlotRef) : s.pageId ≤ maxPageId := by
  have := s.raw.toNat_lt
  rw [pageId, maxPageId]
  omega

theorem slotIndex_le (s : SlotRef) : s.slotIndex ≤ maxSlotIndex := by
  rw [slotIndex, maxSlotIndex]
  omega

theorem new_pageId_slotIndex (s : SlotRef) : new s.pageId s.slotIndex = s := by
  have hraw : (new s.pageId s.slotIndex).raw = s.raw := by
    apply UInt32.toNat_inj.mp
    rw [toNat_new s.pageId_le s.slotIndex_le, pageId, slotIndex]
    omega
  cases s
  exact congrArg SlotRef.mk hraw

end SlotRef

/-! ## Faces -/

/-- What a record is taken for: a node or an edge with its id, its label or
type and whether it is marked deleted, or something else. -/
inductive Face where
  | entity (kind : EntityKind) (id : UInt64) (group : UInt32) (deleted : Bool)
  | other
  deriving DecidableEq

def face (r : Bytes) : Face :=
  match NodeRecord.decode r with
  | some n =>
    if n.nodeId = 0 then .other
    else .entity .node n.nodeId n.labelId n.isDeleted
  | none =>
    match EdgeRecord.decode r with
    | some g =>
      if g.edgeId = 0 then .other
      else .entity .edge g.edgeId g.typeId g.isDeleted
    | none => .other

theorem face_of_length (h32 : r.length ≠ 32) (h64 : r.length ≠ 64) : face r = .other := by
  rw [face, NodeRecord.decode_eq_none h32, EdgeRecord.decode_eq_none h64]

/-- The same id, label and flags give the same face. -/
theorem face_node {n' : NodeRecord} (h : NodeRecord.decode r = some n)
    (hid : n'.nodeId = n.nodeId) (hlabel : n'.labelId = n.labelId)
    (hflags : n'.flags = n.flags) : face n'.encode = face r := by
  rw [face, face, NodeRecord.decode_encode, h]
  simp only [hid, hlabel, NodeRecord.isDeleted, hflags]

theorem face_edge {g' : EdgeRecord} (h : EdgeRecord.decode r = some g)
    (hid : g'.edgeId = g.edgeId) (htype : g'.typeId = g.typeId)
    (hflags : g'.flags = g.flags) : face g'.encode = face r := by
  have hnode : ∀ g : EdgeRecord, NodeRecord.decode g.encode = none :=
    fun g => NodeRecord.decode_eq_none (by rw [g.length_encode]; decide)
  have hr : NodeRecord.decode r = none :=
    NodeRecord.decode_eq_none (by
      rw [EdgeRecord.length_of_decode h]; decide)
  rw [face, face, hnode, hr, EdgeRecord.decode_encode, h]
  simp only [hid, htype, EdgeRecord.isDeleted, hflags]

theorem face_node_encode (h : n.nodeId ≠ 0) :
    face n.encode = .entity .node n.nodeId n.labelId n.isDeleted := by
  rw [face, NodeRecord.decode_encode]
  exact if_neg h

theorem face_edge_encode (h : g.edgeId ≠ 0) :
    face g.encode = .entity .edge g.edgeId g.typeId g.isDeleted := by
  rw [face, NodeRecord.decode_eq_none (by rw [g.length_encode]; decide),
    EdgeRecord.decode_encode]
  exact if_neg h

/-- A record with the face of a node is a node. -/
theorem decode_of_face_node {id : UInt64} {label : UInt32} {d : Bool}
    (h : face r = .entity .node id label d) :
    ∃ n, NodeRecord.decode r = some n ∧ n.nodeId = id ∧ n.labelId = label ∧
      n.isDeleted = d ∧ id ≠ 0 := by
  rw [face] at h
  split at h
  · next n hn =>
      split at h
      · cases h
      · next hid =>
          cases h
          exact ⟨n, hn, rfl, rfl, rfl, hid⟩
  · split at h
    · split at h <;> cases h
    · cases h

theorem decode_of_face_edge {id : UInt64} {type : UInt32} {d : Bool}
    (h : face r = .entity .edge id type d) :
    ∃ g, EdgeRecord.decode r = some g ∧ g.edgeId = id ∧ g.typeId = type ∧
      g.isDeleted = d ∧ id ≠ 0 := by
  rw [face] at h
  split at h
  · split at h <;> cases h
  · split at h
    · next g hg =>
        split at h
        · cases h
        · next hid =>
            cases h
            exact ⟨g, hg, rfl, rfl, rfl, hid⟩
    · cases h

/-- Marking deletes, whatever the other flags are. -/
theorem flags_deleted (flags : UInt16) : ((flags ||| deletedFlag) &&& deletedFlag != 0) = true := by
  have h : (flags ||| deletedFlag) &&& deletedFlag = deletedFlag := by
    apply UInt16.eq_of_toBitVec_eq
    rw [UInt16.toBitVec_and, UInt16.toBitVec_or]
    ext i hi
    rw [BitVec.getElem_and, BitVec.getElem_or]
    cases deletedFlag.toBitVec[i] <;> simp
  rw [h]
  decide

end RGraph.Graph
