import RGraph.Graph.Heap

/-!
# The graph storage engine (`graph/engine.rs`)

The operations of the `StorageEngine` trait, the two atomic creations and the
label and type scans. Every mutation runs in a transaction of its own.

`put_node` and the atomic creations build page images in memory, log them,
commit and write the pages last. `put_edge`, `put_property` and all changes in
place write their pages at once and log a record that names the entity.

The counters of generations are 16 bits wide and wrap around, as they do
without overflow checks.
-/

namespace RGraph.Graph

open RGraph.Lib RGraph.Storage RGraph.Wal RGraph.Index Call

/-! ## Adjacency lists -/

/-- The two lists an edge is in: the outgoing edges of its source and the
incoming edges of its target. -/
inductive Side where
  | source
  | target
  deriving DecidableEq, Repr

namespace Side

def head : Side → NodeRecord → SlotRef
  | .source, n => n.firstOutgoingEdge
  | .target, n => n.firstIncomingEdge

def setHead (slot : SlotRef) : Side → NodeRecord → NodeRecord
  | .source, n => { n with firstOutgoingEdge := slot }
  | .target, n => { n with firstIncomingEdge := slot }

def next : Side → EdgeRecord → SlotRef
  | .source, g => g.nextSourceEdge
  | .target, g => g.nextTargetEdge

def prev : Side → EdgeRecord → SlotRef
  | .source, g => g.prevSourceEdge
  | .target, g => g.prevTargetEdge

def setNext (slot : SlotRef) : Side → EdgeRecord → EdgeRecord
  | .source, g => { g with nextSourceEdge := slot }
  | .target, g => { g with nextTargetEdge := slot }

def setPrev (slot : SlotRef) : Side → EdgeRecord → EdgeRecord
  | .source, g => { g with prevSourceEdge := slot }
  | .target, g => { g with prevTargetEdge := slot }

end Side

def NodeRecord.touched (n : NodeRecord) : NodeRecord :=
  { n with generation := n.generation + 1 }

def EdgeRecord.touched (g : EdgeRecord) : EdgeRecord :=
  { g with generation := g.generation + 1 }

/-- How records are read and overwritten: at once, or in pages that are not
yet written. -/
structure RecordAccess (σ : Type) where
  read : SlotRef → Call σ StorageError (Option Bytes)
  overwrite : SlotRef → Bytes → Call σ StorageError Unit

namespace RecordAccess

variable {σ : Type} (a : RecordAccess σ)

def node (slot : SlotRef) : Call σ StorageError NodeRecord := do
  let bytes ← require .notFound (← a.read slot)
  require .notFound (NodeRecord.decode bytes)

def edge (slot : SlotRef) : Call σ StorageError EdgeRecord := do
  let bytes ← require .notFound (← a.read slot)
  require .notFound (EdgeRecord.decode bytes)

/-- Read an edge, change it and write it back. -/
def patchEdge (slot : SlotRef) (g : EdgeRecord → EdgeRecord) :
    Call σ StorageError Unit := do
  let edge ← a.edge slot
  a.overwrite slot (g edge).encode

/-- Link an edge at the head of a list of a node. -/
def wire (side : Side) (edgeSlot nodeSlot : SlotRef) :
    Call σ StorageError Unit := do
  let node ← a.node nodeSlot
  let oldHead := side.head node
  a.patchEdge edgeSlot fun g => side.setPrev .null (side.setNext oldHead g)
  when (!oldHead.isNull) (a.patchEdge oldHead (side.setPrev edgeSlot))
  a.overwrite nodeSlot (side.setHead edgeSlot node).touched.encode

/-- Unlink an edge; returns the new head if it was the head. -/
def unwire (side : Side) (edgeSlot nodeSlot : SlotRef) :
    Call σ StorageError (Option SlotRef) := do
  let edge ← a.edge edgeSlot
  let prev := side.prev edge
  let next := side.next edge
  when (!prev.isNull) (a.patchEdge prev (side.setNext next))
  when (!next.isNull) (a.patchEdge next (side.setPrev prev))
  a.patchEdge edgeSlot fun g => side.setNext .null (side.setPrev .null g)
  if prev.isNull then
    let node ← a.node nodeSlot
    a.overwrite nodeSlot (side.setHead next node).touched.encode
    pure (some next)
  else pure none

end RecordAccess

def direct (f : Faults) : RecordAccess GraphStorageEngine := ⟨readRecord f, overwriteRecord f⟩

def pending (f : Faults) : RecordAccess (GraphStorageEngine × Pending) :=
  ⟨readRecordPending f, overwriteIntoPending f⟩

def wireSourceAdjacency (f : Faults) := (direct f).wire .source

def wireTargetAdjacency (f : Faults) := (direct f).wire .target

def wireSourceAdjacencyPending (f : Faults) := (pending f).wire .source

def wireTargetAdjacencyPending (f : Faults) := (pending f).wire .target

def unwireSourceAdjacency (f : Faults) := (direct f).unwire .source

def unwireTargetAdjacency (f : Faults) := (direct f).unwire .target

/-! ## Nodes -/

def stampPage (page : SlottedPage) (lsn : Nat) : SlottedPage :=
  { page with header := { page.header with pageLsn := lsn } }

def labelKey (labelId : UInt32) (nodeId : UInt64) : Bytes :=
  labelIndexKey labelId.toNat nodeId.toNat

def typeKey (typeId : UInt32) (edgeId : UInt64) : Bytes := typeIndexKey typeId.toNat edgeId.toNat

/-- The part of `put_node` that is rolled back if it fails. -/
def putNodeBody (f : Faults) (txid : Nat) (node : NodeRecord) :
    EngineM (SlotRef × Nat × SlottedPage × Nat) := do
  acquireLock f txid (nodeResourceId node.nodeId)
  let (slot, pageId, image) ← prepareRecord f .node node.encode
  insertKey f .node (nodeIdKey node.nodeId.toNat) slot
  insertKey f .label (labelKey node.labelId node.nodeId) slot
  let lsn ← append f txid .pageInsert (some (pageId, image))
  pure (slot, pageId, image, lsn)

def putNode (f : Faults) (node : NodeRecord) : EngineM SlotRef := do
  if node.nodeId = 0 then fail .invalidId
  else
    let key := nodeIdKey node.nodeId.toNat
    let e ← Call.get
    if (e.tree .node)[key]?.isSome then fail .alreadyExists
    else
      let txid ← begin
      let (slot, pageId, image, lsn) ← orRollback f txid (putNodeBody f txid node)
      commit f txid
      writePage f pageId (stampPage image lsn)
      pure slot

def getNode (f : Faults) (nodeId : UInt64) : EngineM (Option NodeRecord) := do
  let e ← Call.get
  match (e.tree .node)[nodeIdKey nodeId.toNat]? with
  | none => pure none
  | some slot =>
    match ← readRecord f slot with
    | some bytes => pure (NodeRecord.decode bytes)
    | none => pure none

def deleteNodeBody (f : Faults) (txid : Nat) (nodeId : UInt64) (slot : SlotRef)
    (node : NodeRecord) : EngineM Nat := do
  let node := { node with flags := node.flags ||| deletedFlag }.touched
  overwriteRecord f slot node.encode
  deleteKey f .label (labelKey node.labelId nodeId)
  append f txid .nodeDelete none

/-- The entry of the primary index stays. -/
def deleteNode (f : Faults) (nodeId : UInt64) : EngineM Unit := do
  let e ← Call.get
  let slot ← require .notFound (e.tree .node)[nodeIdKey nodeId.toNat]?
  let txid ← begin
  orRollback f txid (acquireLock f txid (nodeResourceId nodeId))
  let node ← (direct f).node slot
  let _ ← orRollback f txid (deleteNodeBody f txid nodeId slot node)
  commit f txid

/-! ## Edges -/

def putEdgeBody (f : Faults) (txid : Nat) (edge : EdgeRecord) :
    EngineM SlotRef := do
  acquireLock f txid (edgeResourceId edge.edgeId)
  let slot ← insertRecord f .edge edge.encode
  insertKey f .edge (edgeIdKey edge.edgeId.toNat) slot
  insertKey f .type (typeKey edge.typeId edge.edgeId) slot
  when (!edge.sourceNode.isNull) (wireSourceAdjacency f slot edge.sourceNode)
  when (!edge.targetNode.isNull) (wireTargetAdjacency f slot edge.targetNode)
  let _ ← require .notFound (← readRecord f slot)
  let _ ← append f txid .edgeInsert none
  pure slot

def putEdge (f : Faults) (edge : EdgeRecord) : EngineM SlotRef := do
  if edge.edgeId = 0 then fail .invalidId
  else
    let key := edgeIdKey edge.edgeId.toNat
    let e ← Call.get
    if (e.tree .edge)[key]?.isSome then fail .alreadyExists
    else
      let txid ← begin
      let slot ← orRollback f txid (putEdgeBody f txid edge)
      commit f txid
      pure slot

def getEdge (f : Faults) (edgeId : UInt64) : EngineM (Option EdgeRecord) := do
  let e ← Call.get
  match (e.tree .edge)[edgeIdKey edgeId.toNat]? with
  | none => pure none
  | some slot =>
    match ← readRecord f slot with
    | some bytes => pure (EdgeRecord.decode bytes)
    | none => pure none

def unwireBody (f : Faults) (slot : SlotRef) (edge : EdgeRecord) :
    EngineM Unit := do
  when (!edge.sourceNode.isNull) (do
    let _ ← unwireSourceAdjacency f slot edge.sourceNode)
  when (!edge.targetNode.isNull) (do
    let _ ← unwireTargetAdjacency f slot edge.targetNode)

def deleteEdgeBody (f : Faults) (txid : Nat) (edgeId : UInt64) (slot : SlotRef)
    (edge : EdgeRecord) : EngineM Nat := do
  let edge := { edge with flags := edge.flags ||| deletedFlag }.touched
  overwriteRecord f slot edge.encode
  deleteKey f .type (typeKey edge.typeId edgeId)
  append f txid .edgeDelete none

def deleteEdge (f : Faults) (edgeId : UInt64) : EngineM Unit := do
  let e ← Call.get
  let slot ← require .notFound (e.tree .edge)[edgeIdKey edgeId.toNat]?
  let txid ← begin
  orRollback f txid (acquireLock f txid (edgeResourceId edgeId))
  let edge ← (direct f).edge slot
  orRollback f txid (unwireBody f slot edge)
  -- read again, after the pointers were patched
  let edge ← (direct f).edge slot
  let _ ← orRollback f txid (deleteEdgeBody f txid edgeId slot edge)
  commit f txid

/-! ## Properties -/

/-- The records of these three calls carry the id of no transaction of their
own. -/
def sharedTxid : Nat := 1

def putProperty (f : Faults) (prop : PropertyRecord) : EngineM SlotRef := do
  let slot ← insertRecord f .property prop.encode
  let _ ← append f sharedTxid .propertyInsert none
  pure slot

def attachPropertyToNode (f : Faults) (nodeId : UInt64) (propSlot : SlotRef) :
    EngineM Unit := do
  let e ← Call.get
  let slot ← require .notFound (e.tree .node)[nodeIdKey nodeId.toNat]?
  let node ← (direct f).node slot
  overwriteRecord f slot { node with firstProperty := propSlot }.touched.encode
  let _ ← append f sharedTxid .nodeInsert none

def attachPropertyToEdge (f : Faults) (edgeId : UInt64) (propSlot : SlotRef) :
    EngineM Unit := do
  let e ← Call.get
  let slot ← require .notFound (e.tree .edge)[edgeIdKey edgeId.toNat]?
  let edge ← (direct f).edge slot
  overwriteRecord f slot { edge with firstProperty := propSlot }.touched.encode
  let _ ← append f sharedTxid .edgeInsert none

/-! ## Atomic creation -/

/-- Properties given last one first; each is linked to the one before. -/
def prepareChain (f : Faults) : List PropertyRecord → SlotRef →
    PendingM SlotRef
  | [], next => pure next
  | prop :: props, next => do
    let slot ← prepareIntoPending f .property
      { prop with nextProperty := next }.encode
    prepareChain f props slot

/-- Log the images in the order of the page ids. -/
def logPages (f : Faults) (txid : Nat) : List (Nat × SlottedPage) →
    EngineM (List (Nat × SlottedPage))
  | [] => pure []
  | (pageId, image) :: rest => do
    let lsn ← append f txid .pageInsert (some (pageId, image))
    let rest ← logPages f txid rest
    pure ((pageId, stampPage image lsn) :: rest)

def writePages (f : Faults) : List (Nat × SlottedPage) → EngineM Unit
  | [] => pure ()
  | (pageId, image) :: rest => do
    writePage f pageId image
    writePages f rest

def atomicBody (f : Faults) (txid : Nat) (resource : UInt64)
    (build : PendingM SlotRef) :
    EngineM (SlotRef × List (Nat × SlottedPage)) := do
  acquireLock f txid resource
  let (slot, images) ← withPending build
  let images ← logPages f txid images.toList
  pure (slot, images)

/-- The part that `create_node_atomic` and `create_edge_atomic` share: build
the images, log them, commit, write the pages. -/
def writeAtomic (f : Faults) (resource : UInt64) (build : PendingM SlotRef) :
    EngineM SlotRef := do
  let txid ← begin
  let (slot, images) ← orRollback f txid (atomicBody f txid resource build)
  commit f txid
  writePages f images
  pure slot

def nodeBuild (f : Faults) (node : NodeRecord)
    (properties : List PropertyRecord) : PendingM SlotRef := do
  let first ← prepareChain f properties.reverse .null
  prepareIntoPending f .node { node with firstProperty := first }.encode

def createNodeAtomic (f : Faults) (node : NodeRecord)
    (properties : List PropertyRecord) : EngineM SlotRef := do
  if node.nodeId = 0 then fail .invalidId
  else
    let key := nodeIdKey node.nodeId.toNat
    let e ← Call.get
    if (e.tree .node)[key]?.isSome then fail .alreadyExists
    else
      let slot ← writeAtomic f (nodeResourceId node.nodeId) (nodeBuild f node properties)
      insertKey f .node key slot
      insertKey f .label (labelKey node.labelId node.nodeId) slot
      pure slot

def edgeBuild (f : Faults) (edge : EdgeRecord)
    (properties : List PropertyRecord) : PendingM SlotRef := do
  let first ← prepareChain f properties.reverse .null
  let slot ← prepareIntoPending f .edge
    { edge with firstProperty := first }.encode
  when (!edge.sourceNode.isNull) (wireSourceAdjacencyPending f slot edge.sourceNode)
  when (!edge.targetNode.isNull) (wireTargetAdjacencyPending f slot edge.targetNode)
  pure slot

def createEdgeAtomic (f : Faults) (edge : EdgeRecord)
    (properties : List PropertyRecord) : EngineM SlotRef := do
  if edge.edgeId = 0 then fail .invalidId
  else
    let key := edgeIdKey edge.edgeId.toNat
    let e ← Call.get
    if (e.tree .edge)[key]?.isSome then fail .alreadyExists
    else
      let slot ← writeAtomic f (edgeResourceId edge.edgeId) (edgeBuild f edge properties)
      insertKey f .edge key slot
      insertKey f .type (typeKey edge.typeId edge.edgeId) slot
      pure slot

/-! ## Scans -/

/-- The largest id there is a key for. -/
def maxId : Nat := 2 ^ 128 - 1

/-- `range_search` on a tree: from `start` up to, but not including, `stop`. -/
def rangeSearch (m : Std.ExtTreeMap Bytes SlotRef) (start stop : Bytes) : List (Bytes × SlotRef) :=
  m.toList.filter fun e => (compare start e.1).isLE && (compare e.1 stop).isLT

/-- Read the records at some slots, and keep what `live` makes of them. -/
def readLive {α : Type} (f : Faults) (live : Bytes → Option α) :
    List (Bytes × SlotRef) → EngineM (List α)
  | [] => pure []
  | (_, slot) :: rest => do
    let record ← readRecord f slot
    let found ← readLive f live rest
    pure ((record.bind live).toList ++ found)

def liveNode (bytes : Bytes) : Option NodeRecord := (NodeRecord.decode bytes).filter (!·.isDeleted)

def liveEdge (bytes : Bytes) : Option EdgeRecord := (EdgeRecord.decode bytes).filter (!·.isDeleted)

def scanNodesByLabel (f : Faults) (labelId : Nat) :
    EngineM (List NodeRecord) := do
  let e ← Call.get
  readLive f liveNode (rangeSearch (e.tree .label) (labelIndexKey labelId 0)
    (labelIndexKey labelId maxId))

def scanEdgesByType (f : Faults) (typeId : Nat) :
    EngineM (List EdgeRecord) := do
  let e ← Call.get
  readLive f liveEdge (rangeSearch (e.tree .type) (typeIndexKey typeId 0)
    (typeIndexKey typeId maxId))

end RGraph.Graph
