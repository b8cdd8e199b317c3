import RGraph.Graph.Reopen
import RGraph.Index.Range
import RGraph.Lib.Run

/-!
# Sessions of the graph storage engine

What happens to an engine from the time it is opened: calls that change the
graph, with whatever goes wrong around them, frames that the flusher writes to
the file, and `sync`. A call that panics leaves the engine as it was.

The ledger is what a session is about: which nodes and edges were created,
with which label or type, and which of them were deleted since.

The engine's own model keeps an ordered map in the place of each of its four
trees. At the end are the trees of `index/btree.rs` themselves: new at `open`,
with the calls that were made on them since, and what is read from one.
-/

namespace RGraph.Graph

open RGraph.Lib RGraph.Storage RGraph.Wal RGraph.Index Call

/-- The calls that change the graph. -/
inductive GraphCall where
  | putNode (node : NodeRecord)
  | deleteNode (nodeId : UInt64)
  | putEdge (edge : EdgeRecord)
  | deleteEdge (edgeId : UInt64)
  | putProperty (prop : PropertyRecord)
  | attachPropertyToNode (nodeId : UInt64) (propSlot : SlotRef)
  | attachPropertyToEdge (edgeId : UInt64) (propSlot : SlotRef)
  | createNodeAtomic (node : NodeRecord) (properties : List PropertyRecord)
  | createEdgeAtomic (edge : EdgeRecord) (properties : List PropertyRecord)

namespace GraphCall

def run (f : Faults) : GraphCall → EngineM Unit
  | .putNode node => do
    let _ ← Graph.putNode f node
  | .deleteNode nodeId => Graph.deleteNode f nodeId
  | .putEdge edge => do
    let _ ← Graph.putEdge f edge
  | .deleteEdge edgeId => Graph.deleteEdge f edgeId
  | .putProperty prop => do
    let _ ← Graph.putProperty f prop
  | .attachPropertyToNode nodeId propSlot => Graph.attachPropertyToNode f nodeId propSlot
  | .attachPropertyToEdge edgeId propSlot => Graph.attachPropertyToEdge f edgeId propSlot
  | .createNodeAtomic node properties => do
    let _ ← Graph.createNodeAtomic f node properties
  | .createEdgeAtomic edge properties => do
    let _ ← Graph.createEdgeAtomic f edge properties

/-- The properties that the call is given. -/
def properties : GraphCall → List PropertyRecord
  | .putProperty prop => [prop]
  | .createNodeAtomic _ properties => properties
  | .createEdgeAtomic _ properties => properties
  | _ => []

/-- One of `put_node`, `delete_node`, `put_edge` and `delete_edge`. -/
def isPlain : GraphCall → Bool
  | .putNode _ | .deleteNode _ | .putEdge _ | .deleteEdge _ => true
  | _ => false

end GraphCall

inductive SessionEvent where
  | call (f : Faults) (c : GraphCall)
  | flush (pageId : Nat)
  | sync

namespace SessionEvent

def run : SessionEvent → EngineM Unit
  | .call f c => c.run f
  | .flush pageId => Call.modify (·.flush pageId)
  | .sync => Call.modify (·.sync)

/-- The properties that a call is given. -/
def properties : SessionEvent → List PropertyRecord
  | .call _ c => c.properties
  | _ => []

/-- The call returns `Ok`. -/
def returns (v : SessionEvent) (e : GraphStorageEngine) : Bool :=
  match v.run e with
  | .ok (.ok _, _) => true
  | _ => false

end SessionEvent

def sessionStep (e : GraphStorageEngine) (v : SessionEvent) : GraphStorageEngine :=
  match v.run e with
  | .ok (_, e) => e
  | .error _ => e

/-! ## What was created and deleted -/

/-- What has an id and is grouped, by its label or by its type. -/
inductive EntityKind where
  | node
  | edge
  deriving DecidableEq, Repr

/-- What a call that returned did to the graph. -/
inductive Action where
  | grow
  | enter (kind : EntityKind) (id : UInt64) (group : UInt32) (deleted : Bool)
  | remove (kind : EntityKind) (id : UInt64)

def SessionEvent.action : SessionEvent → Action
  | .call _ (.putNode node) | .call _ (.createNodeAtomic node _) =>
    .enter .node node.nodeId node.labelId node.isDeleted
  | .call _ (.putEdge edge) | .call _ (.createEdgeAtomic edge _) =>
    .enter .edge edge.edgeId edge.typeId edge.isDeleted
  | .call _ (.deleteNode nodeId) => .remove .node nodeId
  | .call _ (.deleteEdge edgeId) => .remove .edge edgeId
  | _ => .grow

/-- The label or type of every entity that was created, and whether it is
deleted. -/
abbrev Ledger := EntityKind → UInt64 → Option (UInt32 × Bool)

def Ledger.apply (l : Ledger) : Action → Ledger
  | .grow => l
  | .enter kind id group deleted =>
    Function.update l kind (Function.update (l kind) id (some (group, deleted)))
  | .remove kind id =>
    Function.update l kind (Function.update (l kind) id ((l kind id).map fun x => (x.1, true)))

def ledger (events : List SessionEvent) : Ledger :=
  run Ledger.apply (fun _ _ => none) (events.map SessionEvent.action)

/-! ## The trees -/

/-- The value of an entry: `slot_ref.raw.to_be_bytes()`. -/
def slotBytes (slot : SlotRef) : Bytes := natToBE 4 slot.raw.toNat

def decodeSlotRef (bytes : Bytes) : Option SlotRef :=
  if bytes.length < 4 then none
  else some ⟨UInt32.ofNat (beToNat (bytes.take 4))⟩

/-- The call on a tree of `index/btree.rs`. -/
def TreeOp.onTree (t : BPlusTree) : TreeOp → BPlusTree
  | .insert key slot => Call.after (insertLocked key (slotBytes slot)) t
  | .delete key => Call.after (Index.delete key) t

def treeStep (ts : EngineTree → BPlusTree) (c : EngineTree × TreeOp) : EngineTree → BPlusTree :=
  Function.update ts c.1 (c.2.onTree (ts c.1))

/-- The four trees after the calls. -/
def treesAfter (calls : List (EngineTree × TreeOp)) : EngineTree → BPlusTree :=
  run treeStep (fun _ => BPlusTree.new .default) calls

/-- What `lookup_node_slot` reads from the node index, and `get_node`,
`get_edge` and the deletions from theirs. A record that is cut short fails the
slicing. -/
def lookupSlot (t : BPlusTree) (key : Bytes) : Res (Except StorageError (Option SlotRef)) := do
  match ← t.search key with
  | none => .ok (.ok none)
  | some (pageId, slot) =>
    match t.pages pageId with
    | none => .ok (.error .indexError)
    | some page =>
      match ← page.key slot with
      | none => .ok (.error .indexError)
      | some kv =>
        let (_, value) ← Res.unwrap (decodeKv kv)
        match decodeSlotRef value with
        | none => .ok (.error .indexError)
        | some slotRef => .ok (.ok (some slotRef))

end RGraph.Graph
