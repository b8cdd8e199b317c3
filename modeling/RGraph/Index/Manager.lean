import Std.Data.ExtTreeMap
import Mathlib.Logic.Function.Basic
import RGraph.Index.BTree
import RGraph.Index.Key

/-!
# The index manager (`index/manager.rs`)

The manager owns the node, edge, label, type, property and adjacency index and
an RDF store of three trees, nine trees in all. Each tree is taken as an
ordered map here; the tree itself is `index/btree.rs`.

`apply_batch` is here as it is when every call of it succeeds. A batch that
fails is rolled back, and taken to leave the indexes as they were.
-/

namespace RGraph.Index

open RGraph.Lib RGraph.Graph

/-! ## The trees -/

inductive TreeId where
  | node
  | edge
  | label
  | type
  | property
  | adjacency
  | spo
  | pos
  | osp
  deriving DecidableEq, Repr

/-- An entry of the RDF store also has the graph, if there is one. -/
def TreeId.Value : TreeId → Type
  | .spo | .pos | .osp => SlotRef × Option Nat
  | _ => SlotRef

abbrev Tree (i : TreeId) := Std.ExtTreeMap Bytes i.Value

/-- The fields of the source, under the names `TreeId` gives them. -/
structure IndexManager where
  tree : (i : TreeId) → Tree i

def IndexManager.new : IndexManager := ⟨fun _ => ∅⟩

/-! ### Lookups and scans -/

namespace IndexManager

/-- `search`, with the value at the place found. -/
def search (s : IndexManager) (i : TreeId) (key : Bytes) : Option i.Value := (s.tree i)[key]?

/-- The entries whose key starts with `start`, in the order of the keys: what
the scans of the indexes collect along the leaf chain. -/
def scan (s : IndexManager) (i : TreeId) (start : Bytes) : List (Bytes × i.Value) :=
  (s.tree i).toList.filter fun e => start.isPrefixOf e.1

/-- `range_search`: from `start` up to, but not including, `stop`. -/
def rangeSearch (s : IndexManager) (i : TreeId) (start stop : Bytes) : List (Bytes × i.Value) :=
  (s.tree i).toList.filter fun e => (compare start e.1).isLE && (compare e.1 stop).isLT

/-- Every index answers every lookup and scan alike. -/
structure SameAnswers (s s' : IndexManager) : Prop where
  search : ∀ i key, s'.search i key = s.search i key
  scan : ∀ i start, s'.scan i start = s.scan i start
  rangeSearch : ∀ i start stop, s'.rangeSearch i start stop = s.rangeSearch i start stop

end IndexManager

/-! ### Calls -/

/-- `insert` of a value or, without one, `delete`. -/
structure TreeCall where
  tree : TreeId
  key : Bytes
  value : Option tree.Value

def TreeCall.effect (c : TreeCall) (s : IndexManager) : IndexManager :=
  ⟨Function.update s.tree c.tree (match c.value with
    | some v => (s.tree c.tree).insert c.key v
    | none => (s.tree c.tree).erase c.key)⟩

/-! ## Mutations -/

inductive IndexMutation where
  | insertNode (nodeId : Nat) (slot : SlotRef)
  | deleteNode (nodeId : Nat)
  | insertEdge (edgeId : Nat) (slot : SlotRef)
  | deleteEdge (edgeId : Nat)
  | insertLabel (labelId nodeId : Nat) (slot : SlotRef)
  | deleteLabel (labelId nodeId : Nat)
  | insertType (typeId edgeId : Nat) (slot : SlotRef)
  | deleteType (typeId edgeId : Nat)
  | insertProperty (propertyId : Nat) (valueType : ValueType)
      (payload : Bytes) (entityId : Nat) (slot : SlotRef)
  | deleteProperty (propertyId : Nat) (valueType : ValueType)
      (payload : Bytes) (entityId : Nat)
  | insertAdjacency (sourceId typeId targetId : Nat) (slot : SlotRef)
  | deleteAdjacency (sourceId typeId targetId : Nat)
  | insertRdf (triple : RdfTriple) (slot : SlotRef) (graph : Option Nat)
  | deleteRdf (triple : RdfTriple)
  deriving DecidableEq, Repr

/-- The key of `PropertyIndex`; a value that cannot be encoded counts as
NULL. -/
def propertyKey (propertyId : Nat) (valueType : ValueType) (payload : Bytes)
    (entityId : Nat) : Bytes :=
  propertyIndexKey propertyId ((encodePropertyValue valueType payload).getD [0x00]) entityId

/-- The three calls of `RdfStore::insert` and `RdfStore::delete`. -/
def rdfCalls (t : RdfTriple) (value : Option (SlotRef × Option Nat)) : List TreeCall :=
  let (s, p, o) := (t.subject.toNat, t.predicate.toNat, t.object.toNat)
  [⟨.spo, rdfSpoKey s p o, value⟩, ⟨.pos, rdfPosKey p o s, value⟩, ⟨.osp, rdfOspKey o s p, value⟩]

namespace IndexMutation

/-- The calls that `apply_one` makes for a mutation. -/
def calls : IndexMutation → List TreeCall
  | .insertNode n slot => [⟨.node, nodeIdKey n, some slot⟩]
  | .deleteNode n => [⟨.node, nodeIdKey n, none⟩]
  | .insertEdge e slot => [⟨.edge, edgeIdKey e, some slot⟩]
  | .deleteEdge e => [⟨.edge, edgeIdKey e, none⟩]
  | .insertLabel l n slot => [⟨.label, labelIndexKey l n, some slot⟩]
  | .deleteLabel l n => [⟨.label, labelIndexKey l n, none⟩]
  | .insertType t e slot => [⟨.type, typeIndexKey t e, some slot⟩]
  | .deleteType t e => [⟨.type, typeIndexKey t e, none⟩]
  | .insertProperty p vt payload e slot => [⟨.property, propertyKey p vt payload e, some slot⟩]
  | .deleteProperty p vt payload e => [⟨.property, propertyKey p vt payload e, none⟩]
  | .insertAdjacency s t d slot => [⟨.adjacency, edgeAdjacencyKey s t d, some slot⟩]
  | .deleteAdjacency s t d => [⟨.adjacency, edgeAdjacencyKey s t d, none⟩]
  | .insertRdf t slot graph => rdfCalls t (some (slot, graph))
  | .deleteRdf t => rdfCalls t none

end IndexMutation

/-! ## Batches -/

def applyOne (s : IndexManager) (m : IndexMutation) : IndexManager :=
  m.calls.foldl (fun s c => c.effect s) s

def applyBatch (mutations : List IndexMutation) (s : IndexManager) : IndexManager :=
  mutations.foldl applyOne s

end RGraph.Index
