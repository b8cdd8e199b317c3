import RGraph.Cypher.Value

/-!
# The graph a query runs on (`graph/engine.rs`, `graph/graph.rs`)

The calls of the engine that the operators make, on the level of records. The
node and the edge index lead from an id to its record, so a slot is the id of
what is in it here. Records are never removed; a deleted entity keeps its
record with the flag set. The pointers of the adjacency lists are fields of
the records and stand beside them here, and a chain of properties is the list
of its records. I/O errors are left out.

Ids are natural numbers: the counter they come from does not wrap around in
fewer than 2^64 calls.
-/

namespace RGraph.Cypher

open RGraph.Lib RGraph.Graph RGraph.GraphApi Call

/-- The two pointers of an edge in a list. -/
structure Link where
  next : Option Nat
  prev : Option Nat
  deriving DecidableEq, Repr

abbrev Links := Nat → Link

/-- Put `k` in front of the list at `head`; `k` is the new head. -/
def linkHead (m : Links) (head : Option Nat) (k : Nat) : Links :=
  let m := Function.update m k ⟨head, none⟩
  match head with
  | none => m
  | some h => Function.update m h { m h with prev := some k }

structure StoredNode where
  labelId : Nat
  deleted : Bool
  properties : List PropertyRecord

structure StoredEdge where
  typeId : Nat
  sourceId : Nat
  targetId : Nat
  deleted : Bool
  properties : List PropertyRecord

structure GraphStore where
  nodes : Std.ExtTreeMap Nat StoredNode
  edges : Std.ExtTreeMap Nat StoredEdge
  /-- `first_outgoing_edge` and `first_incoming_edge` of a node. -/
  heads : Side → Nat → Option Nat
  /-- The pointers of an edge in the list of its source and its target. -/
  links : Side → Links
  catalog : Catalog
  nextId : Nat

abbrev StoreM (α : Type) := Call GraphStore StorageError α

namespace GraphStore

def init : GraphStore := ⟨∅, ∅, fun _ _ => none, fun _ _ => ⟨none, none⟩, .new, 1⟩

/-! ## Adjacency lists -/

/-- `wire_source_adjacency` and `wire_target_adjacency`. -/
def wire (side : Side) (edge node : Nat) (g : GraphStore) : GraphStore :=
  { g with
    links := Function.update g.links side (linkHead (g.links side) (g.heads side node) edge)
    heads := Function.update g.heads side (Function.update (g.heads side) node (some edge)) }

/-! ## Nodes and relationships -/

def createNode (labelId : Nat) (properties : PropertyMap) : StoreM Nat := do
  let g ← Call.get
  let props ← lift (buildPropertyRecords properties)
  modify fun g =>
    { g with
      nodes := g.nodes.insert g.nextId ⟨labelId, false, props⟩
      nextId := g.nextId + 1 }
  pure g.nextId

/-- The ends are looked up in the node index, where deleted nodes stay. -/
def createRelationship (typeId source target : Nat)
    (properties : PropertyMap) : StoreM Nat := do
  if typeId = 0 then fail .ioError
  else
    let g ← Call.get
    modify fun g => { g with nextId := g.nextId + 1 }
    let _ ← require .notFound g.nodes[source]?
    let _ ← require .notFound g.nodes[target]?
    let props ← lift (buildPropertyRecords properties)
    modify fun g₁ =>
      ({ g₁ with
        edges := g₁.edges.insert g.nextId
          ⟨typeId, source, target, false, props⟩ }.wire .source g.nextId
          source).wire .target g.nextId target
    pure g.nextId

/-! ## Properties -/

/-- One round of `read_property_chain_engine`. -/
def readProperty (map : PropertyMap) (prop : PropertyRecord) : PropertyMap :=
  match ValueType.fromByte prop.header.valueType,
    nameFromUtf8 prop.propertyName with
  | some vtype, some name => map.insert name (decodePropertyValue vtype prop.payload)
  | _, _ => map

def readPropertyChain (chain : List PropertyRecord) : PropertyMap :=
  (chain.take maxChainDepth).foldl readProperty ∅

end GraphStore

/-! ## Entities as values -/

/-- The runtime form of a property map. -/
def propertyValues (map : PropertyMap) : List (String × Value) :=
  map.toList.map fun x => (x.1, .fromProperty x.2)

def nodeValue (g : GraphStore) (id : Nat) (r : StoredNode) : NodeValue :=
  ⟨id, ((g.catalog.labelName r.labelId).map fun name => [name]).getD [],
    propertyValues (GraphStore.readPropertyChain r.properties)⟩

/-- `load_node_value` -/
def loadNodeValue (g : GraphStore) (id : Nat) : Option Value :=
  match g.nodes[id]? with
  | some r => if r.deleted then none else some (.node (nodeValue g id r))
  | none => none

/-- `edge_record_id_to_value` -/
def edgeRecordIdToValue (id typeId source target : Nat) : Value :=
  .relationship ⟨id, s!"TYPE_{typeId}", source, target, []⟩

end RGraph.Cypher
