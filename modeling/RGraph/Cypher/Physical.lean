import RGraph.Cypher.Store

/-!
# The `CREATE` operator (`cypher/physical.rs`)

The operator adds the nodes of a pattern from left to right and then the
relationships between them. It evaluates the properties in the row it is given
and binds the variables of the pattern to what it made.
-/

namespace RGraph.Cypher

open RGraph.Lib RGraph.Graph RGraph.GraphApi Call

inductive ExecError where
  | eval (message : String)
  deriving DecidableEq, Repr

abbrev ExecM (α : Type) := Call GraphStore ExecError α

structure ExecutionContext where
  builtins : Builtins
  parameters : Row

/-- A context in which nothing but variables, literals and properties has a
value. -/
def bareContext : ExecutionContext :=
  ⟨⟨fun _ => "", fun _ _ => .error ⟨""⟩, fun _ _ => none, fun _ _ => none,
    fun _ _ => false, fun _ _ => none, fun _ _ => none, fun _ => none⟩, ∅⟩

/-- `Display` of an error of the engine. -/
def storageErrorText : StorageError → String
  | .ioError => "I/O error"
  | .notFound => "entity not found"
  | .indexError => "index error"
  | .pageFull => "page full"
  | .slotOverflow => "slot reference overflow"
  | .alreadyExists => "entity already exists"
  | .invalidId => "id 0 is reserved and may not be used"
  | .txConflict => "transaction conflict — retry"
  | .txAborted => "transaction aborted"

/-- A call of the engine, its error turned into one of the query. -/
def storage {α : Type} (x : StoreM α) : ExecM α := fun g =>
  match x g with
  | .error fault => .error fault
  | .ok (.error e, g) => .ok (.error (.eval (storageErrorText e)), g)
  | .ok (.ok a, g) => .ok (.ok a, g)

/-- `evaluate` in the context of a row. -/
def eval (x : ExecutionContext) (row : Row) (e : Expression) : ExecM Value :=
  match evaluate x.builtins ⟨row, x.parameters⟩ e with
  | .ok v => pure v
  | .error err => fail (.eval err.text)

/-- The id in a value that stands for a node. -/
def entityId : Value → Option Nat
  | .node n => some n.id
  | .integer id => some id.toUInt64.toNat
  | _ => none

/-- The row with a variable bound, if there is one. -/
def bindVar (var : Option String) (v : Value) (row : Row) : Row :=
  match var with
  | some name => row.insert name v
  | none => row

/-! ## `CREATE` -/

/-- The patterns of a clause, which the planner puts together to one. -/
def createPattern (patterns : List NamedPattern) : Pattern :=
  ⟨patterns.flatMap (·.pattern.elements)⟩

def evalProperties (x : ExecutionContext) (row : Row) :
    List (String × Expression) → PropertyMap → ExecM PropertyMap
  | [], props => pure props
  | (k, e) :: rest, props => do
    let v ← eval x row e
    evalProperties x row rest (match valueToProperty v with
      | some p => props.insert k p
      | none => props)

/-- `catalog_label_id` for the first label of a node, `0` without one. -/
def labelIdFor (labels : List String) : ExecM Nat :=
  match labels.head? with
  | none => pure 0
  | some label => fun g =>
    let (id, catalog) := g.catalog.getOrCreateLabel label
    .ok (.ok id, { g with catalog := catalog })

def relTypeIdFor (types : List String) : ExecM Nat :=
  match types.head? with
  | none => pure 0
  | some t => fun g =>
    let (id, catalog) := g.catalog.getOrCreateRelType t
    .ok (.ok id, { g with catalog := catalog })

/-- The first pass of `execute_create`. The properties of all nodes are
evaluated in the row the operator was given. -/
def createNodes (x : ExecutionContext) (input : Row) :
    List PatternElement → Row → ExecM Row
  | [], row => pure row
  | .node n :: rest, row => do
    let labelId ← labelIdFor n.labels
    let props ← evalProperties x input n.properties ∅
    let id ← storage (GraphStore.createNode labelId props)
    let g ← Call.get
    createNodes x input rest (match loadNodeValue g id with
      | some v => bindVar n.var v row
      | none => row)
  | .relationship _ :: rest, row => createNodes x input rest row

/-- The id of the node a variable is bound to. -/
def boundId (row : Row) (var : Option String) : Option Nat := (var.bind (row[·]?)).bind entityId

/-- The body of the second pass, for two nodes and the relationship between
them. -/
def createBetween (x : ExecutionContext) (src : NodePattern)
    (rel : RelationshipPattern) (tgt : NodePattern) (row : Row) : ExecM Row :=
  match boundId row src.var, boundId row tgt.var with
  | some source, some target => do
    let typeId ← relTypeIdFor rel.types
    let props ← evalProperties x row rel.properties ∅
    let id ← storage
      (GraphStore.createRelationship typeId source target props)
    pure (bindVar rel.var (edgeRecordIdToValue id typeId source target) row)
  | _, _ => pure row

/-- The second pass of `execute_create`. -/
def createRelationships (x : ExecutionContext) :
    List PatternElement → Row → ExecM Row
  | .node src :: .relationship rel :: rest, row =>
    match rest with
    | .node tgt :: _ => do
      createRelationships x rest (← createBetween x src rel tgt row)
    | _ => createRelationships x rest row
  | _ :: rest, row => createRelationships x rest row
  | [], row => pure row

def executeCreate (x : ExecutionContext) (pattern : Pattern) (row : Row) :
    ExecM Row := do
  createRelationships x pattern.elements (← createNodes x row pattern.elements row)

end RGraph.Cypher
