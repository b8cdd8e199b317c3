import RGraph.Cypher.Physical

/-!
# Reading operators (`cypher/physical.rs`)

A query pulls rows from a tree of operators. An operator has cursors, buffers
and counters, and `reset` puts them back for another run. What an operator asks
the engine is an input here: as long as the graph stays as it is, the answers
are functions of the questions.

The properties of a node are in a hash map, which is built anew whenever the
node is loaded and has an iteration order of its own each time. `keys` shows
that order, so what an expression evaluates to is a function of the orders as
well. Every evaluation of a pull has a seed of its own to find them by.

Operators that differ in what they compute only are one constructor. A loop
gets rounds; a call that uses them up does not end.
-/

namespace RGraph.Cypher

open RGraph.Lib RGraph.Graph Call

/-- A row that may be left out, or an error. -/
abbrev Answer := Except ExecError (Option Row)

/-- Where in a run of a query an evaluation is: the pull, and the calls inside
it. -/
abbrev Seed := List Nat

inductive Operator where
  | once (answer : Answer) (emitted : Bool)
  | scan (ids : Except ExecError (List Nat)) (load : Nat → Answer)
      (cursor : List Nat) (idx : Nat)
  | pending (refill : Seed → Row → Except ExecError (Option (List Answer)))
      (input : Operator) (items : List Answer) (idx : Nat)
  | each (f : Seed → Row → Answer) (input : Operator)
  | buffered (fill : Seed → List Row → Except ExecError (List Row))
      (input : Operator) (buffer : Option (List Row)) (idx : Nat)
  | skip (count : Seed → Except ExecError (Option Nat)) (input : Operator)
      (skipCount : Option Nat) (skipped : Nat)
  | limit (count : Seed → Except ExecError (Option Nat)) (input : Operator)
      (limitCount : Option Nat) (emitted : Nat)
  | apply (outer inner : Operator) (currentOuter : Option Row)

namespace Operator

def reset : Operator → Operator
  | once answer _ => once answer false
  | scan ids load _ _ => scan ids load [] 0
  | pending refill input _ _ => pending refill input.reset [] 0
  | each f input => each f input.reset
  | buffered fill input _ _ => buffered fill input.reset none 0
  | skip count input _ _ => skip count input.reset none 0
  | limit count input _ _ => limit count input.reset none 0
  | apply outer inner _ => apply outer.reset inner.reset none

end Operator

/-! ## Pulling -/

abbrev Pull := Call Operator ExecError (Option Row)

/-- A call of a method of the input, which is put back. -/
def pullFrom {α : Type} (next : Call Operator ExecError α) (input : Operator)
    (put : Operator → Operator) : Call Operator ExecError (α × Operator) :=
  fun _ =>
    match next input with
    | .error fault => .error fault
    | .ok (.error e, input) => .ok (.error e, put input)
    | .ok (.ok a, input) => .ok (.ok (a, input), put input)

/-- `while let Some(row) = self.input.next_row(ctx)?` -/
def gather (next : Nat → Pull) : Nat → List Row → Call Operator ExecError (List Row)
  | 0, _ => lift (.error .diverge)
  | n + 1, rows => do
    match ← next n with
    | some row => gather next n (rows ++ [row])
    | none => pure rows

/-- The loop of the scans, over the ids from `idx` on. -/
def scanNext (load : Nat → Answer) (put : Nat → Operator) :
    List Nat → Nat → Pull
  | [], idx => do
    modify fun _ => put idx
    pure none
  | id :: ids, idx => do
    modify fun _ => put (idx + 1)
    match ← ofResult (.ok (load id)) with
    | some row => pure (some row)
    | none => scanNext load put ids (idx + 1)

def yieldFrom (put : Nat → Operator) (rows : List Row) (idx : Nat) : Pull := do
  modify fun _ => put (if idx < rows.length then idx + 1 else idx)
  pure rows[idx]?

/-- The count of `SKIP` and of `LIMIT` is evaluated while it is not known. -/
def knownCount (count : Except ExecError (Option Nat)) :
    Option Nat → Call Operator ExecError (Option Nat)
  | some n => pure (some n)
  | none => ofResult (.ok count)

def nextRow : Nat → Seed → Pull
  | 0, _ => lift (.error .diverge)
  | fuel + 1, seed => fun self =>
    -- the input's row, and the next round of the loop
    let pull := nextRow fuel (0 :: seed)
    let next := nextRow fuel (1 :: seed)
    let step : Pull := match self with
    | .once answer emitted => do
      modify fun _ => .once answer true
      if emitted then pure none else ofResult (.ok answer)
    | .scan ids load cursor idx => do
      let cursor ← ofResult
        (.ok (if cursor.isEmpty then ids else .ok cursor))
      scanNext load (.scan ids load cursor) (cursor.drop idx) idx
    | .pending refill input items idx =>
      match items[idx]? with
      | some item => do
        modify fun _ => .pending refill input items (idx + 1)
        match ← ofResult (.ok item) with
        | some row => pure (some row)
        | none => next
      | none => do
        match ← pullFrom pull input (.pending refill · items idx) with
        | (none, _) => pure none
        | (some row, input) =>
          match ← ofResult (.ok (refill seed row)) with
          | some items =>
            modify fun _ => .pending refill input items 0
            next
          | none => next
    | .each f input => do
      match ← pullFrom pull input (.each f) with
      | (none, _) => pure none
      | (some row, _) =>
        match ← ofResult (.ok (f seed row)) with
        | some out => pure (some out)
        | none => next
    | .buffered fill input (some rows) idx => yieldFrom (.buffered fill input (some rows)) rows idx
    | .buffered fill input none idx => do
      let (rows, input) ← pullFrom (gather (fun i => nextRow fuel (i :: seed)) fuel []) input
        (.buffered fill · none idx)
      let out ← ofResult (.ok (fill seed rows))
      yieldFrom (.buffered fill input (some out)) out idx
    | .skip count input skipCount skipped => do
      let skipCount ← knownCount (count seed) skipCount
      let (row, input) ← pullFrom pull input
        (.skip count · skipCount skipped)
      if skipped < skipCount.getD 0 && row.isSome then
        modify fun _ => .skip count input skipCount (skipped + 1)
        next
      else pure row
    | .limit count input limitCount emitted => do
      let limitCount ← knownCount (count seed) limitCount
      modify fun _ => .limit count input limitCount emitted
      if limitCount.getD 0 ≤ emitted then pure none
      else
        let (row, input) ← pullFrom pull input
          (.limit count · limitCount emitted)
        modify fun _ => .limit count input limitCount
          (if row.isSome then emitted + 1 else emitted)
        pure row
    | .apply outer inner none => do
      match ← pullFrom pull outer (.apply · inner none) with
      | (none, _) => pure none
      | (some row, outer) =>
        modify fun _ => .apply outer inner.reset (some row)
        next
    | .apply outer inner (some current) => do
      match ← pullFrom pull inner (.apply outer · (some current)) with
      | (some row, _) => pure (some (current.insertMany row.toList))
      | (none, inner) =>
        modify fun _ => .apply outer inner none
        next
    step self

/-- The rows up to the end. -/
def pullAll (fuel : Nat) (seed : Seed) : Call Operator ExecError (List Row) :=
  gather (fun i => nextRow fuel (i :: seed)) fuel []

/-! ## The operators -/

/-- The fields of `ExpandOp` and `VarLenExpandOp` that never change. -/
structure ExpandSpec where
  direction : Direction
  relTypes : List String
  fromVariable : String
  relVariable : Option String
  endNodeVariable : Option String
  minHops : Nat
  maxHops : Option Nat

structure ReadContext extends ExecutionContext where
  /-- The ids of the node index, by `range_search`. -/
  nodeIds : List Nat
  /-- The live nodes of `scan_nodes_by_label`. -/
  nodesByLabel : String → Except ExecError (List Nat)
  /-- `load_node_value` -/
  loadNode : Nat → Except ExecError (Option Value)
  /-- The adjacency scans of `ExpandOp`. -/
  edgesFrom : ExpandSpec → Nat → Except ExecError (List (EdgeRecord × Nat))
  bfs : ExpandSpec → Nat → Except ExecError (List (Nat × List EdgeRecord))
  /-- `edge_record_to_value` -/
  edgeValue : EdgeRecord → Value
  /-- The order in which a hash map with these keys is iterated. -/
  order : Seed → List String → List String
  /-- `evaluate` on the forms that are not spelled out, `keys` inside. -/
  evaluateOther : Seed → Expression → EvalContext → Except EvalError Value
  /-- The stable sorts of `SortOp`. -/
  sortRows : Seed → List OrderItem → List Row → List Row
  /-- The groups of `AggregateOp` with their aggregates: alias, call and
  `DISTINCT`. -/
  groupRows : Seed → List Expression → List (String × Expression × Bool) →
    List Row → Except ExecError (List Row)

section Operators

variable (x : ReadContext)

/-- `keys`, where `order` is that of the map. -/
def evalKeys (order : List String → List String) : Value → Except EvalError Value
  | .null => .ok .null
  | .map entries => .ok (.list ((order (entries.map Prod.fst)).map .string))
  | .node n => .ok (.list ((order (n.properties.map Prod.fst)).map .string))
  | .relationship r => .ok (.list ((order (r.properties.map Prod.fst)).map .string))
  | v =>
    let kind := v.typeName
    .error ⟨s!"keys() requires a map or node/rel, got {kind}"⟩

def evaluateCall (seed : Seed) : Expression → EvalContext → Except EvalError Value
  | e@(.functionCall name [arg] _), ctx =>
    if name.toUpper = "KEYS" then do
      evalKeys (x.order seed)
        (← evaluate { x.builtins with evaluateOther := x.evaluateOther seed } ctx arg)
    else x.evaluateOther seed e ctx
  | e, ctx => x.evaluateOther seed e ctx

def evalRow (seed : Seed) (row : Row) (e : Expression) : Except ExecError Value :=
  (evaluate { x.builtins with evaluateOther := evaluateCall x seed } ⟨row, x.parameters⟩
    e).mapError (.eval ·.text)

def nodeRow (var : String) (id : Nat) : Answer :=
  (x.loadNode id).map (·.map fun v => (∅ : Row).insert var v)

def allNodesScan (var : String) : Operator := .scan (.ok x.nodeIds) (nodeRow x var) [] 0

def unwind (e : Expression) (var : String) (input : Operator) : Operator :=
  .pending (fun seed row => (evalRow x seed row e).map fun v =>
    let emit := fun v => .ok (some (row.insert var v))
    match v with
    | .list items => some (items.map emit)
    | .null => some []
    | v => some [emit v]) input [] 0

def filter (predicate : Expression) (input : Operator) : Operator :=
  .each (fun seed row => do
    match ← evalRow x seed row predicate with
    | .boolean true => .ok (some row)
    | .boolean false | .null => .ok none
    | v =>
      let kind := v.typeName
      .error (.eval s!"FILTER predicate returned '{kind}', expected Boolean")) input

/-- A value that is no integer leaves the count unknown. -/
def rowCount (e : Expression) (seed : Seed) : Except ExecError (Option Nat) :=
  (evalRow x seed ∅ e).map fun v => (x.builtins.asInteger v).map (·.toUInt64.toNat)

def skip (e : Expression) (input : Operator) : Operator := .skip (rowCount x e) input none 0

def limit (e : Expression) (input : Operator) : Operator := .limit (rowCount x e) input none 0

def apply (outer inner : Operator) : Operator := .apply outer inner none

end Operators

/-! ## `REMOVE` -/

inductive RemoveItem where
  | property (target : Expression)
  | label (var : String) (labels : List String)

def removeItem (row : Row) : RemoveItem → Row
  | .property (.propertyAccess (.var var) key) =>
    match row[var]? with
    | some (.node n) => row.insert var (.node
        { n with properties := n.properties.filter (·.1 != key) })
    | some (.relationship r) => row.insert var (.relationship
        { r with properties := r.properties.filter (·.1 != key) })
    | _ => row
  | .property _ => row
  | .label var labels =>
    match row[var]? with
    | some (.node n) => row.insert var (.node { n with labels := n.labels.filter (· ∉ labels) })
    | _ => row

/-- `RemoveOp` changes the rows it hands on. It does not call the engine. -/
def remove (items : List RemoveItem) (input : Operator) : Operator :=
  .each (fun _ row => .ok (some (items.foldl removeItem row))) input

/-- `MATCH … REMOVE …` over the operators of the `MATCH`: the rows of the
statement, and the graph it leaves. -/
def executeRemove (g : GraphStore) (items : List RemoveItem) (input : Operator)
    (fuel : Nat) (seed : Seed) : Res (Except ExecError (List Row)) × GraphStore :=
  (answer (pullAll fuel seed) (remove items input), g)

end RGraph.Cypher
