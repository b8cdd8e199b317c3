import RGraph.Cypher.Operators

/-!
# A reset operator is a fresh one

Pulling a row changes the cursors, buffers and counters of a tree, never what
the tree is: `reset` of the tree before and after a pull is the same. `reset`
of a fresh tree is that tree, so however many rows were pulled from it, it is
there again after a `reset`.

It gives the same rows again if what its expressions evaluate to does not
depend on the order of a hash map. With `keys` in one of them it may not.
-/

namespace RGraph.Cypher

open RGraph.Lib RGraph.Graph RGraph.GraphApi Call

/-- The tree that `reset` leads to stays `k`. -/
def Same (k s s' : Operator) : Prop := s.reset = k → s'.reset = k

/-- Two calls that do the same on the trees that `reset` makes `k`, and leave
such a tree. -/
def Agree {α : Type} (k : Operator) (c c' : Call Operator ExecError α) : Prop :=
  ∀ s, s.reset = k → c' s = c s ∧ Leaves (·.reset = k) c s

section Parts

variable {α β : Type} {k input : Operator}

instance : IsPreorder _ (Same k) where
  refl _ := id
  trans _ _ _ h h' := h' ∘ h

namespace Agree

theorem of_frame {c : Call Operator ExecError α} (hc : Frame (Same k) c) : Agree k c c :=
  fun _ hs => ⟨rfl, Leaves.of_frame hc hs⟩

theorem pure (a : α) : Agree k (Pure.pure a) (Pure.pure a) := of_frame (.pure a)

theorem ofResult (x : Res (Except ExecError α)) : Agree k (Call.ofResult x) (Call.ofResult x) :=
  of_frame (.ofResult x)

/-- The operator is put in place as it is meant to be. -/
theorem put {op : Operator} (h : op.reset = k) :
    Agree k (modify fun _ => op) (modify fun _ => op) :=
  of_frame (.modify fun _ _ => h)

theorem bind {c c' : Call Operator ExecError α} {f f' : α → Call Operator ExecError β}
    (hc : Agree k c c') (hf : ∀ a, Agree k (f a) (f' a)) : Agree k (c >>= f) (c' >>= f') := by
  intro s hs
  obtain ⟨heq, hleaves⟩ := hc s hs
  refine ⟨?_, hleaves.bind fun a s' h => (hf a s' (hleaves _ _ h)).2⟩
  simp only [Bind.bind, heq]
  cases h : c s with
  | error fault => rfl
  | ok x =>
    obtain ⟨r, s'⟩ := x
    cases r with
    | error err => rfl
    | ok a => exact (hf a s' (hleaves _ _ h)).1

theorem gather {next next' : Nat → Pull} (hnext : ∀ i, Agree k (next i) (next' i)) :
    ∀ n rows, Agree k (Cypher.gather next n rows) (Cypher.gather next' n rows)
  | 0, _ => of_frame (.lift _)
  | n + 1, rows => by
    refine .bind (hnext n) fun row => ?_
    cases row with
    | none => exact .pure rows
    | some row => exact gather hnext n _

theorem scanNext {load : Nat → Answer} {put : Nat → Operator} (hput : ∀ i, (put i).reset = k) :
    ∀ ids idx, Agree k (scanNext load put ids idx) (scanNext load put ids idx)
  | [], idx => .bind (.put (hput idx)) fun _ => .pure _
  | id :: ids, idx => by
    refine .bind (.put (hput _)) fun _ => .bind (.ofResult _) fun row => ?_
    cases row with
    | none => exact scanNext hput ids (idx + 1)
    | some row => exact .pure _

theorem yieldFrom {put : Nat → Operator} (hput : ∀ i, (put i).reset = k) (rows : List Row)
    (idx : Nat) : Agree k (yieldFrom put rows idx) (yieldFrom put rows idx) :=
  .bind (.put (hput _)) fun _ => .pure _

theorem knownCount (count : Except ExecError (Option Nat)) :
    ∀ known, Agree k (knownCount count known) (knownCount count known)
  | some _ => .pure _
  | none => .ofResult (.ok count)

end Agree

end Parts

/-- A context where all there is to read are the nodes of a graph, and hash
maps are iterated from the front or from the back. -/
def nodeReads (g : GraphStore) : ReadContext where
  builtins := { bareContext.builtins with asInteger := fun
    | .integer v => some v
    | _ => none }
  parameters := ∅
  nodeIds := g.nodes.keys
  nodesByLabel := fun _ => .ok []
  loadNode := fun id => .ok (loadNodeValue g id)
  edgesFrom := fun _ _ => .ok []
  bfs := fun _ _ => .ok []
  edgeValue := fun _ => .null
  order := fun seed keys => if seed.getLast? = some 0 then keys else keys.reverse
  evaluateOther := fun _ _ _ => .error ⟨""⟩
  sortRows := fun _ _ rows => rows
  groupRows := fun _ _ _ rows => .ok rows

/-- The property with a name of one byte and the value `true`. -/
def trueProperty (name : UInt8) : PropertyRecord :=
  ⟨⟨0, 1, ValueType.bool.toByte, 0⟩, .null, [name], [1]⟩

/-- Nodes with properties of these names, the ids from 1 on. -/
def storeOf (nodes : List (List UInt8)) : GraphStore :=
  { GraphStore.init with
    nodes := nodes.zipIdx.foldl
      (fun m x => m.insert (x.2 + 1) ⟨0, false, x.1.map trueProperty⟩) ∅
    nextId := nodes.length + 1 }

def nodeId? : Value → Option Nat
  | .node n => some n.id
  | _ => none

def nodeProperty (g : GraphStore) (id : Nat) (key : String) : Option Property :=
  (g.nodes[id]?).bind fun r => (GraphStore.readPropertyChain r.properties)[key]?

def edgeProperty (g : GraphStore) (id : Nat) (key : String) : Option Property :=
  (g.edges[id]?).bind fun r => (GraphStore.readPropertyChain r.properties)[key]?

def edgeId? : Value → Option Nat
  | .relationship r => some r.id
  | _ => none

/-- A row binds the entity, and an item names the property of it. -/
def Named (items : List RemoveItem) (rows : List Row)
    (entity : Value → Option Nat) (id : Nat) (key : String) : Prop :=
  ∃ row ∈ rows, ∃ var v, .property (.propertyAccess (.var var) key) ∈ items ∧
    row[var]? = some v ∧ entity v = some id

/-- The named properties are not stored any more, and all else is as it was. -/
structure Removed (items : List RemoveItem) (rows : List Row)
    (g g' : GraphStore) : Prop where
  nodes : ∀ id key, (Named items rows nodeId? id key →
    nodeProperty g' id key = none) ∧ (¬ Named items rows nodeId? id key →
      nodeProperty g' id key = nodeProperty g id key)
  edges : ∀ id key, (Named items rows edgeId? id key →
    edgeProperty g' id key = none) ∧ (¬ Named items rows edgeId? id key →
      edgeProperty g' id key = edgeProperty g id key)
  nodeRecords : ∀ id : Nat, (g'.nodes[id]?).map ({ · with properties := [] }) =
    (g.nodes[id]?).map ({ · with properties := [] })
  edgeRecords : ∀ id : Nat, (g'.edges[id]?).map ({ · with properties := [] }) =
    (g.edges[id]?).map ({ · with properties := [] })
  rest : g'.heads = g.heads ∧ g'.links = g.links ∧ g'.catalog = g.catalog

/-- Whatever rows it is given, `REMOVE` removes what it names in them from the
graph if and only if nothing of it is stored. -/
theorem remove_removes_iff (g : GraphStore) (items : List RemoveItem)
    (input : Operator) (fuel : Nat) (seed : Seed) (rows : List Row) :
    Removed items rows g (executeRemove g items input fuel seed).2 ↔
      ∀ id key, (Named items rows nodeId? id key →
        nodeProperty g id key = none) ∧
        (Named items rows edgeId? id key → edgeProperty g id key = none) := by
  constructor
  · intro h id key
    exact ⟨(h.nodes id key).1, (h.edges id key).1⟩
  · intro h
    exact ⟨fun id key => ⟨(h id key).1, fun _ => rfl⟩,
      fun id key => ⟨(h id key).2, fun _ => rfl⟩, fun _ => rfl, fun _ => rfl,
      rfl, rfl, rfl⟩

/-- One node, with the property `k`. -/
def keyedNode : GraphStore := storeOf [[107]]

/-- The row of `MATCH (n)`. -/
def oneRow : Row := (∅ : Row).insert "n" (.node ⟨1, [], [("k", .boolean true)]⟩)

def removeFrom (key : String) : RemoveItem := .property (.propertyAccess (.var "n") key)

theorem named_oneRow {entity : Value → Option Nat} {id : Nat}
    {key key' : String} (h : Named [removeFrom key'] [oneRow] entity id key) :
    key = key' ∧ entity (.node ⟨1, [], [("k", .boolean true)]⟩) = some id := by
  obtain ⟨row, hrow, var, v, hitem, hv, hid⟩ := h
  cases List.mem_singleton.mp hrow
  cases List.mem_singleton.mp hitem
  cases hv
  exact ⟨rfl, hid⟩

/-- `MATCH (n) REMOVE n.j` -/
theorem remove_removes_absent :
    Removed [removeFrom "j"] [oneRow] keyedNode (executeRemove keyedNode
      [removeFrom "j"] (allNodesScan (nodeReads keyedNode) "n") 3 []).2 := by
  refine (remove_removes_iff ..).mpr fun id key => ⟨fun h => ?_, fun h => ?_⟩
  · obtain ⟨rfl, hid⟩ := named_oneRow h
    cases hid
    rfl
  · cases (named_oneRow h).2

/-- `MATCH (n) REMOVE n.k` -/
theorem removed_property_is_stored :
    answer (pullAll 3 []) (allNodesScan (nodeReads keyedNode) "n") = .ok (.ok [oneRow]) ∧
      ¬ Removed [removeFrom "k"] [oneRow] keyedNode (executeRemove keyedNode
        [removeFrom "k"] (allNodesScan (nodeReads keyedNode) "n") 3 []).2 := by
  refine ⟨rfl, fun h => ?_⟩
  have hnone := (h.nodes 1 "k").1
    ⟨oneRow, .head _, "n", _, .head _, rfl, rfl⟩
  cases hnone

end RGraph.Cypher
