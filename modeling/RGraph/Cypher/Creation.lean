import Mathlib.Data.List.Dedup
import RGraph.Cypher.Physical

/-!
# What a `CREATE` clause adds

A node element whose variable is bound stands for the node it is bound to. The
others are new: an anonymous one always, a variable where it occurs first.
Each relationship element adds a relationship between the nodes of the two
elements beside it, in the direction it is written in.
-/

namespace RGraph.Cypher

/-- A node, and relationships with the node after each of them. -/
structure PathPattern where
  name : Option String
  first : NodePattern
  hops : List (RelationshipPattern × NodePattern)

def PathPattern.namedPattern (p : PathPattern) : NamedPattern :=
  ⟨p.name, ⟨.node p.first :: p.hops.flatMap fun h => [.relationship h.1, .node h.2]⟩⟩

/-- The node elements of a clause, from left to right. -/
def nodeElements (paths : List PathPattern) : List NodePattern :=
  paths.flatMap fun p => p.first :: p.hops.map Prod.snd

/-- The relationships of a path whose first node is the node element `i`, each
with the node element before it. -/
def hopElements : Nat → List (RelationshipPattern × NodePattern) →
    List (Nat × RelationshipPattern)
  | _, [] => []
  | i, h :: hops => (i, h.1) :: hopElements (i + 1) hops

def relationshipElements : Nat → List PathPattern →
    List (Nat × RelationshipPattern)
  | _, [] => []
  | i, p :: paths =>
    hopElements i p.hops ++ relationshipElements (i + 1 + p.hops.length) paths

/-- The number of nodes that are new for a row: those without a variable, and
one for each variable that is not bound. -/
def newCount (row : Row) (ns : List NodePattern) : Nat :=
  ns.countP (·.var.isNone) +
    ((ns.filterMap (·.var)).filter fun v => (row[v]?).isNone).dedup.length

/-- The node that a node element stands for, if new nodes get the ids from
`next` on. -/
def nodeFor (row : Row) (next : Nat) (ns : List NodePattern) (i : Nat) : Option Nat :=
  match ns[i]? with
  | none => none
  | some n =>
    match n.var with
    | none => some (next + newCount row (ns.take i))
    | some v =>
      match row[v]? with
      | some (.node n) => some n.id
      | some _ => none
      | none => some (next + newCount row (ns.take (ns.findIdx fun n => n.var == some v)))

/-- The relationship leads from one node to the other, as it is written. -/
def Directed (r : StoredEdge) (near far : Nat) : Direction → Prop
  | .outgoing => r.sourceId = near ∧ r.targetId = far
  | .incoming => r.targetId = near ∧ r.sourceId = far
  | .both => r.sourceId = near ∧ r.targetId = far ∨
      r.targetId = near ∧ r.sourceId = far

/-- The relationship is there, between the nodes of its two elements. -/
def Joined (row : Row) (next : Nat) (ns : List NodePattern) (g : GraphStore)
    (q : Nat × RelationshipPattern) (e : Nat) : Prop :=
  ∃ r near far, g.edges[e]? = some r ∧ r.deleted = false ∧ nodeFor row next ns q.1 = some near ∧
    nodeFor row next ns (q.1 + 1) = some far ∧
    Directed r near far q.2.direction

/-- The graph has the nodes and relationships of the clause in addition, and
nothing else is new or changed. -/
structure CreatesExactly (paths : List PathPattern) (row : Row)
    (g g' : GraphStore) : Prop where
  nodes : ∀ id : Nat, (g'.nodes[id]?).isSome ↔ (g.nodes[id]?).isSome ∨
    g.nextId ≤ id ∧ id < g.nextId + newCount row (nodeElements paths)
  keptNodes : ∀ (id : Nat) (r : StoredNode), g.nodes[id]? = some r → g'.nodes[id]? = some r
  relationships : ∃ es : List Nat, es.Nodup ∧ (∀ e ∈ es, g.edges[e]? = none) ∧
    (∀ e : Nat, (g'.edges[e]?).isSome ↔ (g.edges[e]?).isSome ∨ e ∈ es) ∧
    List.Forall₂ (Joined row g.nextId (nodeElements paths) g') (relationshipElements 0 paths) es
  keptRelationships : ∀ (e : Nat) (r : StoredEdge), g.edges[e]? = some r → g'.edges[e]? = some r

end RGraph.Cypher
