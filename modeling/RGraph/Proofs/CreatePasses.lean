import RGraph.Cypher.Creation
import RGraph.Lib.OrderedMap

/-!
# The two passes of `CREATE`

The first pass makes a node for every node element, the second a relationship
for every relationship element whose two ends it finds again in the row.
`bindNames` and `made` follow the two passes on what the row says about ids
alone, and `executeCreate_ok` says which records are new after them.
-/

namespace RGraph.Cypher

open RGraph.Lib RGraph.Graph RGraph.GraphApi Call List Function

variable {x : ExecutionContext} {g g' : GraphStore} {row row' : Row}

/-- The nodes that the variables of a row stand for. -/
def idsOf (row : Row) (v : String) : Option Nat := (row[v]?).bind entityId

/-- No record has an id that is still to be given out. -/
def Fresh (g : GraphStore) : Prop :=
  ∀ id : Nat, g.nextId ≤ id → g.nodes[id]? = none ∧ g.edges[id]? = none

/-! ## The first pass -/

/-- What the variables stand for after nodes with the ids from `next` on. -/
def bindNames (ids : String → Option Nat) : Nat → List NodePattern →
    String → Option Nat
  | _, [] => ids
  | next, n :: ns =>
    bindNames (match n.var with
      | some v => update ids v (some next)
      | none => ids) (next + 1) ns

/-- Nothing but the catalog has changed. -/
def SameRecords (g g' : GraphStore) : Prop :=
  g'.nodes = g.nodes ∧ g'.edges = g.edges ∧ g'.nextId = g.nextId

theorem labelIdFor_ok {labels : List String} {id : Nat}
    (h : labelIdFor labels g = .ok (.ok id, g')) : SameRecords g g' := by
  rw [labelIdFor] at h
  cases hl : labels.head? with
  | none =>
    rw [hl] at h
    cases h
    exact ⟨rfl, rfl, rfl⟩
  | some l =>
    rw [hl] at h
    cases h
    exact ⟨rfl, rfl, rfl⟩

theorem relTypeIdFor_ok {types : List String} {id : Nat}
    (h : relTypeIdFor types g = .ok (.ok id, g')) : SameRecords g g' := by
  rw [relTypeIdFor] at h
  cases hl : types.head? with
  | none =>
    rw [hl] at h
    cases h
    exact ⟨rfl, rfl, rfl⟩
  | some l =>
    rw [hl] at h
    cases h
    exact ⟨rfl, rfl, rfl⟩

theorem eval_ok {e : Expression} {v : Value} (h : eval x row e g = .ok (.ok v, g')) : g' = g := by
  rw [eval] at h
  cases he : evaluate x.builtins ⟨row, x.parameters⟩ e with
  | ok v =>
    rw [he] at h
    cases h
    rfl
  | error err =>
    rw [he] at h
    cases h

theorem evalProperties_ok : ∀ {entries : List (String × Expression)}
    {props props' : PropertyMap},
    evalProperties x row entries props g = .ok (.ok props', g') → g' = g
  | [], _, _, h => by
    cases h
    rfl
  | (k, e) :: entries, props, props', h => by
    rw [evalProperties, bind_ok] at h
    obtain ⟨v, g₁, hv, h⟩ := h
    cases eval_ok hv
    exact evalProperties_ok h

theorem storage_ok {α : Type} {m : StoreM α} {a : α} :
    storage m g = .ok (.ok a, g') ↔ m g = .ok (.ok a, g') := by
  rw [storage]
  split <;> simp_all

theorem createNode_ok {labelId id : Nat} {props : PropertyMap}
    (h : GraphStore.createNode labelId props g = .ok (.ok id, g')) :
    id = g.nextId ∧ ∃ records, buildPropertyRecords props = .ok records ∧
      g' = { g with
        nodes := g.nodes.insert g.nextId ⟨labelId, false, records⟩
        nextId := g.nextId + 1 } := by
  rw [GraphStore.createNode, get_bind, bind_ok] at h
  obtain ⟨records, g₁, hl, h⟩ := h
  obtain ⟨hrecords, rfl⟩ := lift_ok.mp hl
  cases h
  exact ⟨rfl, records, hrecords, rfl⟩

/-- The graph with one more node, with the next id. -/
structure NodeAdded (g g' : GraphStore) : Prop where
  nodes : ∃ r, r.deleted = false ∧ g'.nodes = g.nodes.insert g.nextId r
  edges : g'.edges = g.edges
  nextId : g'.nextId = g.nextId + 1

theorem idsOf_insert (row : Row) (v : String) (value : Value) : idsOf (row.insert v value) =
      update (idsOf row) v (entityId value) := by
  funext w
  rw [idsOf, getElem?_insert_eq, update_apply]
  split <;> rfl

/-- A node of the first pass: it is new, and its variable stands for it. -/
theorem createNodes_cons {input : Row} {n : NodePattern}
    {elems : List PatternElement}
    (h : createNodes x input (.node n :: elems) row g = .ok (.ok row', g')) :
    ∃ row₁ g₁, NodeAdded g g₁ ∧ idsOf row₁ = (match n.var with
        | some v => update (idsOf row) v (some g.nextId)
        | none => idsOf row) ∧
      createNodes x input elems row₁ g₁ = .ok (.ok row', g') := by
  rw [createNodes, bind_ok] at h
  obtain ⟨labelId, g₁, h₁, h⟩ := h
  obtain ⟨hn₁, he₁, hi₁⟩ := labelIdFor_ok h₁
  obtain ⟨props, g₂, h₂, h⟩ := bind_ok.mp h
  cases evalProperties_ok h₂
  obtain ⟨id, g₃, h₃, h⟩ := bind_ok.mp h
  obtain ⟨rfl, records, -, rfl⟩ := createNode_ok (storage_ok.mp h₃)
  rw [get_bind] at h
  refine ⟨_, _, ?_, ?_, h⟩
  · refine ⟨⟨⟨labelId, false, records⟩, rfl, ?_⟩, he₁, ?_⟩
    · dsimp only
      rw [hn₁, hi₁]
    · dsimp only
      rw [hi₁]
  · rw [loadNodeValue]
    dsimp only
    rw [getElem?_insert_eq, if_pos rfl]
    cases n.var with
    | none => rfl
    | some v =>
      refine (idsOf_insert row v _).trans ?_
      rw [← hi₁]
      rfl

/-- The graph with this many more nodes, with the next ids. -/
structure NodesAdded (n : Nat) (g g' : GraphStore) : Prop where
  old : ∀ id : Nat, id < g.nextId → g'.nodes[id]? = g.nodes[id]?
  added : ∀ id : Nat, g.nextId ≤ id → id < g.nextId + n → (g'.nodes[id]?).isSome
  later : ∀ id : Nat, g.nextId + n ≤ id → g'.nodes[id]? = g.nodes[id]?
  edges : g'.edges = g.edges
  nextId : g'.nextId = g.nextId + n

theorem NodeAdded.cons {g₁ : GraphStore} {n : Nat} (h : NodeAdded g g₁)
    (hrest : NodesAdded n g₁ g') : NodesAdded (n + 1) g g' := by
  obtain ⟨⟨r, -, hnodes⟩, hedges, hnext⟩ := h
  have hget : ∀ id : Nat, id ≠ g.nextId → g₁.nodes[id]? = g.nodes[id]? := by
    intro id hne
    rw [hnodes, getElem?_insert_eq, if_neg hne]
  have hold := hrest.old
  have hadded := hrest.added
  have hlater := hrest.later
  rw [hnext] at hold hadded hlater
  refine ⟨fun id hid => ?_, fun id hid hlt => ?_, fun id hid => ?_,
    hrest.edges.trans hedges, ?_⟩
  · rw [hold id (by omega), hget id (by omega)]
  · by_cases heq : id = g.nextId
    · rw [heq, hold _ (by omega), hnodes, getElem?_insert_eq, if_pos rfl]
      rfl
    · exact hadded id (by omega) (by omega)
  · rw [hlater id (by omega), hget id (by omega)]
  · rw [hrest.nextId, hnext]
    omega

/-- The node elements among the elements of a pattern. -/
def elementNodes (elems : List PatternElement) : List NodePattern :=
  elems.filterMap fun
    | .node n => some n
    | .relationship _ => none

theorem createNodes_ok {input : Row} : ∀ {elems : List PatternElement}
    {row : Row} {g : GraphStore},
    createNodes x input elems row g = .ok (.ok row', g') →
    NodesAdded (elementNodes elems).length g g' ∧
      idsOf row' = bindNames (idsOf row) g.nextId (elementNodes elems)
  | [], row, g, h => by
    cases h
    exact ⟨⟨fun _ _ => rfl, fun _ _ _ => by simp [elementNodes] at *; omega,
      fun _ _ => rfl, rfl, rfl⟩, rfl⟩
  | .node n :: elems, row, g, h => by
    obtain ⟨row₁, g₁, hadd, hids, h⟩ := createNodes_cons h
    obtain ⟨hrest, hids'⟩ := createNodes_ok h
    refine ⟨hadd.cons hrest, ?_⟩
    rw [hids', hids, hadd.nextId]
    rfl
  | .relationship _ :: elems, row, g, h => by
    have hrest : NodesAdded (elementNodes elems).length g g' ∧
        idsOf row' = bindNames (idsOf row) g.nextId (elementNodes elems) :=
      createNodes_ok h
    exact hrest

/-! ## The second pass -/

/-- A node, the relationship after it and the node after that. -/
structure Triple where
  source : NodePattern
  rel : RelationshipPattern
  target : NodePattern

def hopTriples : NodePattern → List (RelationshipPattern × NodePattern) →
    List Triple
  | _, [] => []
  | n, h :: hops => ⟨n, h.1, h.2⟩ :: hopTriples h.2 hops

def createAll (x : ExecutionContext) : List Triple → Row → ExecM Row
  | [], row => pure row
  | t :: ts, row => do
    createAll x ts (← createBetween x t.source t.rel t.target row)

theorem createRelationships_hops {rest : List PatternElement}
    (hrest : ∀ r elems, rest ≠ .relationship r :: elems) :
    ∀ {hops : List (RelationshipPattern × NodePattern)} {n : NodePattern}
    {row : Row} {g : GraphStore},
    createRelationships x (.node n :: (hops.flatMap (fun h =>
      [.relationship h.1, .node h.2]) ++ rest)) row g =
        (createAll x (hopTriples n hops) row >>= createRelationships x rest) g
  | [], n, row, g => by
    cases rest with
    | nil => rfl
    | cons elem rest =>
      cases elem with
      | node m => rfl
      | relationship r => exact absurd rfl (hrest r rest)
  | h :: hops, n, row, g => by
    have hstep : createRelationships x (.node n :: ((h :: hops).flatMap
        (fun h => [.relationship h.1, .node h.2]) ++ rest)) row =
        createBetween x n h.1 h.2 row >>= createRelationships x
          (.node h.2 :: (hops.flatMap (fun h => [.relationship h.1, .node h.2]) ++ rest)) := rfl
    rw [hstep, hopTriples, createAll]
    simp only [bind]
    cases createBetween x n h.1 h.2 row g with
    | error fault => rfl
    | ok y =>
      obtain ⟨_ | row₁, g₁⟩ := y
      · rfl
      · exact createRelationships_hops hrest

/-- The relationship elements of a clause with their neighbours. -/
def triples (paths : List PathPattern) : List Triple :=
  paths.flatMap fun p => hopTriples p.first p.hops

theorem createAll_append : ∀ {ts ts' : List Triple} {row : Row}
    {g : GraphStore}, createAll x (ts ++ ts') row g =
      (createAll x ts row >>= createAll x ts') g
  | [], ts', row, g => rfl
  | t :: ts, ts', row, g => by
    rw [cons_append, createAll, createAll]
    simp only [bind]
    cases createBetween x t.source t.rel t.target row g with
    | error fault => rfl
    | ok y =>
      obtain ⟨_ | row₁, g₁⟩ := y
      · rfl
      · exact createAll_append

theorem createRelationships_eq : ∀ {paths : List PathPattern} {row : Row}
    {g : GraphStore}, createRelationships x
      (createPattern (paths.map (·.namedPattern))).elements row g =
        createAll x (triples paths) row g
  | [], row, g => rfl
  | p :: paths, row, g => by
    have hrest : ∀ r elems, (createPattern (paths.map (·.namedPattern))).elements ≠
          .relationship r :: elems := by
      intro r elems
      cases paths <;> nofun
    have hpath : createRelationships x (createPattern
        ((p :: paths).map (·.namedPattern))).elements row g =
        (createAll x (hopTriples p.first p.hops) row >>= createRelationships x
            (createPattern (paths.map (·.namedPattern))).elements) g :=
      createRelationships_hops hrest
    rw [hpath, triples, flatMap_cons, createAll_append]
    simp only [bind]
    cases createAll x (hopTriples p.first p.hops) row g with
    | error fault => rfl
    | ok y =>
      obtain ⟨_ | row₁, g₁⟩ := y
      · rfl
      · exact createRelationships_eq

/-- What becomes of the variables after a relationship: its own does not stand
for a node. -/
def forget (var : Option String) (ids : String → Option Nat) : String → Option Nat :=
  match var with
  | some v => update ids v none
  | none => ids

/-- The relationships of the second pass, each as its two ends. -/
def made : (String → Option Nat) → List Triple → List (Nat × Nat)
  | _, [] => []
  | ids, t :: ts =>
    match t.source.var.bind ids, t.target.var.bind ids with
    | some source, some target => (source, target) :: made (forget t.rel.var ids) ts
    | _, _ => made ids ts

/-- The graph with these relationships in addition, with the next ids. -/
structure EdgesAdded (ends : List (Nat × Nat)) (g g' : GraphStore) :
    Prop where
  nodes : g'.nodes = g.nodes
  old : ∀ e : Nat, e < g.nextId → g'.edges[e]? = g.edges[e]?
  added : ∀ (i : Nat) (source target : Nat),
    ends[i]? = some (source, target) → ∃ r, g'.edges[g.nextId + i]? = some r ∧
      r.deleted = false ∧ r.sourceId = source ∧ r.targetId = target
  later : ∀ e : Nat, g.nextId + ends.length ≤ e → g'.edges[e]? = g.edges[e]?
  nextId : g'.nextId = g.nextId + ends.length

theorem EdgesAdded.cons {g₁ : GraphStore} {p : Nat × Nat}
    {ends : List (Nat × Nat)} (h : EdgesAdded [p] g g₁)
    (hrest : EdgesAdded ends g₁ g') : EdgesAdded (p :: ends) g g' := by
  have hnext : g₁.nextId = g.nextId + 1 := h.nextId
  have hold := hrest.old
  have hadded := hrest.added
  have hlater := hrest.later
  rw [hnext] at hold hadded hlater
  refine ⟨hrest.nodes.trans h.nodes, fun e he => ?_, fun i source target hi => ?_,
    fun e he => ?_, ?_⟩
  · rw [hold e (by omega), h.old e he]
  · cases i with
    | zero =>
      obtain ⟨r, hr, hcond⟩ := h.added 0 source target hi
      exact ⟨r, (hold _ (by omega)).trans hr, hcond⟩
    | succ i =>
      have := hadded i source target hi
      rwa [Nat.add_assoc, Nat.add_comm 1 i] at this
  · rw [length_cons] at he
    rw [hlater e (by omega), h.later e (by simp; omega)]
  · rw [hrest.nextId, hnext, length_cons]
    omega

theorem createRelationship_ok {typeId source target id : Nat} {props : PropertyMap}
    (h : GraphStore.createRelationship typeId source target props g = .ok (.ok id, g')) :
    id = g.nextId ∧ g'.nodes = g.nodes ∧ g'.nextId = g.nextId + 1 ∧
      ∃ records, g'.edges = g.edges.insert g.nextId ⟨typeId, source, target, false, records⟩ := by
  rw [GraphStore.createRelationship] at h
  split at h
  · cases h
  · rw [get_bind, modify_bind, bind_ok] at h
    obtain ⟨_, _, h₁, h⟩ := h
    obtain ⟨-, rfl⟩ := require_ok.mp h₁
    obtain ⟨_, _, h₂, h⟩ := bind_ok.mp h
    obtain ⟨-, rfl⟩ := require_ok.mp h₂
    obtain ⟨records, _, h₃, h⟩ := bind_ok.mp h
    obtain ⟨-, rfl⟩ := lift_ok.mp h₃
    rw [modify_bind] at h
    cases h
    exact ⟨rfl, rfl, rfl, records, rfl⟩

theorem boundId_eq (row : Row) (var : Option String) : boundId row var = var.bind (idsOf row) := by
  cases var <;> rfl

/-- A relationship of the second pass, if both its ends are found. -/
theorem createBetween_ok {t : Triple} {row₁ : Row} {g₁ : GraphStore}
    (h : createBetween x t.source t.rel t.target row g = .ok (.ok row₁, g₁)) :
    (∃ source target, t.source.var.bind (idsOf row) = some source ∧
      t.target.var.bind (idsOf row) = some target ∧ idsOf row₁ = forget t.rel.var (idsOf row) ∧
      EdgesAdded [(source, target)] g g₁) ∨
    ((t.source.var.bind (idsOf row) = none ∨
      t.target.var.bind (idsOf row) = none) ∧ row₁ = row ∧ g₁ = g) := by
  rw [createBetween, boundId_eq, boundId_eq] at h
  cases hs : t.source.var.bind (idsOf row) with
  | none =>
    rw [hs] at h
    cases h
    exact .inr ⟨.inl rfl, rfl, rfl⟩
  | some source =>
    cases ht : t.target.var.bind (idsOf row) with
    | none =>
      rw [hs, ht] at h
      cases h
      exact .inr ⟨.inr rfl, rfl, rfl⟩
    | some target =>
      rw [hs, ht] at h
      obtain ⟨typeId, g₂, h₂, h⟩ := bind_ok.mp h
      obtain ⟨hn, he, hi⟩ := relTypeIdFor_ok h₂
      obtain ⟨props, g₃, h₃, h⟩ := bind_ok.mp h
      cases evalProperties_ok h₃
      obtain ⟨id, g₄, h₄, h⟩ := bind_ok.mp h
      obtain ⟨-, hn', hi', records, he'⟩ := createRelationship_ok (storage_ok.mp h₄)
      cases h
      rw [hi] at he' hi'
      rw [he] at he'
      refine .inl ⟨source, target, rfl, rfl, ?_, hn'.trans hn, ?_, ?_, ?_, hi'⟩
      · cases t.rel.var with
        | none => rfl
        | some v => exact idsOf_insert row v _
      · intro e hlt
        rw [he', getElem?_insert_eq, if_neg (by omega)]
      · intro i a b hab
        cases i with
        | zero =>
          cases hab
          refine ⟨_, by rw [he', getElem?_insert_eq, if_pos (by omega)], rfl, rfl, rfl⟩
        | succ i => cases hab
      · intro e hle
        rw [he', getElem?_insert_eq, if_neg]
        simp only [length_singleton] at hle
        omega

theorem createAll_ok : ∀ {ts : List Triple} {row : Row} {g : GraphStore},
    createAll x ts row g = .ok (.ok row', g') →
    EdgesAdded (made (idsOf row) ts) g g'
  | [], row, g, h => by
    cases h
    exact ⟨rfl, fun _ _ => rfl, nofun, fun _ _ => rfl, rfl⟩
  | t :: ts, row, g, h => by
    rw [createAll] at h
    obtain ⟨row₁, g₁, h₁, h⟩ := bind_ok.mp h
    have ih := createAll_ok h
    rw [made]
    rcases createBetween_ok h₁ with
      ⟨source, target, hs, ht, hids, hadd⟩ | ⟨hnone, rfl, rfl⟩
    · rw [hs, ht]
      rw [hids] at ih
      exact hadd.cons ih
    · rcases hnone with hs | ht
      · rw [hs]
        exact ih
      · rw [ht]
        cases t.source.var.bind (idsOf row₁) <;> exact ih

theorem elementNodes_hops :
    ∀ hops : List (RelationshipPattern × NodePattern),
    elementNodes (hops.flatMap fun h => [.relationship h.1, .node h.2]) = hops.map Prod.snd
  | [] => rfl
  | h :: hops => congrArg (h.2 :: ·) (elementNodes_hops hops)

theorem elementNodes_paths : ∀ paths : List PathPattern,
    elementNodes (createPattern (paths.map (·.namedPattern))).elements = nodeElements paths
  | [] => rfl
  | p :: paths => by
    have hsplit : elementNodes (createPattern ((p :: paths).map (·.namedPattern))).elements =
        (p.first :: elementNodes (p.hops.flatMap fun h =>
          [.relationship h.1, .node h.2])) ++ elementNodes
            (createPattern (paths.map (·.namedPattern))).elements :=
      filterMap_append
    rw [hsplit, elementNodes_hops, elementNodes_paths paths]
    rfl

theorem executeCreate_ok {paths : List PathPattern}
    (h : executeCreate x (createPattern (paths.map (·.namedPattern))) row g = .ok (.ok row', g')) :
    ∃ g₁, NodesAdded (nodeElements paths).length g g₁ ∧
      EdgesAdded (made (bindNames (idsOf row) g.nextId (nodeElements paths))
        (triples paths)) g₁ g' := by
  rw [executeCreate] at h
  obtain ⟨row₁, g₁, h₁, h₂⟩ := bind_ok.mp h
  rw [createRelationships_eq] at h₂
  obtain ⟨hnodes, hids⟩ := createNodes_ok h₁
  have hedges := createAll_ok h₂
  rw [elementNodes_paths] at hnodes hids
  rw [hids] at hedges
  exact ⟨g₁, hnodes, hedges⟩

end RGraph.Cypher
