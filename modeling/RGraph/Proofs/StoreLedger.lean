import RGraph.Proofs.CreatePasses
import RGraph.Proofs.EngineDurability

/-!
# The graph of a query is that of the engine

What the operators of a query see is a `GraphStore`. It stands for a
`GraphStorageEngine` on which the calls it makes were made: both have the same
ledger, so they answer alike which ids there are, with which label or type, and
which of them are deleted.
-/

namespace RGraph.Cypher

open RGraph.Lib RGraph.Graph RGraph.GraphApi Call

/-- The calls that change the graph. -/
inductive StoreCall where
  | node (labelId : Nat) (properties : PropertyMap)
  | edge (typeId source target : Nat) (properties : PropertyMap)

namespace StoreCall

def run : StoreCall → StoreM Nat
  | .node labelId properties => GraphStore.createNode labelId properties
  | .edge typeId source target properties =>
    GraphStore.createRelationship typeId source target properties

/-- What a call that returned `id` did. -/
def action (id : Nat) : StoreCall → Action
  | .node labelId _ => .enter .node (.ofNat id) (.ofNat labelId) false
  | .edge typeId _ _ _ => .enter .edge (.ofNat id) (.ofNat typeId) false

end StoreCall

def GraphStore.ledger (g : GraphStore) : Ledger := fun kind id =>
  match kind with
  | .node => g.nodes[id.toNat]?.map fun r => (.ofNat r.labelId, r.deleted)
  | .edge => g.edges[id.toNat]?.map fun r => (.ofNat r.typeId, r.deleted)

theorem StoreCall.ledger_run {c : StoreCall} {g g' : GraphStore} {id : Nat} (hid : id < 2 ^ 64)
    (hok : c.run g = .ok (.ok id, g')) : g'.ledger = g.ledger.apply (c.action id) := by
  have hof : ∀ i : UInt64, id = i.toNat ↔ i = .ofNat id := by
    intro i
    rw [← UInt64.toNat_inj, UInt64.toNat_ofNat_of_lt' hid, eq_comm]
  funext kind i
  cases c with
  | node labelId properties =>
    obtain ⟨rfl, records, -, rfl⟩ := createNode_ok hok
    rw [action, Ledger.apply_enter]
    cases kind <;> grind [GraphStore.ledger]
  | edge typeId source target properties =>
    obtain ⟨rfl, hnodes, -, records, hedges⟩ := createRelationship_ok hok
    rw [action, Ledger.apply_enter]
    cases kind <;> grind [GraphStore.ledger]

/-- A call that fails may use up an id, and that is all. -/
theorem StoreCall.ledger_failed {c : StoreCall} {g g' : GraphStore} {err : StorageError}
    (hf : c.run g = .ok (.error err, g')) : g'.ledger = g.ledger := by
  cases c with
  | node labelId properties =>
    rw [run, GraphStore.createNode, get_bind] at hf
    generalize buildPropertyRecords properties = records at hf
    cases records <;> cases hf
  | edge typeId source target properties =>
    rw [run, GraphStore.createRelationship] at hf
    split at hf
    · cases hf
      rfl
    · rw [get_bind, modify_bind] at hf
      generalize g.nodes[source]? = s, g.nodes[target]? = t, buildPropertyRecords properties = records
        at hf
      cases s <;> cases t <;> cases records <;> cases hf <;> rfl

/-- A store, and an engine on which the same calls have returned, and others
that create and delete nothing. -/
inductive Paired : GraphStore → GraphStorageEngine → Prop
  | init : Paired .init .init
  | call {g g' : GraphStore} {e : GraphStorageEngine} {c : StoreCall} {id : Nat}
      {v : SessionEvent} (h : Paired g e) (hstore : c.run g = .ok (.ok id, g'))
      (hid : id < 2 ^ 64) (hact : v.action = c.action id) (hret : v.returns e) :
      Paired g' (sessionStep e v)
  | failed {g g' : GraphStore} {e : GraphStorageEngine} {c : StoreCall} {err : StorageError}
      (h : Paired g e) (hstore : c.run g = .ok (.error err, g')) : Paired g' e
  | engine {g : GraphStore} {e : GraphStorageEngine} {v : SessionEvent} (h : Paired g e)
      (hact : v.action = .grow) (hret : v.returns e) : Paired g (sessionStep e v)

variable {g : GraphStore} {e : GraphStorageEngine}

theorem Paired.sessionOk (h : Paired g e) : ∃ heap, SessionOk e heap g.ledger := by
  induction h with
  | init =>
    have hl : GraphStore.init.ledger = fun _ _ => none := by
      funext kind id
      cases kind <;> simp [GraphStore.ledger, GraphStore.init]
    exact ⟨_, hl ▸ sessionOk_init⟩
  | call _ hstore hid hact hret ih =>
    obtain ⟨heap, hs⟩ := ih
    obtain ⟨heap', hs', -⟩ := hs.step hret
    rw [hact, ← StoreCall.ledger_run hid hstore] at hs'
    exact ⟨heap', hs'⟩
  | failed _ hstore ih => rwa [StoreCall.ledger_failed hstore]
  | engine _ hact hret ih =>
    obtain ⟨heap, hs⟩ := ih
    obtain ⟨heap', hs', -⟩ := hs.step hret
    rw [hact] at hs'
    exact ⟨heap', hs'⟩

/-- `get_node` and `get_edge` of the engine find what the store has. -/
theorem Paired.reads (h : Paired g e) (id : UInt64) :
    (∃ n, answer (getNode .none id) e = .ok (.ok n) ∧
      n.map (fun r => (r.nodeId, r.labelId, r.isDeleted)) =
        g.nodes[id.toNat]?.map fun r => (id, .ofNat r.labelId, r.deleted)) ∧
    ∃ x, answer (getEdge .none id) e = .ok (.ok x) ∧
      x.map (fun r => (r.edgeId, r.typeId, r.isDeleted)) =
        g.edges[id.toNat]?.map fun r => (id, .ofNat r.typeId, r.deleted) := by
  obtain ⟨heap, hs⟩ := h.sessionOk
  simpa only [GraphStore.ledger, Option.map_map, Function.comp_def] using hs.reads id

end RGraph.Cypher
