import RGraph.Graph.Record
import RGraph.Lib.Fault

/-!
# The CSR snapshot (`graph/csr.rs`)

All edges by source node in three parallel columns. `row_ptr` has for every
node id where its edges begin. Indices are `usize` and the entries of
`row_ptr` are `u32`; both wrap.

`sort_unstable_by_key` may leave edges with equal keys in any order, so the
sorted list is an input of `build`.
-/

namespace RGraph.Graph

open RGraph.Lib

structure CsrEdge where
  targetId : Nat
  edgeId : Nat
  edgeType : Nat
  deriving DecidableEq, Repr

structure CsrAdjacency where
  rowPtr : List Nat
  colIdx : List Nat
  edgeIds : List Nat
  edgeTypes : List Nat
  maxNodeId : Nat
  deriving DecidableEq, Repr

namespace CsrAdjacency

/-- The entry `i` of the columns. -/
def edgeAt (c : CsrAdjacency) (i : Nat) : Res CsrEdge := do
  let targetId ← Res.unwrap c.colIdx[i]?
  let edgeId ← Res.unwrap c.edgeIds[i]?
  let edgeType ← Res.unwrap c.edgeTypes[i]?
  pure ⟨targetId, edgeId, edgeType⟩

/-- The rows `start..end` of a node. -/
def bounds (c : CsrAdjacency) (srcNodeId : UInt64) : Res (Nat × Nat) := do
  let idx := srcNodeId.toNat
  let next := (idx + 1) % 2 ^ 64
  if next < c.rowPtr.length then
    let first ← Res.unwrap c.rowPtr[idx]?
    let last ← Res.unwrap c.rowPtr[next]?
    pure (first, last)
  else pure (0, 0)

def outgoingEdges (c : CsrAdjacency) (srcNodeId : UInt64) :
    Res (List CsrEdge) := do
  let (first, last) ← c.bounds srcNodeId
  (List.range' first (last - first)).mapM c.edgeAt

def outDegree (c : CsrAdjacency) (srcNodeId : UInt64) : Res Nat := do
  let (first, last) ← c.bounds srcNodeId
  pure ((last + 2 ^ 32 - first) % 2 ^ 32)

end CsrAdjacency

/-- `(src_id, dst_id, edge_id, type_id)` -/
structure CsrEntry where
  src : Nat
  dst : Nat
  edgeId : Nat
  typeId : Nat
  deriving DecidableEq, Repr

namespace CsrEntry

def ofRecord (rec : EdgeRecord) : CsrEntry :=
  ⟨rec.sourceId.toNat, rec.targetId.toNat, rec.edgeId.toNat, rec.typeId.toNat⟩

/-- The order of the keys `(src, dst, edge_id)`. -/
def KeyLe (a b : CsrEntry) : Prop :=
  a.src < b.src ∨ a.src = b.src ∧ (a.dst < b.dst ∨ a.dst = b.dst ∧ a.edgeId ≤ b.edgeId)

def edge (e : CsrEntry) : CsrEdge := ⟨e.dst, e.edgeId, e.typeId⟩

end CsrEntry

structure CsrBuilder where
  edges : List CsrEntry
  maxNodeId : Nat

namespace CsrBuilder

def new : CsrBuilder := ⟨[], 0⟩

def addEdge (b : CsrBuilder) (rec : EdgeRecord) : CsrBuilder :=
  if rec.isDeleted then b
  else
    let e := CsrEntry.ofRecord rec
    ⟨b.edges ++ [e], max (max b.maxNodeId e.src) e.dst⟩

def addNode (b : CsrBuilder) (rec : NodeRecord) : CsrBuilder :=
  { b with maxNodeId := max b.maxNodeId rec.nodeId.toNat }

/-- The length of the row table. -/
def rows (b : CsrBuilder) : Nat := min (b.maxNodeId + 2) (2 ^ 64 - 1)

/-- `isize::MAX` bytes are the most that can be allocated. -/
def Allocates (b : CsrBuilder) : Prop := 4 * b.rows < 2 ^ 63

instance (b : CsrBuilder) : Decidable b.Allocates := inferInstanceAs (Decidable (_ < _))

/-- What `sort_unstable_by_key` may make of the edges. -/
def Sorts (b : CsrBuilder) (sorted : List CsrEntry) : Prop :=
  sorted.Perm b.edges ∧ sorted.Pairwise CsrEntry.KeyLe

/-- Count the edges of every source, one place further. -/
def countDegrees (n : Nat) (edges : List CsrEntry) : List Nat :=
  edges.foldl (fun row e =>
    if e.src + 1 < n then row.modify (e.src + 1) fun c => (c + 1) % 2 ^ 32
    else row) (List.replicate n 0)

/-- `row_ptr[i] += row_ptr[i - 1]`, from the front. -/
def prefixSum (acc : Nat) : List Nat → List Nat
  | [] => []
  | c :: row => (c + acc) % 2 ^ 32 :: prefixSum ((c + acc) % 2 ^ 32) row

/-- An edge goes where the cursor of its source is. -/
def place (s : List Nat × CsrAdjacency) (e : CsrEntry) :
    Res (List Nat × CsrAdjacency) := do
  let (cursor, c) := s
  let pos ← Res.unwrap cursor[e.src]?
  if pos < c.colIdx.length then
    pure (cursor.set e.src ((pos + 1) % 2 ^ 32), { c with
      colIdx := c.colIdx.set pos e.dst
      edgeIds := c.edgeIds.set pos e.edgeId
      edgeTypes := c.edgeTypes.set pos e.typeId })
  else .error .panic

def build (b : CsrBuilder) (sorted : List CsrEntry) : Res CsrAdjacency := do
  if b.Allocates then
    let rowPtr := prefixSum 0 (countDegrees b.rows sorted)
    let zeros := List.replicate sorted.length 0
    let (_, c) ← sorted.foldlM place
      (rowPtr, ⟨rowPtr, zeros, zeros, zeros, b.maxNodeId⟩)
    pure c
  else .error .panic

end CsrBuilder

/-- What is added to a builder. -/
inductive CsrRecord where
  | edge (rec : EdgeRecord)
  | node (rec : NodeRecord)

namespace CsrBuilder

def add (b : CsrBuilder) : CsrRecord → CsrBuilder
  | .edge rec => b.addEdge rec
  | .node rec => b.addNode rec

def ofRecords (rs : List CsrRecord) : CsrBuilder := rs.foldl add .new

end CsrBuilder

end RGraph.Graph
