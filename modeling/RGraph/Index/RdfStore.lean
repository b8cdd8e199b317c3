import RGraph.Index.BTree
import RGraph.Index.Key

/-!
# The RDF triple index (`index/rdf_store.rs`)

Three B+ trees hold the same triples, each under keys with the fields in
another order, so that the triples with given leading fields are the entries
whose keys start with the same bytes. A scan goes down to the leftmost leaf
that can have such a key, and from there along the siblings to the last leaf.

The keys of the trees are 40 bytes long: 16 for the subject, 8 for the
predicate and 16 for the object.
-/

namespace RGraph.Index

open RGraph.Lib RGraph.Graph Call

/-- The three orders of the fields. -/
inductive Permutation where
  | spo
  | pos
  | osp
  deriving DecidableEq, Repr

namespace Permutation

/-- The key of a triple in the tree of this order. -/
def key (t : RdfTriple) : Permutation → Bytes
  | .spo => rdfSpoKey t.subject.toNat t.predicate.toNat t.object.toNat
  | .pos => rdfPosKey t.predicate.toNat t.object.toNat t.subject.toNat
  | .osp => rdfOspKey t.object.toNat t.subject.toNat t.predicate.toNat

/-- The number in the `len` bytes from `start` on. -/
def field (key : Bytes) (start len : Nat) : Nat := beToNat ((key.drop start).take len)

/-- Put the fields of a key back into their roles. -/
def decodeTriple (key : Bytes) (perm : Permutation) : Option RdfTriple :=
  if key.length < 40 then none
  else
    match perm with
    | .spo => some
        ⟨.ofNat 128 (field key 0 16), .ofNat (field key 16 8), .ofNat 128 (field key 24 16)⟩
    | .pos => some
        ⟨.ofNat 128 (field key 24 16), .ofNat (field key 0 8), .ofNat 128 (field key 8 16)⟩
    | .osp => some
        ⟨.ofNat 128 (field key 16 16), .ofNat (field key 32 8), .ofNat 128 (field key 0 16)⟩

end Permutation

/-! ## Values -/

/-- What is stored with a triple: its slot and its graph, if it has one. -/
abbrev RdfValue := SlotRef × Option UInt64

def encodeRdfValue (value : RdfValue) : Bytes :=
  natToBE 4 value.1.raw.toNat ++ value.2.elim [] fun graph => natToBE 8 graph.toNat

/-- A value of less than twelve bytes has no graph. -/
def decodeRdfBytes (value : Bytes) : Option RdfValue :=
  if value.length < 4 then none
  else some (⟨.ofNat (beToNat (value.take 4))⟩, if 12 ≤ value.length then
        some (.ofNat (beToNat ((value.drop 4).take 8)))
      else none)

/-- The two parts of a leaf record. The source slices without asking for its
length. -/
def splitRecord (kv : Bytes) : Res (Bytes × Bytes) := Res.unwrap (decodeKv kv)

/-- `decode_value` -/
def decodeRdfValue (page : BTreePage) (slot : Nat) : Res (Option RdfValue) := do
  match ← page.key slot with
  | none => .ok none
  | some kv =>
    let (_, value) ← splitRecord kv
    .ok (decodeRdfBytes value)

def decodeKeyAndValue (perm : Permutation) (key value : Bytes) :
    Option (RdfTriple × RdfValue) := do
  let triple ← perm.decodeTriple key
  let value ← decodeRdfBytes value
  some (triple, value)

/-! ## The way down -/

/-- The child to follow: left of the first separator that is not below
`start`, or the rightmost one. -/
def branchChild (page : BTreePage) (start : Bytes) : Res PageId := do
  let count := page.keyCount
  let lo ← bisect (fun mid => do
    let sep ← page.separatorKey mid
    .ok (sep.elim false fun sep => decide (sep < start))) count 0 count
  if lo < count then
    let child ← page.childPointer lo
    .ok (child.getD 0)
  else .ok page.btreeHeader.rightmostChild

/-- `find_leaf` of this module. As in the tree, a walk through more pages than
ids were given out goes on for ever. -/
def findLeafFor (t : BPlusTree) (start : Bytes) : Nat → PageId → Res PageId
  | 0, _ => .error .diverge
  | rounds + 1, pageId =>
    match t.pages pageId with
    | none => .ok pageId
    | some page =>
      if page.isLeaf then .ok pageId
      else do
        let child ← branchChild page start
        findLeafFor t start rounds child

/-! ## Scans -/

/-- The matches in the slots `i` to `i + n` of a leaf. -/
def scanSlots (perm : Permutation) (start : Bytes) (leaf : BTreePage) :
    Nat → Nat → Res (List (RdfTriple × RdfValue))
  | _, 0 => .ok []
  | i, n + 1 => do
    match ← leaf.key i with
    | none => scanSlots perm start leaf (i + 1) n
    | some kv =>
      let (key, value) ← splitRecord kv
      let found := if start.isPrefixOf key
        then decodeKeyAndValue perm key value else none
      let rest ← scanSlots perm start leaf (i + 1) n
      .ok (found.toList ++ rest)

/-- From a leaf along its siblings. -/
def scanLeaves (t : BPlusTree) (perm : Permutation) (start : Bytes) :
    Nat → BTreePage → Res (List (RdfTriple × RdfValue))
  | 0, _ => .error .diverge
  | rounds + 1, leaf => do
    let found ← scanSlots perm start leaf 0 leaf.keyCount
    let next := leaf.btreeHeader.siblingNext
    if next = 0 then .ok found
    else
      match t.pages next with
      | none => .ok found
      | some leaf => do
        let rest ← scanLeaves t perm start rounds leaf
        .ok (found ++ rest)

def scanPrefix (t : BPlusTree) (perm : Permutation) (start : Bytes) :
    Res (List (RdfTriple × RdfValue)) := do
  if (t.pages t.rootPageId).isNone then .ok []
  else
    let leafId ← findLeafFor t start t.nextPageId t.rootPageId
    match t.pages leafId with
    | none => .ok []
    | some leaf => scanLeaves t perm start t.nextPageId leaf

/-! ## The store -/

structure RdfStore where
  tree : Permutation → BPlusTree

namespace RdfStore

def new : RdfStore := ⟨fun _ => BPlusTree.new .default⟩

/-- A call on one of the trees. -/
def onTree {α : Type} (perm : Permutation) (x : TreeM α) :
    Call RdfStore BTreeError α := fun s =>
  match x (s.tree perm) with
  | .error fault => .error fault
  | .ok (r, t) => .ok (r, ⟨Function.update s.tree perm t⟩)

def insert (triple : RdfTriple) (slot : SlotRef) (graph : Option UInt64) :
    Call RdfStore BTreeError Unit := do
  let value := encodeRdfValue (slot, graph)
  onTree .spo (insertLocked (Permutation.spo.key triple) value)
  onTree .pos (insertLocked (Permutation.pos.key triple) value)
  onTree .osp (insertLocked (Permutation.osp.key triple) value)

/-- Returns whether the triple was in the first tree. -/
def delete (triple : RdfTriple) : Call RdfStore BTreeError Bool := do
  let found ← onTree .spo (Index.delete (Permutation.spo.key triple))
  let _ ← onTree .pos (Index.delete (Permutation.pos.key triple))
  let _ ← onTree .osp (Index.delete (Permutation.osp.key triple))
  pure found

def lookup (s : RdfStore) (triple : RdfTriple) : Res (Option RdfValue) := do
  match ← (s.tree .spo).search (Permutation.spo.key triple) with
  | none => .ok none
  | some (pageId, slot) =>
    match (s.tree .spo).pages pageId with
    | none => .ok none
    | some page => decodeRdfValue page slot

def scanBySubjectPredicate (s : RdfStore) (subject : BitVec 128)
    (predicate : UInt64) : Res (List (RdfTriple × RdfValue)) :=
  scanPrefix (s.tree .spo) .spo ((rdfSpoKey subject.toNat predicate.toNat 0).take 24)

def scanBySubject (s : RdfStore) (subject : BitVec 128) : Res (List (RdfTriple × RdfValue)) :=
  scanPrefix (s.tree .spo) .spo ((rdfSpoKey subject.toNat 0 0).take 16)

def scanByPredicateObject (s : RdfStore) (predicate : UInt64)
    (object : BitVec 128) : Res (List (RdfTriple × RdfValue)) :=
  scanPrefix (s.tree .pos) .pos ((rdfPosKey predicate.toNat object.toNat 0).take 24)

def scanByObject (s : RdfStore) (object : BitVec 128) : Res (List (RdfTriple × RdfValue)) :=
  scanPrefix (s.tree .osp) .osp ((rdfOspKey object.toNat 0 0).take 16)

end RdfStore

end RGraph.Index
