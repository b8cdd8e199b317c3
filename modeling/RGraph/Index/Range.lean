import RGraph.Index.BTree

/-!
# Range scans (`range_search` in `index/btree.rs`, `index/cursor.rs`)

Both walks start at the leaf of the lower bound and follow the siblings. The
search looks at every slot of every leaf. The cursor has a place, a leaf and a
slot of it, and goes from place to place.

A walk that takes more steps than there are page ids, or places, has met a
leaf twice and goes on for ever.
-/

namespace RGraph.Index

open RGraph.Lib RGraph.Storage

/-! ## `range_search` -/

/-- The entries in `[start, stop)` of the slots `i` to `i + n` of a leaf, and
whether a key at or above `stop` was met. -/
def rangeSlots (start stop : Bytes) (leaf : BTreePage) :
    Nat → Nat → Res (List (Bytes × Bytes) × Bool)
  | _, 0 => .ok ([], false)
  | i, n + 1 => do
    match ← leafKey leaf i with
    | none => rangeSlots start stop leaf (i + 1) n
    | some key =>
      if key < start then rangeSlots start stop leaf (i + 1) n
      else if stop ≤ key then .ok ([], true)
      else do
        let value ← leafValue leaf i
        let (rest, stopped) ← rangeSlots start stop leaf (i + 1) n
        .ok ((value.map (key, ·)).toList ++ rest, stopped)

namespace BPlusTree

/-- From a leaf along its siblings. -/
def rangeLeaves (t : BPlusTree) (start stop : Bytes) :
    Nat → PageId → Res (List (Bytes × Bytes))
  | 0, _ => .error .diverge
  | rounds + 1, leafId =>
    match t.pages leafId with
    | none => .ok []
    | some leaf => do
      let (found, stopped) ← rangeSlots start stop leaf 0 leaf.keyCount
      let next := leaf.btreeHeader.siblingNext
      if stopped ∨ next = 0 then .ok found
      else do
        let rest ← t.rangeLeaves start stop rounds next
        .ok (found ++ rest)

def rangeSearch (t : BPlusTree) (start stop : Bytes) : Res (List (Bytes × Bytes)) :=
  match t.pages t.rootPageId with
  | none => .ok []
  | some root => do
    match ← t.findLeaf start t.nextPageId root.pageId root with
    | none => .ok []
    | some leafId => t.rangeLeaves start stop t.nextPageId leafId

end BPlusTree

/-! ## The cursor -/

/-- The upper bound is exclusive; without one the scan goes to the end. -/
structure BTreeRangeCursor where
  currentLeafId : PageId
  currentLeaf : BTreePage
  currentSlot : Nat
  endKey : Option Bytes

namespace BTreeRangeCursor

/-- At the first key of the leaf that is not below `start`. -/
def new (leafId : PageId) (leaf : BTreePage) (start : Bytes)
    (endKey : Option Bytes) : Res BTreeRangeCursor := do
  let slot ← leafLowerBound leaf start
  .ok ⟨leafId, leaf, slot, endKey⟩

/-- The place is valid and below the upper bound. -/
def currentWithinBound (c : BTreeRangeCursor) : Res Bool :=
  if c.currentLeaf.keyCount ≤ c.currentSlot then .ok false
  else
    match c.endKey with
    | none => .ok true
    | some stop => do
      let key ← leafKey c.currentLeaf c.currentSlot
      .ok (key.elim true fun key => decide (key < stop))

def current (c : BTreeRangeCursor) : Res (Option (Bytes × Bytes)) := do
  if ← c.currentWithinBound then
    let kv ← c.currentLeaf.key c.currentSlot
    .ok (kv.bind decodeKv)
  else .ok none

/-- The next place, and whether it is one of the scan. -/
def next (t : BPlusTree) (c : BTreeRangeCursor) : Res (Bool × BTreeRangeCursor) :=
  if c.currentSlot + 1 < c.currentLeaf.keyCount then do
    let c := { c with currentSlot := c.currentSlot + 1 }
    let inside ← c.currentWithinBound
    .ok (inside, c)
  else
    let sibling := c.currentLeaf.btreeHeader.siblingNext
    if sibling = 0 then
      .ok (false, { c with currentSlot := c.currentLeaf.keyCount })
    else
      match t.pages sibling with
      | none => .ok (false, c)
      | some leaf => do
        let c := { c with
          currentLeafId := sibling, currentLeaf := leaf, currentSlot := 0 }
        let inside ← c.currentWithinBound
        .ok (inside, c)

/-- The entries from the place on. -/
def collectRange (t : BPlusTree) :
    Nat → BTreeRangeCursor → Res (List (Bytes × Bytes))
  | 0, _ => .error .diverge
  | rounds + 1, c => do
    match ← c.current with
    | none => .ok []
    | some pair => do
      let (more, c) ← c.next t
      if more then
        let rest ← collectRange t rounds c
        .ok (pair :: rest)
      else .ok [pair]

end BTreeRangeCursor

namespace BPlusTree

def cursorFrom (t : BPlusTree) (start : Bytes) (endKey : Option Bytes) :
    Res (Option BTreeRangeCursor) :=
  match t.pages t.rootPageId with
  | none => .ok none
  | some root => do
    match ← t.findLeaf start t.nextPageId root.pageId root with
    | none => .ok none
    | some leafId =>
      match t.pages leafId with
      | none => .ok none
      | some leaf => do
        let c ← BTreeRangeCursor.new leafId leaf start endKey
        .ok (some c)

/-- A leaf has less than `2 ^ 16` places. -/
def intoRange (t : BPlusTree) (start stop : Bytes) :
    Res (List (Bytes × Bytes)) := do
  match ← t.cursorFrom start (some stop) with
  | none => .ok []
  | some c => c.collectRange t (t.nextPageId * 2 ^ 16)

end BPlusTree

end RGraph.Index
