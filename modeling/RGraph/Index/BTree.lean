import Mathlib.Logic.Function.Basic
import RGraph.Index.Page
import RGraph.Lib.ByteOrder

/-!
# The B+ tree (`index/btree.rs`)

The tree without a buffer pool: pages live in a map, `alloc_page` counts up and
never fails, `free_page` takes a page out. Writers hold the structural latch
for the whole call, so one call is one step.

A descend path lists the nearest parent first, where the source pushes it
last.
-/

namespace RGraph.Index

open RGraph.Lib RGraph.Storage

inductive BTreeError where
  | missingRoot
  | missingLeaf
  | missingParent
  | splitFailed
  | mergeFailed
  deriving DecidableEq, Repr

/-- `min_fill_ratio` as a fraction. The source compares in `f64`; with the
default of 0.30 of 8096 usable bytes the threshold is 2428.8, and no byte count
is close enough to it for rounding to matter. -/
structure BPlusTreeConfig where
  pageSize : Nat
  minFillNum : Nat
  minFillDen : Nat
  deriving DecidableEq, Repr

def BPlusTreeConfig.default : BPlusTreeConfig := ⟨8192, 3, 10⟩

/-- One change that a reader without a latch can see. -/
inductive TreeWrite where
  | put (pageId : PageId) (page : BTreePage)
  | free (pageId : PageId)
  | root (pageId : PageId)

/-- The `history` lists the changes made so far, the latest first. The source
has no such field, and no call reads it. -/
structure BPlusTree where
  config : BPlusTreeConfig
  rootPageId : PageId
  pages : PageId → Option BTreePage
  nextPageId : PageId
  nextLsn : Nat
  history : List TreeWrite

def BPlusTree.new (config : BPlusTreeConfig) : BPlusTree :=
  ⟨config, 1, Function.update (fun _ => none) 1 (some (BTreePage.newLeaf 1)), 2, 1, []⟩

/-- The branches above a node, each with the child index taken, from the
parent up to the root. -/
abbrev DescendPath := List (PageId × Nat)

/-! ## Records -/

def encodeKv (key value : Bytes) : Bytes := natToBE 2 key.length ++ (key ++ value)

def encodeBranchEntry (key : Bytes) (child : PageId) : Bytes := key ++ natToBE 8 child

/-- Key and value of a leaf record, unless it is malformed. -/
def decodeKv (kv : Bytes) : Option (Bytes × Bytes) :=
  if kv.length < 2 then none
  else
    let keyLen := beToNat (kv.take 2)
    if kv.length < 2 + keyLen then none
    else some ((kv.drop 2).take keyLen, kv.drop (2 + keyLen))

/-- The key of a leaf record, empty if the record is malformed. -/
def leafRecordKey (record : Bytes) : Bytes := ((decodeKv record).map Prod.fst).getD []

def leafKey (page : BTreePage) (slot : Nat) : Res (Option Bytes) := do
  let kv ← page.key slot
  .ok (kv.bind fun kv => (decodeKv kv).map Prod.fst)

def leafValue (page : BTreePage) (slot : Nat) : Res (Option Bytes) := do
  let kv ← page.key slot
  .ok (kv.bind fun kv => (decodeKv kv).map Prod.snd)

/-! ## Search -/

/-- The child to follow for `key` and its index: left of the first separator
above `key`, or the rightmost child. -/
def branchSlot (page : BTreePage) (key : Bytes) : Res (PageId × Nat) := do
  let count := page.keyCount
  let lo ← bisect (fun mid => do
    let sep ← page.separatorKey mid
    .ok (sep.elim false fun sep => decide (sep ≤ key))) count 0 count
  if lo < count then
    let child ← page.childPointer lo
    .ok (child.getD 0, lo)
  else .ok (page.btreeHeader.rightmostChild, count)

/-- The first slot whose key is not below `key`. -/
def leafLowerBound (page : BTreePage) (key : Bytes) : Res Nat := do
  let lo ← bisect (fun mid => do
    let midKey ← leafKey page mid
    .ok (midKey.elim false fun midKey => decide (midKey < key)))
    page.keyCount 0 page.keyCount
  .ok (min lo 0xFFFF)

namespace BPlusTree

/-- Follow the branches down to a leaf. A walk through more branches than page
ids were given out has met one of them twice, and goes on for ever. -/
def findLeaf (t : BPlusTree) (key : Bytes) :
    Nat → PageId → BTreePage → Res (Option PageId)
  | 0, id, page => if page.isBranch then .error .diverge else .ok (some id)
  | rounds + 1, id, page =>
    if page.isBranch then do
      let (child, _) ← branchSlot page key
      match t.pages child with
      | none => .ok none
      | some page => t.findLeaf key rounds child page
    else .ok (some id)

/-- The same walk, with the path. -/
def descendToLeafWithPath (t : BPlusTree) (key : Bytes) :
    Nat → BTreePage → DescendPath → Res (Option (PageId × BTreePage × DescendPath))
  | 0, page, path =>
    if page.isBranch then .error .diverge
    else .ok (some (page.pageId, page, path))
  | rounds + 1, page, path =>
    if page.isBranch then do
      let (child, idx) ← branchSlot page key
      match t.pages child with
      | none => .ok none
      | some next => t.descendToLeafWithPath key rounds next ((page.pageId, idx) :: path)
    else .ok (some (page.pageId, page, path))

/-- `search_unlatched`: the leaf and the slot of `key`. -/
def search (t : BPlusTree) (key : Bytes) : Res (Option (PageId × Nat)) :=
  match t.pages t.rootPageId with
  | none => .ok none
  | some root => do
    match ← t.findLeaf key t.nextPageId root.pageId root with
    | none => .ok none
    | some leafId =>
      match t.pages leafId with
      | none => .ok none
      | some leaf =>
        let slot ← leafLowerBound leaf key
        if (← leafKey leaf slot) = some key then .ok (some (leafId, slot))
        else .ok none

end BPlusTree

/-! ## Mutations -/

/-- A call on the tree. -/
abbrev TreeM (α : Type) := Call BPlusTree BTreeError α

namespace TreeM

def tree : TreeM BPlusTree := fun t => .ok (.ok t, t)

def getPage (pageId : PageId) : TreeM (Option BTreePage) := fun t => .ok (.ok (t.pages pageId), t)

def allocPage : TreeM PageId := fun t =>
  .ok (.ok t.nextPageId, { t with nextPageId := t.nextPageId + 1 })

/-- Store a page under a new LSN. -/
def putPageWithLsn (pageId : PageId) (page : BTreePage) : TreeM Unit :=
  fun t => .ok (.ok (), { t with
      nextLsn := t.nextLsn + 1
      pages := Function.update t.pages pageId (some (page.setPageLsn t.nextLsn))
      history := .put pageId (page.setPageLsn t.nextLsn) :: t.history })

def freePage (pageId : PageId) : TreeM Unit := fun t =>
  .ok (.ok (), { t with
    pages := Function.update t.pages pageId none
    history := .free pageId :: t.history })

def storeRoot (pageId : PageId) : TreeM Unit := fun t =>
  .ok (.ok (), { t with
    rootPageId := pageId
    history := .root pageId :: t.history })

end TreeM

open Call TreeM

/-! ### Branches in canonical form -/

/-- The separators and pages of the slots `i` to `i + n`. -/
def decodeSlots (page : BTreePage) :
    Nat → Nat → Res (List Bytes × List PageId)
  | _, 0 => .ok ([], [])
  | i, n + 1 => do
    let sep ← page.separatorKey i
    let child ← page.childPointer i
    let (seps, children) ← decodeSlots page (i + 1) n
    .ok (sep.toList ++ seps, child.toList ++ children)

/-- The separators of a branch, and its children, one more. -/
def decodeBranch (page : BTreePage) : Res (List Bytes × List PageId) := do
  let (seps, children) ← decodeSlots page 0 page.keyCount
  .ok (seps, children ++ [page.btreeHeader.rightmostChild])

/-- Insert the entries one by one, without asking `has_room_for`. -/
def insertEntries : List Bytes → List PageId → BTreePage →
    Res (Option BTreePage)
  | [], _, branch => .ok (some branch)
  | _ :: _, [], _ => .error .panic
  | sep :: seps, child :: children, branch => do
    let (slot, branch) ← branch.insertRaw (encodeBranchEntry sep child)
    if slot.isSome then insertEntries seps children branch else .ok none

def tryBuildBranch (branchId : PageId) (level : Nat) (seps : List Bytes)
    (children : List PageId) : Res (Option BTreePage) := do
  match ← insertEntries seps children (BTreePage.newBranch branchId level) with
  | none => .ok none
  | some branch =>
    let last ← Res.unwrap children.getLast?
    .ok (some (branch.setRightmostChild last))

/-- The same for entries that must fit. -/
def buildBranch (branchId : PageId) (level : Nat) (seps : List Bytes)
    (children : List PageId) : Res BTreePage := do
  Res.unwrap (← tryBuildBranch branchId level seps children)

/-! ### Insert -/

/-- Insert the separator of a split into the parent, from the bottom of `path`
up. A branch that overflows is split itself (`split_branch`); above the root a
new root is made. -/
def insertIntoParent (leftChild rightChild : PageId) (separator : Bytes) :
    DescendPath → TreeM Unit
  | [] => do
    let newRootId ← allocPage
    let left ← getPage leftChild
    let oldLevel := left.elim 0 fun p => p.btreeHeader.level
    let (_, newRoot) ← lift ((BTreePage.newBranch newRootId (oldLevel + 1)
      ).insertRaw (encodeBranchEntry separator leftChild))
    putPageWithLsn newRootId (newRoot.setRightmostChild rightChild)
    storeRoot newRootId
  | (parentId, childIndex) :: ancestors => do
    let parent ← require .missingParent (← getPage parentId)
    let (seps, children) ← lift (decodeBranch parent)
    if children.length ≤ childIndex ∨ seps.length < childIndex then panic
    else
      let seps := seps.insertIdx childIndex separator
      let children := (children.set childIndex leftChild).insertIdx
        (childIndex + 1) rightChild
      let level := parent.btreeHeader.level
      match ← lift (tryBuildBranch parentId level seps children) with
      | some branch => putPageWithLsn parentId branch
      | none => do
        let mid := seps.length / 2
        let promoted ← lift (Res.unwrap seps[mid]?)
        let left ← lift (buildBranch parentId level (seps.take mid) (children.take (mid + 1)))
        let newBranchId ← allocPage
        let right ← lift (buildBranch newBranchId level
          (seps.drop (mid + 1)) (children.drop (mid + 1)))
        putPageWithLsn parentId left
        putPageWithLsn newBranchId right
        insertIntoParent parentId newBranchId promoted ancestors

/-- Insert the entries into a leaf, one after another; what does not fit is
dropped. -/
def insertAll : List (Bytes × Bytes) → BTreePage → Res BTreePage
  | [], leaf => .ok leaf
  | (k, v) :: entries, leaf => do
    let (_, leaf) ← leaf.insertRaw (encodeKv k v)
    insertAll entries leaf

/-- The entries of a full leaf with the new one among them, in key order. -/
def splitEntries (leaf : BTreePage) (newKey newValue : Bytes) :
    Res (List (Bytes × Bytes)) := do
  let records ← leaf.records 0 leaf.slotCount
  let old := (records.filterMap decodeKv).filter fun e => e.1 != newKey
  .ok ((old ++ [(newKey, newValue)]).mergeSort fun a b => decide (a.1 ≤ b.1))

/-- Split a leaf in two halves, the new entry in one of them. -/
def splitLeaf (leafId : PageId) (leaf : BTreePage) (newKey newValue : Bytes)
    (path : DescendPath) : TreeM Unit := do
  let newLeafId ← allocPage
  let entries ← lift (splitEntries leaf newKey newValue)
  let mid := entries.length / 2
  let left ← lift (insertAll (entries.take mid) (BTreePage.newLeaf leafId))
  let right ← lift (insertAll (entries.drop mid) (BTreePage.newLeaf newLeafId))
  let bh := leaf.btreeHeader
  putPageWithLsn leafId (left.setSiblings bh.siblingPrev newLeafId)
  putPageWithLsn newLeafId (right.setSiblings leafId bh.siblingNext)
  let separator ← lift (Res.unwrap entries[mid]?)
  insertIntoParent leafId newLeafId separator.1 path

/-- The record to copy for slot `i` when `slot` gets a new one. -/
def replacedRecord (leaf : BTreePage) (slot : Nat) (record : Bytes) (i : Nat) :
    Res (Option Bytes) :=
  if i = slot then .ok (some record) else leaf.key i

/-- Copy the records `i` to `i + n` of a leaf, with `record` in place of the
one in `slot`; `none` if one does not fit or is not there. -/
def copyReplacing (leaf : BTreePage) (slot : Nat) (record : Bytes) :
    Nat → Nat → BTreePage → Res (Option BTreePage)
  | _, 0, rebuilt => .ok (some rebuilt)
  | i, n + 1, rebuilt => do
    match ← replacedRecord leaf slot record i with
    | none => .ok none
    | some r =>
      if rebuilt.hasRoomFor r.length then
        let (idx, rebuilt) ← rebuilt.insertRaw r
        if idx.isSome then copyReplacing leaf slot record (i + 1) n rebuilt
        else .ok none
      else .ok none

def rebuildLeafReplacing (leaf : BTreePage) (slot : Nat) (record : Bytes) :
    Res (Option BTreePage) :=
  let bh := leaf.btreeHeader
  copyReplacing leaf slot record 0 leaf.keyCount
    ((BTreePage.newLeaf leaf.pageId).setSiblings bh.siblingPrev bh.siblingNext)

/-- The slow path of `insert_locked`: go down to the leaf, then overwrite,
insert or split. -/
def insertDescend (root : BTreePage) (key value : Bytes) : TreeM Unit := do
  let t ← tree
  let (leafId, leaf, path) ← require .missingLeaf
    (← lift (t.descendToLeafWithPath key t.nextPageId root []))
  let record := encodeKv key value
  let slot ← lift (leafLowerBound leaf key)
  let existing ← lift (leafKey leaf slot)
  if existing = some key then
    match ← lift (rebuildLeafReplacing leaf slot record) with
    | some rebuilt => putPageWithLsn leafId rebuilt
    | none => splitLeaf leafId leaf key value path
  else if leaf.hasRoomFor record.length then do
    let (idx, leaf) ← lift (leaf.insertRawAt slot record)
    if idx.isSome then putPageWithLsn leafId leaf else panic
  else splitLeaf leafId leaf key value path

/-- `insert_locked`. An empty root leaf takes the record at once. -/
def insertLocked (key value : Bytes) : TreeM Unit := do
  let t ← tree
  let root ← require .missingRoot (← getPage t.rootPageId)
  let record := encodeKv key value
  if root.isLeaf ∧ root.keyCount = 0 ∧ root.hasRoomFor record.length then do
    let (idx, newRoot) ← lift (root.insertRaw record)
    if idx.isSome then putPageWithLsn t.rootPageId newRoot
    else insertDescend root key value
  else insertDescend root key value

/-! ### Delete -/

namespace BPlusTreeConfig

/-- The bytes of a page for records and slots. -/
def usable (c : BPlusTreeConfig) : Nat := c.pageSize - headerSize - btreeHeaderSize

/-- `bytes / usable < min_fill_ratio` -/
def belowMinFill (c : BPlusTreeConfig) (bytes : Nat) : Bool :=
  bytes * c.minFillDen < c.minFillNum * c.usable

end BPlusTreeConfig

/-- The lengths of the records on a page. -/
def recordSizes (page : BTreePage) : Res (List Nat) := do
  let records ← page.records 0 page.slotCount
  .ok (records.map List.length)

def isUnderfull (c : BPlusTreeConfig) (page : BTreePage) : Res Bool :=
  if page.keyCount = 0 then .ok true
  else do
    let sizes ← recordSizes page
    .ok (c.belowMinFill sizes.sum)

/-- The page could lose its longest record and not be underfull. -/
def canLend (c : BPlusTreeConfig) (page : BTreePage) : Res Bool :=
  if page.keyCount ≤ 1 then .ok false
  else do
    let sizes ← recordSizes page
    if sizes.length ≤ 1 then .ok false
    else .ok (!c.belowMinFill (sizes.sum - sizes.foldl max 0))

/-- Move the last entry of `left` to the front of `right`; its key is the new
separator. -/
def borrowLeafFromLeft (leftId rightId : PageId) : TreeM Bytes := do
  let left ← require .missingLeaf (← getPage leftId)
  let right ← require .missingLeaf (← getPage rightId)
  if left.keyCount = 0 then panic
  else
    let last := left.keyCount - 1
    let record ← require .mergeFailed (← lift (left.key last))
    let (_, left) ← lift (left.delete last)
    let (_, right) ← lift (right.insertRawAt 0 record)
    putPageWithLsn leftId left
    putPageWithLsn rightId right
    pure (leafRecordKey record)

/-- Move the first entry of `right` to the end of `left`; the key that is then
first in `right` is the new separator. -/
def borrowLeafFromRight (leftId rightId : PageId) : TreeM Bytes := do
  let left ← require .missingLeaf (← getPage leftId)
  let right ← require .missingLeaf (← getPage rightId)
  let record ← require .mergeFailed (← lift (right.key 0))
  let (_, right) ← lift (right.delete 0)
  let (_, left) ← lift (left.insertRaw record)
  let newFirst ← require .mergeFailed (← lift (right.key 0))
  putPageWithLsn leftId left
  putPageWithLsn rightId right
  pure (leafRecordKey newFirst)

/-- Rotate the last child of `left` through the parent into `right`. -/
def borrowBranchFromLeft (leftId rightId : PageId) (parentSep : Bytes) :
    TreeM Bytes := do
  let left ← require .missingParent (← getPage leftId)
  let right ← require .missingParent (← getPage rightId)
  let (lseps, lchildren) ← lift (decodeBranch left)
  let (rseps, rchildren) ← lift (decodeBranch right)
  let movedSep ← require .mergeFailed lseps.getLast?
  let movedChild ← require .mergeFailed lchildren.getLast?
  let level := left.btreeHeader.level
  let lb ← lift (buildBranch leftId level lseps.dropLast lchildren.dropLast)
  let rb ← lift (buildBranch rightId level (parentSep :: rseps) (movedChild :: rchildren))
  putPageWithLsn leftId lb
  putPageWithLsn rightId rb
  pure movedSep

/-- Rotate the first child of `right` through the parent into `left`. -/
def borrowBranchFromRight (leftId rightId : PageId) (parentSep : Bytes) :
    TreeM Bytes := do
  let left ← require .missingParent (← getPage leftId)
  let right ← require .missingParent (← getPage rightId)
  let (lseps, lchildren) ← lift (decodeBranch left)
  let (rseps, rchildren) ← lift (decodeBranch right)
  let movedSep ← require .mergeFailed rseps.head?
  let movedChild ← lift (Res.unwrap rchildren.head?)
  let level := left.btreeHeader.level
  let lb ← lift (buildBranch leftId level (lseps ++ [parentSep]) (lchildren ++ [movedChild]))
  let rb ← lift (buildBranch rightId level rseps.tail rchildren.tail)
  putPageWithLsn leftId lb
  putPageWithLsn rightId rb
  pure movedSep

/-- Append records to a leaf; `none` if one does not fit. -/
def appendRecords : List Bytes → BTreePage → Res (Option BTreePage)
  | [], left => .ok (some left)
  | record :: records, left => do
    let (idx, left) ← left.insertRaw record
    if idx.isSome then appendRecords records left else .ok none

/-- Merge `right` into `left` and take it out of the leaf chain. -/
def mergeLeaves (leftId rightId : PageId) : TreeM Unit := do
  let left ← require .missingLeaf (← getPage leftId)
  let right ← require .missingLeaf (← getPage rightId)
  let records ← lift (right.records 0 right.keyCount)
  let left ← require .mergeFailed (← lift (appendRecords records left))
  let rightNext := right.btreeHeader.siblingNext
  putPageWithLsn leftId (left.setSiblings left.btreeHeader.siblingPrev rightNext)
  if rightNext = 0 then pure ()
  else
    match ← getPage rightNext with
    | none => pure ()
    | some next =>
      putPageWithLsn rightNext (next.setSiblings leftId next.btreeHeader.siblingNext)

/-- Merge `right` into `left`, with the separator from the parent between. -/
def mergeBranches (leftId rightId : PageId) (separator : Bytes) :
    TreeM Unit := do
  let left ← require .missingParent (← getPage leftId)
  let right ← require .missingParent (← getPage rightId)
  let (lseps, lchildren) ← lift (decodeBranch left)
  let (rseps, rchildren) ← lift (decodeBranch right)
  let merged ← require .mergeFailed (← lift (tryBuildBranch leftId
    left.btreeHeader.level (lseps ++ [separator] ++ rseps)
    (lchildren ++ rchildren)))
  putPageWithLsn leftId merged

/-- The child at `index`, if it can lend an entry. -/
def lender (children : List PageId) (index : Nat) : TreeM (Option PageId) := do
  let t ← tree
  let siblingId ← lift (Res.unwrap children[index]?)
  let sibling ← require .missingLeaf (← getPage siblingId)
  if ← lift (canLend t.config sibling) then pure (some siblingId)
  else pure none

def leftLender (children : List PageId) (childIndex : Nat) : TreeM (Option PageId) :=
  if 0 < childIndex then lender children (childIndex - 1) else pure none

def rightLender (children : List PageId) (childIndex : Nat) : TreeM (Option PageId) :=
  if childIndex + 1 < children.length then lender children (childIndex + 1)
  else pure none

def borrowFromLeft (isLeaf : Bool) (leftId nodeId : PageId)
    (seps : List Bytes) (index : Nat) : TreeM Bytes :=
  if isLeaf then borrowLeafFromLeft leftId nodeId
  else do
    let sep ← lift (Res.unwrap seps[index]?)
    borrowBranchFromLeft leftId nodeId sep

def borrowFromRight (isLeaf : Bool) (nodeId rightId : PageId)
    (seps : List Bytes) (index : Nat) : TreeM Bytes :=
  if isLeaf then borrowLeafFromRight nodeId rightId
  else do
    let sep ← lift (Res.unwrap seps[index]?)
    borrowBranchFromRight nodeId rightId sep

def mergeSiblings (isLeaf : Bool) (leftId rightId : PageId) (separator : Bytes) : TreeM Unit :=
  if isLeaf then mergeLeaves leftId rightId
  else mergeBranches leftId rightId separator

/-- Rewrite a parent with another separator at `index`. -/
def replaceSeparator (parentId : PageId) (level : Nat) (seps : List Bytes)
    (children : List PageId) (index : Nat) (newSep : Bytes) : TreeM Unit :=
  if seps.length ≤ index then panic
  else do
    let branch ← lift (buildBranch parentId level (seps.set index newSep) children)
    putPageWithLsn parentId branch

/-- Merge the children at `index` and `index + 1` and rewrite the parent. A
root left with one child gives way to it. Returns whether the parent is
underfull now and has a parent itself. -/
def mergeChildren (isLeaf : Bool) (parentId : PageId) (level : Nat)
    (seps : List Bytes) (children : List PageId) (index : Nat)
    (ancestors : DescendPath) : TreeM Bool := do
  let leftId ← lift (Res.unwrap children[index]?)
  let rightId ← lift (Res.unwrap children[index + 1]?)
  let separator ← lift (Res.unwrap seps[index]?)
  mergeSiblings isLeaf leftId rightId separator
  let seps := seps.eraseIdx index
  let children := children.eraseIdx (index + 1)
  freePage rightId
  let t ← tree
  if ancestors.isEmpty ∧ parentId = t.rootPageId ∧ seps.isEmpty then do
    let onlyChild ← lift (Res.unwrap children.head?)
    storeRoot onlyChild
    freePage parentId
    pure false
  else do
    let branch ← lift (buildBranch parentId level seps children)
    let underfull ← lift (isUnderfull t.config branch)
    putPageWithLsn parentId branch
    pure (underfull && !ancestors.isEmpty)

/-- Borrow from the left sibling, else from the right, else merge with the
left sibling, or with the right one where there is no left. -/
def rebalanceNode (nodeId : PageId) : DescendPath → TreeM Unit
  | [] => pure ()
  | (parentId, childIndex) :: ancestors => do
    let parent ← require .missingParent (← getPage parentId)
    let (seps, children) ← lift (decodeBranch parent)
    let node ← require .missingLeaf (← getPage nodeId)
    let level := parent.btreeHeader.level
    match ← leftLender children childIndex with
    | some leftId => do
      let newSep ← borrowFromLeft node.isLeaf leftId nodeId seps
        (childIndex - 1)
      replaceSeparator parentId level seps children (childIndex - 1) newSep
    | none => do
      match ← rightLender children childIndex with
      | some rightId => do
        let newSep ← borrowFromRight node.isLeaf nodeId rightId seps
          childIndex
        replaceSeparator parentId level seps children childIndex newSep
      | none => do
        let up ← mergeChildren node.isLeaf parentId level seps children
          (childIndex - 1) ancestors
        if up then rebalanceNode parentId ancestors else pure ()

def rebalanceAfterDelete (leafId : PageId) (path : DescendPath) :
    TreeM Unit := do
  let t ← tree
  let leaf ← require .missingLeaf (← getPage leafId)
  if path.isEmpty then pure ()
  else if ← lift (isUnderfull t.config leaf) then rebalanceNode leafId path
  else pure ()

/-- Returns whether the key was there. -/
def delete (key : Bytes) : TreeM Bool := do
  let t ← tree
  let root ← require .missingRoot (← getPage t.rootPageId)
  let (leafId, leaf, path) ← require .missingLeaf
    (← lift (t.descendToLeafWithPath key t.nextPageId root []))
  let slot ← lift (leafLowerBound leaf key)
  let existing ← lift (leafKey leaf slot)
  if existing = some key then do
    let (_, leaf) ← lift (leaf.delete slot)
    putPageWithLsn leafId leaf
    rebalanceAfterDelete leafId path
    pure true
  else pure false

end RGraph.Index
