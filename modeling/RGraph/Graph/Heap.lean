import Std.Data.ExtTreeMap
import Mathlib.Logic.Function.Basic
import RGraph.Index.Manager
import RGraph.Storage.Manager
import RGraph.Wal.Record

/-!
# The heap of the graph storage engine (`graph/engine.rs`)

The state of a `GraphStorageEngine` and the private helpers that move records
between it and the slotted pages: `insert_record`, `prepare_record`,
`prepare_into_pending`, `read_record`, `overwrite_record` and the variants of
the last two that work on pages not yet written.

The page manager is seen through its buffer pool. `write_page` leaves the page
in a frame; the flusher brings frames to the file later. A page written for
the first time makes the file longer, and the file then has an empty page in
its place. A page of the file that no one has written is all zero and does not
pass its checksum, so it cannot be read, nor can a frame be loaded for it. The
pages below `FIRST_DATA_PAGE_ID` hold no records and count as unreadable.

The four trees are ordered maps, as in the index manager; the calls made on
them are listed, for the comparison with the trees of `index/btree.rs`. What
can go wrong in a call is an input of the call, `Faults`.
-/

namespace RGraph.Graph

open RGraph.Lib RGraph.Storage RGraph.Wal RGraph.Index

inductive StorageError where
  | ioError
  | notFound
  | indexError
  | pageFull
  | slotOverflow
  | alreadyExists
  | invalidId
  | txConflict
  | txAborted
  deriving DecidableEq, Repr

/-! ## State -/

structure PageStore where
  /-- The pages of the buffer pool that have been written. -/
  frames : Nat → Option SlottedPage
  /-- The pages of the data file whose checksum is right. -/
  file : Nat → Option SlottedPage
  /-- The length of the data file, in pages. -/
  fileLen : Nat
  nextFreePageId : Nat
  /-- `next_free_page_id` in the superblock of the file. The bits below it
  are set in the bitmap that was written with it. -/
  syncedPageId : Nat

namespace PageStore

def init : PageStore :=
  ⟨fun _ => none, fun _ => none, firstDataPageId, firstDataPageId, firstDataPageId⟩

/-- What `read_page` finds. -/
def page (s : PageStore) (pageId : Nat) : Option SlottedPage := (s.frames pageId).or (s.file pageId)

def setFrame (s : PageStore) (pageId : Nat) (page : SlottedPage) : PageStore :=
  { s with frames := Function.update s.frames pageId (some page) }

/-- `write_page`: a frame can be loaded for a page of the file that is
readable, and for a page behind its end once the file is extended. -/
def write (s : PageStore) (pageId : Nat) (page : SlottedPage) : Option PageStore :=
  if s.fileLen ≤ pageId then
    some ({ s with
      file := Function.update s.file pageId (some (SlottedPage.init pageId .slottedData))
      fileLen := pageId + 1 }.setFrame pageId page)
  else if (s.page pageId).isNone then none
  else some (s.setFrame pageId page)

/-- `allocate_page` with nothing in the cache of free pages, which is so until
a page is freed. No two bitmap pages are neighbours, so the loop of the source
skips at most one. -/
def allocatePage (s : PageStore) : Option (Nat × PageStore) :=
  let pageId := if isBitmapPage s.nextFreePageId then s.nextFreePageId + 1
    else s.nextFreePageId
  if maxAddressablePageId < pageId then none
  else some (pageId, { s with nextFreePageId := pageId + 1 })

/-- The flusher writes a frame to the file. -/
def flush (s : PageStore) (pageId : Nat) : PageStore :=
  { s with file := Function.update s.file pageId (s.page pageId) }

end PageStore

/-- A record of the log. Only the payload of a page record is kept: a page id
and the image of the page. -/
structure LogRecord where
  lsn : Nat
  txid : Nat
  recordType : RecordType
  page : Option (Nat × SlottedPage)

/-- The lists of pages the engine keeps: `node_pages`, `edge_pages` and
`property_pages`. -/
inductive RecordKind where
  | node
  | edge
  | property
  deriving DecidableEq, Repr

/-- The trees of the engine: `node_index`, `edge_index`, `label_index` and
`type_index`. -/
inductive EngineTree where
  | node
  | edge
  | label
  | type
  deriving DecidableEq, Repr

inductive TreeOp where
  | insert (key : Bytes) (slot : SlotRef)
  | delete (key : Bytes)
  deriving DecidableEq, Repr

def TreeOp.onMap (m : Std.ExtTreeMap Bytes SlotRef) : TreeOp → Std.ExtTreeMap Bytes SlotRef
  | .insert key slot => m.insert key slot
  | .delete key => m.erase key

structure GraphStorageEngine where
  store : PageStore
  log : List LogRecord
  lastLsn : Nat
  nextTxid : Nat
  tree : EngineTree → Std.ExtTreeMap Bytes SlotRef
  pageList : RecordKind → List Nat
  /-- The transactions that have begun and not ended. -/
  active : List Nat
  /-- The resources in the lock table, each with the transaction that has
  locked it. -/
  locks : List (UInt64 × Nat)
  /-- The calls made on the trees. The source has no such field, and no call
  reads it. -/
  calls : List (EngineTree × TreeOp)

namespace GraphStorageEngine

def init : GraphStorageEngine := ⟨.init, [], 0, 1, fun _ => ∅, fun _ => [], [], [], []⟩

def callTree (e : GraphStorageEngine) (t : EngineTree) (op : TreeOp) : GraphStorageEngine :=
  { e with
    tree := Function.update e.tree t (op.onMap (e.tree t))
    calls := e.calls ++ [(t, op)] }

def pushPage (e : GraphStorageEngine) (k : RecordKind) (pageId : Nat) : GraphStorageEngine :=
  { e with
    pageList := Function.update e.pageList k (e.pageList k ++ [pageId]) }

def holdLock (e : GraphStorageEngine) (txid : Nat) (resource : UInt64) : GraphStorageEngine :=
  { e with locks := e.locks ++ [(resource, txid)] }

/-- Release the locks of a transaction and take it out of the active set. -/
def endTx (e : GraphStorageEngine) (txid : Nat) : GraphStorageEngine :=
  { e with
    locks := e.locks.filter (·.2 != txid)
    active := e.active.filter (· != txid) }

end GraphStorageEngine

/-- How a call on a tree that fails leaves the tree. -/
inductive CallFault where
  /-- As it was: the root or the leaf is missing. -/
  | refused (e : BTreeError)
  /-- With its entry written or removed: a page that rebalancing needs is
  missing. -/
  | late (e : BTreeError)
  deriving DecidableEq, Repr

/-- What happens around one call: whether the lock is refused, which pages
cannot be read or written, which tree calls fail and how, after which LSN the
log cannot be appended to, whether its flush fails; and how far the LSN after
a given one is away. -/
structure Faults where
  lock : Option StorageError
  read : Nat → Bool
  write : Nat → Bool
  index : EngineTree → Option CallFault
  append : Nat → Bool
  flush : Bool
  gap : Nat → Nat

def Faults.none : Faults :=
  ⟨Option.none, fun _ => false, fun _ => false, fun _ => Option.none,
    fun _ => false, false, fun _ => 0⟩

abbrev EngineM (α : Type) := Call GraphStorageEngine StorageError α

open Call

/-! ## Pages, trees and the log -/

def readPage (f : Faults) (pageId : Nat) : EngineM SlottedPage := do
  let e ← Call.get
  if f.read pageId then fail .ioError
  else require .ioError (e.store.page pageId)

def writePage (f : Faults) (pageId : Nat) (page : SlottedPage) :
    EngineM Unit := do
  let e ← Call.get
  if f.write pageId then fail .ioError
  else
    let store ← require .ioError (e.store.write pageId page)
    Call.modify fun e => { e with store := store }

def allocatePage : EngineM Nat := do
  let e ← Call.get
  match e.store.allocatePage with
  | none => Call.panic
  | some (pageId, store) =>
    Call.modify fun e => { e with store := store }
    pure pageId

def treeCall (f : Faults) (t : EngineTree) (op : TreeOp) : EngineM Unit := fun e =>
  match f.index t with
  | none => .ok (.ok (), e.callTree t op)
  | some (.refused _) => .ok (.error .indexError, e)
  | some (.late _) => .ok (.error .indexError, e.callTree t op)

def insertKey (f : Faults) (t : EngineTree) (key : Bytes) (slot : SlotRef) : EngineM Unit :=
  treeCall f t (.insert key slot)

def deleteKey (f : Faults) (t : EngineTree) (key : Bytes) : EngineM Unit :=
  treeCall f t (.delete key)

/-- `log`, and the appends of the transaction manager. -/
def append (f : Faults) (txid : Nat) (recordType : RecordType)
    (page : Option (Nat × SlottedPage)) : EngineM Nat := do
  let e ← Call.get
  if f.append e.lastLsn then fail .ioError
  else
    let lsn := e.lastLsn + 1 + f.gap e.lastLsn
    Call.modify fun e => { e with
      log := e.log ++ [⟨lsn, txid, recordType, page⟩], lastLsn := lsn }
    pure lsn

/-! ## Transactions -/

def begin : EngineM Nat := do
  let e ← Call.get
  Call.modify fun e => { e with
    nextTxid := e.nextTxid + 1, active := e.active ++ [e.nextTxid] }
  pure e.nextTxid

def nodeResourceId (nodeId : UInt64) : UInt64 := nodeId &&& 0x0000FFFFFFFFFFFF

def edgeResourceId (edgeId : UInt64) : UInt64 :=
  (edgeId &&& 0x0000FFFFFFFFFFFF) ||| 0x0001000000000000

/-- A new transaction holds nothing, so what is granted is not held yet. -/
def acquireLock (f : Faults) (txid : Nat) (resource : UInt64) : EngineM Unit :=
  match f.lock with
  | none => Call.modify (·.holdLock txid resource)
  | some err => fail err

/-- If the flush fails the transaction is left as it is. -/
def commit (f : Faults) (txid : Nat) : EngineM Unit := do
  let _ ← append f txid .commit none
  if f.flush then fail .ioError else Call.modify (·.endTx txid)

/-- `if let Err(e) = … { let _ = txn_mgr.rollback(…); return Err(e); }`: the
abort record may fail to reach the log. -/
def orRollback {α : Type} (f : Faults) (txid : Nat) (x : EngineM α) :
    EngineM α := fun e =>
  match x e with
  | .ok (.error err, e) =>
    match append f txid .abort none e with
    | .ok (_, e) => .ok (.error err, e.endTx txid)
    | .error fault => .error fault
  | r => r

/-! ## Records -/

section Slots

variable {σ : Type}

def slotRef (pageId slot : Nat) : Call σ StorageError SlotRef :=
  if SlotRef.maxPageId < pageId ∨ SlotRef.maxSlotIndex < slot then
    fail .slotOverflow
  else pure (SlotRef.new pageId slot)

/-- The first page of the list that has room for a record, with the slot the
record gets and the page with it. -/
def findRoom (readPage : Nat → Call σ StorageError SlottedPage)
    (record : Bytes) :
    List Nat → Call σ StorageError (Option (Nat × Nat × SlottedPage))
  | [] => pure none
  | pageId :: rest => do
    let page ← readPage pageId
    match ← lift (page.insert record) with
    | (some slot, page) => pure (some (pageId, slot, page))
    | (none, _) => findRoom readPage record rest

/-- Write over the record of a slot, which must be as long at least. -/
def overwriteSlot (page : SlottedPage) (slotIdx : Nat) (record : Bytes) :
    Res (Except StorageError SlottedPage) :=
  match page.slot slotIdx with
  | none => .ok (.error .notFound)
  | some s =>
    if s.isDeleted then .ok (.error .notFound)
    else if s.length < record.length then .ok (.error .pageFull)
    else if dataSize < s.offset + record.length then .error .panic
    else .ok (.ok { page with data := writeAt page.data s.offset record })

end Slots

/-- A record on a page of its own, allocated for it. -/
def freshPage (record : Bytes) : EngineM (Nat × Nat × SlottedPage) := do
  let pageId ← allocatePage
  match ← lift ((SlottedPage.init pageId .slottedData).insert record) with
  | (some slot, page) => pure (pageId, slot, page)
  | (none, _) => fail .pageFull

/-- Write a record into the most recent page with room for it, or a new one. -/
def insertRecord (f : Faults) (k : RecordKind) (record : Bytes) :
    EngineM SlotRef := do
  let e ← Call.get
  match ← findRoom (readPage f) record (e.pageList k).reverse with
  | some (pageId, slot, page) =>
    writePage f pageId page
    slotRef pageId slot
  | none =>
    let (pageId, slot, page) ← freshPage record
    writePage f pageId page
    Call.modify (·.pushPage k pageId)
    slotRef pageId slot

/-- The same, but the page is returned and not written. -/
def prepareRecord (f : Faults) (k : RecordKind) (record : Bytes) :
    EngineM (SlotRef × Nat × SlottedPage) := do
  let e ← Call.get
  match ← findRoom (readPage f) record (e.pageList k).reverse with
  | some (pageId, slot, page) =>
    let sref ← slotRef pageId slot
    pure (sref, pageId, page)
  | none =>
    let (pageId, slot, page) ← freshPage record
    Call.modify (·.pushPage k pageId)
    let sref ← slotRef pageId slot
    pure (sref, pageId, page)

def readRecord (f : Faults) (slot : SlotRef) : EngineM (Option Bytes) := do
  let page ← readPage f slot.pageId
  lift (page.read slot.slotIndex)

def overwriteRecord (f : Faults) (slot : SlotRef) (record : Bytes) :
    EngineM Unit := do
  let page ← readPage f slot.pageId
  let page ← ofResult (overwriteSlot page slot.slotIndex record)
  writePage f slot.pageId page

/-! ## Pages not yet written -/

/-- The images a transaction has built, by page id. -/
abbrev Pending := Std.ExtTreeMap Nat SlottedPage

abbrev PendingM (α : Type) := Call (GraphStorageEngine × Pending) StorageError α

def onEngine {α : Type} (x : EngineM α) : PendingM α := fun s =>
  match x s.1 with
  | .error fault => .error fault
  | .ok (r, e) => .ok (r, e, s.2)

/-- Run with a map of images of its own. -/
def withPending {α : Type} (x : PendingM α) : EngineM (α × Pending) := fun e =>
  match x (e, ∅) with
  | .error fault => .error fault
  | .ok (.error err, e, _) => .ok (.error err, e)
  | .ok (.ok a, e, pending) => .ok (.ok (a, pending), e)

def putPending (pageId : Nat) (page : SlottedPage) : PendingM Unit :=
  Call.modify fun s => (s.1, s.2.insert pageId page)

def readPagePending (f : Faults) (pageId : Nat) : PendingM SlottedPage := do
  let s ← Call.get
  match s.2[pageId]? with
  | some page => pure page
  | none => onEngine (readPage f pageId)

def prepareIntoPending (f : Faults) (k : RecordKind) (record : Bytes) :
    PendingM SlotRef := do
  let s ← Call.get
  match ← findRoom (readPagePending f) record (s.1.pageList k).reverse with
  | some (pageId, slot, page) =>
    let sref ← slotRef pageId slot
    putPending pageId page
    pure sref
  | none =>
    let (pageId, slot, page) ← onEngine (freshPage record)
    onEngine (Call.modify (·.pushPage k pageId))
    let sref ← slotRef pageId slot
    putPending pageId page
    pure sref

def readRecordPending (f : Faults) (slot : SlotRef) :
    PendingM (Option Bytes) := do
  let page ← readPagePending f slot.pageId
  lift (page.read slot.slotIndex)

def overwriteIntoPending (f : Faults) (slot : SlotRef) (record : Bytes) :
    PendingM Unit := do
  let page ← readPagePending f slot.pageId
  let page ← ofResult (overwriteSlot page slot.slotIndex record)
  putPending slot.pageId page

end RGraph.Graph
