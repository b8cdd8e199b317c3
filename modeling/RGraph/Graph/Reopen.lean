import RGraph.Graph.Engine
import RGraph.Lib.Replay
import RGraph.Wal.Aries

/-!
# Closing and opening the engine (`graph/engine.rs`, `storage/manager.rs`)

`sync`, the flusher, and what `open` does with the file and the log it finds:
redo, `reconcile_from_disk` and `rebuild_indexes`.

Redo is that of `wal/aries.rs` over pages in place of the bytes of the file:
the page records of committed transactions, in the order of the log, each
applied if the page in the file has a lower LSN. A page of the file that is not
readable is all zero, and its LSN is 0. Analysis finds a transaction committed
if the log has a commit record with its id and none later that aborts it. The
log is that of one session, in which no id is given twice; undo then finds
nothing to do.

The insertions into the trees do not fail here: `rebuild_indexes` does not look
at their results.
-/

namespace RGraph.Graph

open RGraph.Lib RGraph.Storage RGraph.Wal RGraph.Index Call

namespace PageStore

/-- `flush_all`, then the superblock and the first bitmap. -/
def sync (s : PageStore) : PageStore :=
  { s with file := s.page, syncedPageId := s.nextFreePageId }

/-- What is left when the process ends: the frames are gone. -/
def crash (s : PageStore) : PageStore :=
  { s with frames := fun _ => none, nextFreePageId := s.syncedPageId }

end PageStore

namespace GraphStorageEngine

def sync (e : GraphStorageEngine) : GraphStorageEngine :=
  { e with store := e.store.sync }

def flush (e : GraphStorageEngine) (pageId : Nat) : GraphStorageEngine :=
  { e with store := e.store.flush pageId }

end GraphStorageEngine

/-! ## Redo -/

def pageLsnOf (page : Option SlottedPage) : Nat :=
  match page with
  | none => 0
  | some page => page.header.pageLsn

def committed (log : List LogRecord) (txid : Nat) : Bool :=
  log.any fun r => r.txid == txid && r.recordType == .commit

/-- The write a record of the log stands for, if redo applies it at all. -/
def redoImage (log : List LogRecord) (r : LogRecord) : Option (Nat × SlottedPage) :=
  if ¬ Aries.isPageRecord r.recordType ∨ ¬ committed log r.txid then none
  else r.page.map fun (pageId, image) => (pageId, stampPage image r.lsn)

def PageStore.redoStep (log : List LogRecord) (s : PageStore) (r : LogRecord) : PageStore :=
  match redoImage log r with
  | none => s
  | some (pageId, image) =>
    if r.lsn ≤ pageLsnOf (s.file pageId) then s
    else { s with
      file := Function.update s.file pageId (some image)
      fileLen := max s.fileLen (pageId + 1) }

def PageStore.redo (log : List LogRecord) (s : PageStore) : PageStore :=
  log.foldl (PageStore.redoStep log) s

/-! ## The allocator -/

namespace PageStore

/-- What `reconcile_from_disk` counts as a page in use. -/
def inUse (s : PageStore) (pageId : Nat) : Bool :=
  pageId < s.fileLen && !isReserved pageId && (match s.file pageId with
    | none => false
    | some page => page.header.slotCount > 0)

/-- The mark is raised above the pages in use. -/
def reconcileFromDisk (s : PageStore) : PageStore :=
  { s with
    nextFreePageId := ((List.range s.fileLen).filter s.inUse).foldl
      (fun mark pageId => max mark (pageId + 1)) s.nextFreePageId }

/-- The data pages whose bit is set: in the bitmap that was synced, which is
the first one only, or since the reconciliation. -/
def allocatedPages (s : PageStore) : List Nat :=
  (List.range (max s.syncedPageId s.fileLen)).filter fun pageId =>
    !isReserved pageId &&
      ((pageId < s.syncedPageId && pageId < pagesPerBitmap) || s.inUse pageId)

end PageStore

/-! ## Rebuilding the indexes -/

/-- What the slots of a page were found to hold. -/
structure PageKinds where
  hasNodes : Bool
  hasEdges : Bool

/-- One slot. A record of the length of a node is taken for a node, one of the
length of an edge for an edge. -/
def rebuildSlot (pageId slotIdx : Nat) (bytes : Bytes)
    (s : GraphStorageEngine × PageKinds) : GraphStorageEngine × PageKinds :=
  let slot := SlotRef.new pageId slotIdx
  let s := match (NodeRecord.decode bytes).filter (·.nodeId != 0) with
    | none => s
    | some node =>
      (if node.isDeleted then s.1
        else (s.1.callTree .node (.insert (nodeIdKey node.nodeId.toNat) slot)).callTree .label
          (.insert (labelKey node.labelId node.nodeId) slot),
        { s.2 with hasNodes := true })
  match (EdgeRecord.decode bytes).filter (·.edgeId != 0) with
  | none => s
  | some edge =>
    (if edge.isDeleted then s.1
      else (s.1.callTree .edge (.insert (edgeIdKey edge.edgeId.toNat) slot)).callTree .type
        (.insert (typeKey edge.typeId edge.edgeId) slot),
      { s.2 with hasEdges := true })

/-- The slots of a page from `slotIdx` on, `n` of them. -/
def rebuildSlots (pageId : Nat) (page : SlottedPage) : Nat → Nat →
    GraphStorageEngine × PageKinds → Res (GraphStorageEngine × PageKinds)
  | 0, _, s => .ok s
  | n + 1, slotIdx, s => do
    match ← page.read slotIdx with
    | none => rebuildSlots pageId page n (slotIdx + 1) s
    | some bytes =>
      rebuildSlots pageId page n (slotIdx + 1) (rebuildSlot pageId slotIdx bytes s)

/-- `if found && !pages.contains(&page_id) { pages.push(page_id) }` -/
def trackPage (e : GraphStorageEngine) (k : RecordKind) (pageId : Nat)
    (found : Bool) : GraphStorageEngine :=
  if found && !(e.pageList k).contains pageId then e.pushPage k pageId else e

def rebuildPage (f : Faults) (pageId : Nat) : EngineM Unit := do
  let page ← readPage f pageId
  let e ← Call.get
  let (e, kinds) ← lift
    (rebuildSlots pageId page page.header.slotCount 0 (e, ⟨false, false⟩))
  Call.modify fun _ =>
    trackPage (trackPage e .node pageId kinds.hasNodes) .edge pageId kinds.hasEdges

def rebuildPages (f : Faults) : List Nat → EngineM Unit
  | [] => pure ()
  | pageId :: rest => do
    rebuildPage f pageId
    rebuildPages f rest

def rebuildIndexes (f : Faults) : EngineM Unit := do
  let e ← Call.get
  rebuildPages f e.store.allocatedPages

/-- `open`, on the file and the log that `e` leaves behind. -/
def reopen (f : Faults) (e : GraphStorageEngine) :
    Res (Except StorageError Unit × GraphStorageEngine) :=
  rebuildIndexes f
    { GraphStorageEngine.init with
      store := (e.store.crash.redo e.log).reconcileFromDisk
      log := e.log
      lastLsn := e.lastLsn }

end RGraph.Graph
