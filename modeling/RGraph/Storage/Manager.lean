import RGraph.Storage.Meta

/-!
# The page manager

`storage/bitmap.rs` and the allocator of `storage/manager.rs`. The data area
of a bitmap page is modelled by the positions of its one bits. The free cache
is a `Vec` used as a stack; its top is the head of the list here.

On disk a bitmap page is kept under the slot it tracks, with the page id its
header names. A bitmap that was read from a blank page has the header of a
blank page, and so names page 0; `sync_bitmaps` writes it there.
-/

namespace RGraph.Storage

open RGraph.Lib

/-- The superblocks are pages 0 and 1. -/
def firstBitmapPageId : Nat := 2

def firstDataPageId : Nat := 3

def minFileSize : Nat := firstDataPageId * pageSize

/-- The last page that ends within `u64`. -/
def maxAddressablePageId : Nat := (2 ^ 64 - 1) / pageSize - 1

def cacheBatch : Nat := 64

/-! ## Bitmap pages -/

/-- One bit a page, after the header. -/
def pagesPerBitmap : Nat := (pageSize - 64) * 8

/-- The bits count from the first page it tracks. -/
structure BitmapPage where
  filePageId : Nat
  bitmapSlot : Nat
  ones : List Nat
  deriving DecidableEq, Repr

namespace BitmapPage

def new (filePageId : Nat) (bitmapSlot : Nat) : BitmapPage := ⟨filePageId, bitmapSlot, []⟩

/-- The first page it tracks. -/
def basePageId (b : BitmapPage) : Nat := b.bitmapSlot * pagesPerBitmap

def localIndex (b : BitmapPage) (pid : Nat) : Nat := pid - b.basePageId

def isSet (b : BitmapPage) (pid : Nat) : Bool := b.ones.contains (b.localIndex pid)

def allocate (b : BitmapPage) (pid : Nat) : BitmapPage :=
  { b with ones := b.ones.insert (b.localIndex pid) }

def free (b : BitmapPage) (pid : Nat) : BitmapPage :=
  { b with ones := b.ones.filter (· != b.localIndex pid) }

end BitmapPage

/-- How many track the pages below the mark. -/
def numBitmapPages (nextFreePageId : Nat) : Nat :=
  if nextFreePageId = 0 then 1
  else (nextFreePageId + pagesPerBitmap - 1) / pagesPerBitmap

/-- A bitmap is the first page it tracks, but for slot 0. -/
def bitmapPhysicalPageId (slot : Nat) : Nat :=
  if slot = 0 then firstBitmapPageId else slot * pagesPerBitmap

def isBitmapPage (pid : Nat) : Bool :=
  pid == firstBitmapPageId || (pid != 0 && pid % pagesPerBitmap == 0)

/-- The pages the allocator never hands out. -/
def isReserved (pid : Nat) : Bool := pid < firstDataPageId || isBitmapPage pid

/-! ## The allocator -/

/-- What is on disk, in memory, and free pages at hand. -/
structure PageManager where
  superblock : Superblock
  bitmaps : List BitmapPage
  freeCache : List Nat
  deriving DecidableEq

namespace PageManager

/-- A new file: two superblocks and a bitmap. -/
def init (crc : Crc32c) (pageSize : Nat) : PageManager where
  superblock := { Superblock.new pageSize with
    totalPageCount := firstDataPageId
    freePageCount := 0
    nextFreePageId := firstDataPageId }.updateChecksum crc
  bitmaps := [((BitmapPage.new firstBitmapPageId 0).allocate 0).allocate 1
    |>.allocate firstBitmapPageId]
  freeCache := []

/-- One more bitmap, which takes its own page. -/
def pushBitmap (pm : PageManager) : PageManager :=
  let newSlot := pm.bitmaps.length
  let phys := bitmapPhysicalPageId newSlot
  let bmp := (BitmapPage.new phys newSlot).allocate phys
  let bmp := if newSlot = 0 then (bmp.allocate 0).allocate 1 else bmp
  { pm with bitmaps := pm.bitmaps ++ [bmp] }

def pushBitmaps : Nat → PageManager → PageManager
  | 0, pm => pm
  | n + 1, pm => pushBitmaps n pm.pushBitmap

/-- The bitmaps up to `slot`. -/
def ensureBitmap (pm : PageManager) (slot : Nat) : PageManager :=
  pushBitmaps (slot + 1 - pm.bitmaps.length) pm

def markAllocated (pm : PageManager) (pid : Nat) : PageManager :=
  { pm with
    bitmaps := pm.bitmaps.modify (pid / pagesPerBitmap) (·.allocate pid) }

def allocationError : String :=
  "page allocation exceeded the addressable range " ++
  s!"(max page id {maxAddressablePageId})"

/-- The loop that extends the file, skipping bitmap pages. It cannot go round
more often than there are page ids left, which is the fuel. -/
def extend : Nat → PageManager → Except String Nat × PageManager
  | 0, pm => (.error allocationError, pm)
  | fuel + 1, pm =>
    let pid := pm.superblock.nextFreePageId
    if pid > maxAddressablePageId then (.error allocationError, pm)
    else
      let pm := { pm with superblock := { pm.superblock with
        nextFreePageId := pm.superblock.nextFreePageId + 1
        totalPageCount := pm.superblock.totalPageCount + 1 } }
      let pm := (pm.ensureBitmap (pid / pagesPerBitmap)).markAllocated pid
      if isBitmapPage pid then extend fuel pm else (.ok pid, pm)

/-- A page of the cache, or a new one. -/
def tryAllocatePage (pm : PageManager) : Except String Nat × PageManager :=
  match pm.freeCache with
  | pid :: rest =>
    let sb := { pm.superblock with
      freePageCount := pm.superblock.freePageCount - 1 }
    (.ok pid, ({ pm with superblock := sb, freeCache := rest }).markAllocated pid)
  | [] => extend (maxAddressablePageId + 2 - pm.superblock.nextFreePageId) pm

def isSet (pm : PageManager) (pid : Nat) : Bool :=
  match pm.bitmaps[pid / pagesPerBitmap]? with
  | some b => b.isSet pid
  | none => false

/-- Reserved pages and free ones stay as they are. -/
def freePage (pm : PageManager) (pid : Nat) : PageManager :=
  if isReserved pid then pm
  else if !pm.isSet pid then pm
  else
    { superblock := { pm.superblock with
        freePageCount := pm.superblock.freePageCount + 1 }
      bitmaps := pm.bitmaps.modify (pid / pagesPerBitmap) (·.free pid)
      freeCache := pid :: pm.freeCache }

/-! ### Rebuilding the cache -/

/-- The inner loop of `rebuild_cache`, with `n` bits to go from bit `i`. -/
def scanBitmap (b : BitmapPage) : Nat → Nat → List Nat → List Nat
  | 0, _, cache => cache
  | n + 1, i, cache =>
    if cache.length ≥ cacheBatch then cache
    else
      let pid := b.basePageId + i
      if isReserved pid || b.isSet pid then scanBitmap b n (i + 1) cache
      else scanBitmap b n (i + 1) (pid :: cache)

def rebuildCache (bitmaps : List BitmapPage) : List Nat :=
  bitmaps.foldl (fun cache b => scanBitmap b pagesPerBitmap 0 cache) []

def openMulti (sb : Superblock) (bitmaps : List BitmapPage) : PageManager :=
  ⟨sb, bitmaps, rebuildCache bitmaps⟩

end PageManager

/-! ## The data file -/

/-- What `open` finds. -/
structure DataFile where
  fileLen : Nat
  primary : Superblock
  mirror : Superblock
  /-- What is in the page that stores the bitmap of a slot. -/
  bitmaps : Nat → Nat × List Nat
  pages : Nat → Bytes

namespace DataFile

def blank : DataFile where
  fileLen := minFileSize
  primary := Superblock.zero
  mirror := Superblock.zero
  bitmaps := fun _ => (0, [])
  pages := fun _ => List.replicate pageSize 0

def readBitmap (d : DataFile) (slot : Nat) : BitmapPage :=
  ⟨(d.bitmaps slot).1, slot, (d.bitmaps slot).2⟩

/-- A bitmap written over page 0 leaves a block without the magic there. -/
def writeBitmap (d : DataFile) (b : BitmapPage) : DataFile :=
  if b.filePageId = 0 then { d with primary := Superblock.zero }
  else
    { d with
      bitmaps := fun slot =>
        if slot = b.bitmapSlot then (b.filePageId, b.ones) else d.bitmaps slot
      fileLen := max d.fileLen (b.filePageId * pageSize + pageSize) }

/-- What a flush of a data page leaves; the ids of other pages are no ids of
data pages. -/
def writeData (crc : Crc32c) (d : DataFile) (pid : Nat) (buf : Bytes) : DataFile :=
  if isReserved pid then d
  else
    { d with
      pages := fun p =>
        if p = pid then updateChecksumBytes crc buf else d.pages p
      fileLen := max d.fileLen (pid * pageSize + pageSize) }

def slotCount (page : Bytes) : Nat := leToNat (readAt page 34 2)

/-- What `reconcile_from_disk` counts as a page in use. -/
def inUse (crc : Crc32c) (d : DataFile) (pid : Nat) : Bool :=
  !isBitmapPage pid && verifyChecksumBytes crc (d.pages pid) && slotCount (d.pages pid) > 0

end DataFile

namespace PageManager

/-- The mirror goes first. -/
def syncSuperblock (crc : Crc32c) (pm : PageManager) (d : DataFile) : PageManager × DataFile :=
  ({ pm with superblock := pm.superblock.afterSync }, { d with
      mirror := pm.superblock.mirrorImage crc
      primary := pm.superblock.primaryImage crc })

def syncBitmap (pm : PageManager) (d : DataFile) : DataFile :=
  match pm.bitmaps with
  | b :: _ => d.writeBitmap b
  | [] => d

def syncBitmaps (pm : PageManager) (d : DataFile) : DataFile :=
  pm.bitmaps.foldl DataFile.writeBitmap d

/-- The part of the engine's `open` that builds the page manager. -/
def openFile (crc : Crc32c) (d : DataFile) : Except LoadError PageManager :=
  match loadSuperblock crc d.fileLen d.primary d.mirror with
  | .error e => .error e
  | .ok sb =>
    let count := max (numBitmapPages sb.nextFreePageId) 1
    .ok (openMulti sb ((List.range count).map d.readBitmap))

/-- The scan of `reconcile_from_disk`, with `n` pages to go from `pid`. -/
def reconcileLoop (crc : Crc32c) (d : DataFile) :
    Nat → Nat → PageManager → Nat → PageManager × Nat
  | 0, _, pm, maxInUse => (pm, maxInUse)
  | n + 1, pid, pm, maxInUse =>
    if d.inUse crc pid then
      reconcileLoop crc d n (pid + 1)
        ((pm.ensureBitmap (pid / pagesPerBitmap)).markAllocated pid)
        (if pid > maxInUse then pid else maxInUse)
    else reconcileLoop crc d n (pid + 1) pm maxInUse

/-- The superblock after the scan: the mark and the page count only rise. -/
def raiseMark (sb : Superblock) (maxInUse highWater : Nat) : Superblock :=
  let sb := if maxInUse + 1 > sb.nextFreePageId then
    { sb with nextFreePageId := maxInUse + 1 } else sb
  if highWater > sb.totalPageCount then
    { sb with totalPageCount := highWater } else sb

/-- Pages in use that no bitmap has are taken. -/
def reconcileFromDisk (crc : Crc32c) (d : DataFile) (pm : PageManager) : PageManager :=
  let highWater := d.fileLen / pageSize
  let (pm, maxInUse) := reconcileLoop crc d (highWater - firstDataPageId)
    firstDataPageId pm (pm.superblock.nextFreePageId - 1)
  { pm with superblock := raiseMark pm.superblock maxInUse highWater }

end PageManager

end RGraph.Storage
