import RGraph.Storage.SlottedPage

/-!
# B+ tree pages (`index/page.rs`)

A slotted page whose data area starts with a 32-byte header of its own. The
header is bytes of the data area like any other: the slotted page knows nothing
of it, and it stays intact only while no record is written below offset 32.
-/

namespace RGraph.Index

open RGraph.Lib RGraph.Storage

abbrev PageId := Nat

def btreeHeaderSize : Nat := 32

/-- The header in the order of its fields; integers in the machine's order. -/
structure BTreeHeader where
  siblingPrev : PageId
  siblingNext : PageId
  rightmostChild : PageId
  keyCount : Nat
  commonPrefixLen : Nat
  level : Nat
  reserved : Bytes
  deriving DecidableEq, Repr

namespace BTreeHeader

def new (level : Nat) : BTreeHeader := ⟨0, 0, 0, 0, 0, level, [0, 0, 0]⟩

def encode (h : BTreeHeader) : Bytes :=
  natToLE 8 h.siblingPrev ++ (natToLE 8 h.siblingNext ++
    (natToLE 8 h.rightmostChild ++ (natToLE 2 h.keyCount ++
      (natToLE 2 h.commonPrefixLen ++ (natToLE 1 h.level ++ h.reserved)))))

def decode (bs : Bytes) : BTreeHeader :=
  { siblingPrev := leToNat (readAt bs 0 8)
    siblingNext := leToNat (readAt bs 8 8)
    rightmostChild := leToNat (readAt bs 16 8)
    keyCount := leToNat (readAt bs 24 2)
    commonPrefixLen := leToNat (readAt bs 26 2)
    level := leToNat (readAt bs 28 1)
    reserved := readAt bs 29 3 }

end BTreeHeader

structure BTreePage where
  inner : SlottedPage

namespace BTreePage

def btreeHeader (p : BTreePage) : BTreeHeader :=
  BTreeHeader.decode (readAt p.inner.data 0 btreeHeaderSize)

def writeBtreeHeader (p : BTreePage) (h : BTreeHeader) : BTreePage :=
  ⟨{ p.inner with data := writeAt p.inner.data 0 h.encode }⟩

/-- A page of the given type with nothing but the two headers. -/
def blank (pageId : PageId) (pageType : PageType) (h : BTreeHeader) : BTreePage :=
  let p : BTreePage := ⟨SlottedPage.init pageId pageType⟩
  let p := p.writeBtreeHeader h
  ⟨p.inner.setHeader btreeHeaderSize p.inner.header.slotCount⟩

def newLeaf (pageId : PageId) : BTreePage := blank pageId .btreeLeaf (BTreeHeader.new 0)

def newBranch (pageId : PageId) (level : Nat) : BTreePage :=
  blank pageId .btreeInterior (BTreeHeader.new level)

def pageId (p : BTreePage) : PageId := p.inner.header.pageId

def pageLsn (p : BTreePage) : Nat := p.inner.header.pageLsn

def setPageLsn (p : BTreePage) (lsn : Nat) : BTreePage :=
  ⟨{ p.inner with header := { p.inner.header with pageLsn := lsn } }⟩

def isLeaf (p : BTreePage) : Bool := p.inner.header.pageType == .btreeLeaf

def isBranch (p : BTreePage) : Bool := p.inner.header.pageType == .btreeInterior

def keyCount (p : BTreePage) : Nat := p.btreeHeader.keyCount

def slotCount (p : BTreePage) : Nat := p.inner.header.slotCount

/-- The raw record in slot `idx`. -/
def key (p : BTreePage) (idx : Nat) : Res (Option Bytes) := p.inner.read idx

/-- The page id at the end of a branch record. -/
def childPointer (p : BTreePage) (idx : Nat) : Res (Option PageId) := do
  match ← p.inner.read idx with
  | none => .ok none
  | some record =>
    if record.length < 8 then .error .panic
    else .ok (some (beToNat (record.drop (record.length - 8))))

/-- A branch record without its page id. -/
def separatorKey (p : BTreePage) (idx : Nat) : Res (Option Bytes) := do
  match ← p.inner.read idx with
  | none => .ok none
  | some record => .ok (some (record.take (record.length - 8)))

/-- What `insert_raw` and `insert_raw_at` do after the slotted page: count the
key. -/
def counted : Option Nat × SlottedPage → Option Nat × BTreePage
  | (none, inner) => (none, ⟨inner⟩)
  | (some idx, inner) =>
    let p : BTreePage := ⟨inner⟩
    let bh := p.btreeHeader
    (some idx, p.writeBtreeHeader { bh with keyCount := (bh.keyCount + 1) % 2 ^ 16 })

def insertRaw (p : BTreePage) (record : Bytes) :
    Res (Option Nat × BTreePage) := do
  let r ← p.inner.insert record
  .ok (counted r)

def insertRawAt (p : BTreePage) (idx : Nat) (record : Bytes) :
    Res (Option Nat × BTreePage) := do
  let r ← p.inner.insertAt idx record
  .ok (counted r)

def setSiblings (p : BTreePage) (prev next : PageId) : BTreePage :=
  p.writeBtreeHeader
    { p.btreeHeader with siblingPrev := prev, siblingNext := next }

def setRightmostChild (p : BTreePage) (child : PageId) : BTreePage :=
  p.writeBtreeHeader { p.btreeHeader with rightmostChild := child }

/-- The record fits without a compaction of the slotted page. -/
def hasRoomFor (p : BTreePage) (recordLen : Nat) : Bool := recordLen + slotSize ≤ p.inner.available

/-- The records in the slots `i` to `i + n`, deleted ones left out. -/
def records (p : BTreePage) : Nat → Nat → Res (List Bytes)
  | _, 0 => .ok []
  | i, n + 1 => do
    let record ← p.key i
    let rest ← p.records (i + 1) n
    .ok (record.toList ++ rest)

/-- Insert the records one after another, each as the last; a record that
does not fit is a failed assertion. -/
def reinsert : Nat → List Bytes → SlottedPage → Res SlottedPage
  | _, [], inner => .ok inner
  | idx, record :: records, inner => do
    let (result, inner) ← inner.insertAt idx record
    if result.isSome then reinsert (idx + 1) records inner
    else .error .panic

/-- Rebuild the page from its live records, with both headers kept. -/
def compact (p : BTreePage) : Res BTreePage := do
  let records ← p.records 0 p.slotCount
  let pageType := if p.isLeaf then PageType.btreeLeaf else .btreeInterior
  let fresh := (blank p.pageId pageType p.btreeHeader).setPageLsn p.pageLsn
  let inner ← reinsert 0 records fresh.inner
  .ok ⟨inner⟩

/-- Delete the record in slot `idx`, and compact at once so that the slots
stay in step with the key count. -/
def delete (p : BTreePage) (idx : Nat) : Res (Bool × BTreePage) := do
  let (deleted, inner) := p.inner.delete idx
  let p : BTreePage := ⟨inner⟩
  if deleted then
    let bh := p.btreeHeader
    let p := p.writeBtreeHeader { bh with keyCount := bh.keyCount - 1 }
    let p ← p.compact
    .ok (true, p)
  else .ok (false, p)

end BTreePage

end RGraph.Index
