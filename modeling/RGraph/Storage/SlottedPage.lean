import RGraph.Lib.Fault
import RGraph.Storage.PageBytes

/-!
# Slotted pages (`storage/page.rs`)

Records grow from the front of the data area, and a directory of slots, four
bytes each, grows from the end of the page: slot 0 is the last four bytes of
the page, slot 1 the four before it. A slot has the offset and the length of
its record; the offset `0xFFFF` marks a deleted slot.

The buffer is modelled in two parts. `data` is everything after the 64-byte
header, so an offset of the source is an index into it. The header is a record
of its own: no operation writes into the first 64 bytes other than through
`header_mut`. Of its fields those are kept that these operations or the B+ tree
read.
-/

namespace RGraph.Storage

open RGraph.Lib

def headerSize : Nat := 64

def slotSize : Nat := 4

/-- The data area: what the records and the slot directory share. -/
def dataSize : Nat := pageSize - headerSize

/-- A quarter of a page; a longer record belongs in an overflow chain. -/
def maxInlineRecordLen : Nat := pageSize / 4

inductive PageType where
  | metaPage
  | bitmap
  | btreeInterior
  | btreeLeaf
  | slottedData
  | overflow
  deriving DecidableEq, Repr

structure PageHeader where
  pageLsn : Nat
  pageId : Nat
  freeSpaceOffset : Nat
  slotCount : Nat
  pageType : PageType
  deriving DecidableEq, Repr

structure Slot where
  offset : Nat
  length : Nat
  deriving DecidableEq, Repr

namespace Slot

def isDeleted (s : Slot) : Bool := s.offset == 0xFFFF

/-- Two `u16` in the machine's order. -/
def encode (s : Slot) : Bytes := natToLE 2 s.offset ++ natToLE 2 s.length

def decode (bs : Bytes) : Slot := ⟨leToNat (readAt bs 0 2), leToNat (readAt bs 2 2)⟩

end Slot

structure SlottedPage where
  header : PageHeader
  data : Bytes

namespace SlottedPage

/-- A blank page. -/
def init (pageId : Nat) (pageType : PageType) : SlottedPage :=
  ⟨⟨0, pageId, 0, 0, pageType⟩, List.replicate dataSize 0⟩

def setHeader (p : SlottedPage) (freeSpaceOffset slotCount : Nat) : SlottedPage :=
  { p with
    header := { p.header with
      freeSpaceOffset := freeSpaceOffset, slotCount := slotCount } }

/-- Where slot `idx` of a directory of `count` slots is. -/
def slotPos (count idx : Nat) : Nat := dataSize - count * slotSize + (count - idx - 1) * slotSize

def slot (p : SlottedPage) (idx : Nat) : Option Slot :=
  if idx < p.header.slotCount then
    some (Slot.decode (readAt p.data (slotPos p.header.slotCount idx) slotSize))
  else none

/-- Write through `slot_mut`. -/
def setSlot (p : SlottedPage) (idx : Nat) (s : Slot) : SlottedPage :=
  { p with data := writeAt p.data (slotPos p.header.slotCount idx) s.encode }

/-- The bytes between the records and the slot directory. -/
def available (p : SlottedPage) : Nat :=
  pageSize - (headerSize + p.header.freeSpaceOffset + p.header.slotCount * slotSize)

def read (p : SlottedPage) (idx : Nat) : Res (Option Bytes) :=
  match p.slot idx with
  | none => .ok none
  | some s =>
    if s.isDeleted then .ok none
    else if dataSize < s.offset + s.length then .error .panic
    else .ok (some (readAt p.data s.offset s.length))

/-- Mark a slot deleted. Its length stays, for best-fit reuse. -/
def delete (p : SlottedPage) (idx : Nat) : Bool × SlottedPage :=
  match p.slot idx with
  | none => (false, p)
  | some s =>
    if s.isDeleted then (false, p)
    else (true, p.setSlot idx { s with offset := 0xFFFF })

/-! ## Compaction -/

/-- The slots in use, in order. -/
def liveSlots (p : SlottedPage) : List Slot :=
  ((List.range p.header.slotCount).filterMap p.slot).filter fun s => !s.isDeleted

/-- The first pass: every live record goes right behind the one before it.
Returns the moves, the new slots and the new end of the records. -/
def compactPlan : Nat → List Slot → List (Slot × Nat) × List Slot × Nat
  | off, [] => ([], [], off)
  | off, s :: ss =>
    let (moves, slots, last) := compactPlan ((off + s.length) % 2 ^ 16) ss
    (if s.offset = off then moves else (s, off) :: moves, ⟨off, s.length⟩ :: slots, last)

/-- `copy_within`, once for each record that moves. -/
def applyMoves : List (Slot × Nat) → Bytes → Res Bytes
  | [], d => .ok d
  | (s, off) :: moves, d =>
    if dataSize < s.offset + s.length ∨ dataSize < off + s.length then
      .error .panic
    else applyMoves moves (writeAt d off (readAt d s.offset s.length))

/-- Move all live records to the front of the data area and rebuild the slot
directory. The new slots are written first to last from the low end of the
directory, where the slot with the highest index is. -/
def compact (p : SlottedPage) : Res SlottedPage := do
  let (moves, slots, last) := compactPlan 0 p.liveSlots
  let d ← applyMoves moves p.data
  let d := writeAt d (dataSize - slots.length * slotSize)
    (slots.flatMap Slot.encode)
  .ok ({ p with data := d }.setHeader last slots.length)

/-! ## Insertion -/

/-- One round of the search for a deleted slot that a record of length `len`
fits into: the best index so far with its length. -/
def bestFitStep (p : SlottedPage) (len : Nat) (best : Option (Nat × Nat))
    (i : Nat) : Option (Nat × Nat) :=
  match p.slot i with
  | some s =>
    if s.isDeleted ∧ len ≤ s.length ∧ ∀ b ∈ best, s.length < b.2 then
      some (i, s.length)
    else best
  | none => best

/-- The deleted slot with the smallest length that is at least `len`; of
several the first. -/
def bestFit (p : SlottedPage) (slotCount len : Nat) : Option Nat :=
  ((List.range slotCount).foldl (p.bestFitStep len) none).map Prod.fst

/-- Write a record at `freeOffset` and point a slot at it: a deleted slot that
is long enough, else a new one. -/
def place (p : SlottedPage) (record : Bytes) (slotCount freeOffset : Nat) :
    Res (Option Nat × SlottedPage) :=
  if dataSize < freeOffset + record.length then .error .panic
  else
    let free := (freeOffset + record.length) % 2 ^ 16
    let s : Slot := ⟨freeOffset, record.length⟩
    match p.bestFit slotCount record.length with
    | some idx =>
      let p := { p with data := writeAt p.data freeOffset record }
      .ok (some idx, (p.setSlot idx s).setHeader free p.header.slotCount)
    | none =>
      let p := { p with data := writeAt p.data freeOffset record }
      let p := p.setHeader free (p.header.slotCount + 1)
      .ok (some (p.header.slotCount - 1), p.setSlot (p.header.slotCount - 1) s)

/-- Insert a record; `none` if it does not fit. The offset and the slot count
are read before the compaction and not again after it. -/
def insert (p : SlottedPage) (record : Bytes) : Res (Option Nat × SlottedPage) :=
  if maxInlineRecordLen < record.length then .ok (none, p)
  else
    let slotCount := p.header.slotCount
    let freeOffset := p.header.freeSpaceOffset
    let needed := record.length + slotSize
    if p.available < needed then do
      let p ← p.compact
      if p.available < needed then .ok (none, p)
      else p.place record slotCount freeOffset
    else p.place record slotCount freeOffset

/-- Rewrite the directory, the slot with index `i` first. -/
def writeSlots (count : Nat) : Nat → List Slot → Bytes → Bytes
  | _, [], d => d
  | i, s :: ss, d => writeSlots count (i + 1) ss (writeAt d (slotPos count i) s.encode)

/-- Write a record at the free offset and give it the slot index `idx`; the
slots from there on move up by one. -/
def placeAt (p : SlottedPage) (idx : Nat) (record : Bytes) : Option Nat × SlottedPage :=
  let free := p.header.freeSpaceOffset
  let p := { p with data := writeAt p.data free record }
  let count := p.header.slotCount + 1
  let p := p.setHeader ((free + record.length) % 2 ^ 16) count
  let slots := (List.range (count - 1)).filterMap p.slot
  let pos := min idx slots.length
  let slots := slots.insertIdx pos ⟨free, record.length⟩
  (some pos, { p with data := writeSlots count 0 slots p.data })

/-- Insert a record at a slot index; `none` if it does not fit. -/
def insertAt (p : SlottedPage) (idx : Nat) (record : Bytes) : Res (Option Nat × SlottedPage) :=
  if maxInlineRecordLen < record.length then .ok (none, p)
  else
    let needed := record.length + slotSize
    if p.available < needed then do
      let p ← p.compact
      if p.available < needed then .ok (none, p)
      else .ok (p.placeAt idx record)
    else .ok (p.placeAt idx record)

end SlottedPage

/-! ## Calls -/

/-- A call that puts a record on a page or takes one off. -/
inductive SlotCall where
  | insert (record : Bytes)
  | insertAt (idx : Nat) (record : Bytes)
  | delete (idx : Nat)
  deriving DecidableEq

/-- The page after a call; one that panics leaves it. -/
def callStep (p : SlottedPage) : SlotCall → SlottedPage
  | .insert record =>
    match p.insert record with
    | .ok (_, q) => q
    | .error _ => p
  | .insertAt idx record =>
    match p.insertAt idx record with
    | .ok (_, q) => q
    | .error _ => p
  | .delete idx => (p.delete idx).2

end RGraph.Storage
