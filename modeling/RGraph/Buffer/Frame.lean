import Mathlib

/-!
# Frames of the buffer pool (`buffer/frame.rs`)

A frame is a page buffer with a descriptor of atomics. What the bytes in a
buffer are is said by two things only: the page they were read from, and the
LSNs of the modifications they contain.
-/

namespace RGraph.Buffer

abbrev PageId := Nat

abbrev FrameId := Nat

inductive FrameState where
  | empty
  | clean
  | dirty
  | flushing
  | loading
  deriving DecidableEq, Repr

/-- The bytes of a page. A buffer with no page in it, or with bytes that were
not read as a whole, is of page `0`. -/
structure PageImage where
  pageId : PageId
  lsns : List Nat
  deriving DecidableEq, Repr

def PageImage.zeroed : PageImage := ⟨0, []⟩

/-- `u64::MAX` -/
def noLsn : Nat := 2 ^ 64 - 1

structure FrameDescriptor where
  pageId : PageId
  pinCount : UInt16
  dirty : Bool
  clockRef : Bool
  lastLsn : Nat
  recLsn : Nat
  ioInflight : Bool
  state : FrameState
  deriving DecidableEq, Repr

namespace FrameDescriptor

def new : FrameDescriptor := ⟨0, 0, false, false, 0, noLsn, false, .empty⟩

def isPinned (d : FrameDescriptor) : Bool := 0 < d.pinCount

/-- `reset` writes every field, so nothing of the old descriptor is left. -/
def reset (_ : FrameDescriptor) : FrameDescriptor := new

/-- The hit path: count a pin and mark the frame as used. The count wraps. -/
def pin (d : FrameDescriptor) : FrameDescriptor :=
  { d with pinCount := d.pinCount + 1, clockRef := true }

/-- `unfix_page` -/
def unpin (d : FrameDescriptor) : FrameDescriptor :=
  { d with pinCount := if d.pinCount = 0 then 0 else d.pinCount - 1 }

def setDirty (d : FrameDescriptor) (lsn : Nat) : FrameDescriptor :=
  { d with
    dirty := true
    lastLsn := lsn
    recLsn := if d.recLsn = noLsn ∨ lsn < d.recLsn then lsn else d.recLsn
    state := .dirty }

/-- A frame for a page that is not read yet. -/
def reserve (d : FrameDescriptor) (pageId : PageId) : FrameDescriptor :=
  { d.reset with state := .loading, pageId := pageId, ioInflight := true }

/-- The descriptor after a write-back. -/
def markClean (d : FrameDescriptor) : FrameDescriptor :=
  { d with dirty := false, state := .clean, ioInflight := false, recLsn := noLsn }

end FrameDescriptor

structure Frame where
  desc : FrameDescriptor
  buf : PageImage
  deriving DecidableEq, Repr

namespace Frame

def new : Frame := ⟨.new, .zeroed⟩

/-- A change of the bytes through a guard, recorded with its LSN. -/
def modify (f : Frame) (lsn : Nat) : Frame :=
  ⟨f.desc.setDirty lsn, { f.buf with lsns := lsn :: f.buf.lsns }⟩

end Frame

/-- `PageGuard` -/
structure PageGuard where
  frameId : FrameId
  pageId : PageId
  deriving DecidableEq, Repr

/-- What a shard has for a page: the sentinel while it is loaded, then its
frame. -/
inductive Mapping where
  | loading
  | frame (id : FrameId)
  deriving DecidableEq, Repr

end RGraph.Buffer
