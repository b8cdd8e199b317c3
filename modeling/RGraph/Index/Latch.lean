import Mathlib.Data.List.Count
import Mathlib.Logic.Function.Basic
import RGraph.Index.Page

/-!
# Page latches (`index/latch.rs`)

One table of latch entries under one mutex. An entry does not say who holds the
latch: it counts the readers and has a flag for a writer and one for an
intention holder. Every call works under the mutex, so one call is one step. A
call of `latch` that cannot acquire waits for a release and then looks again;
each look is a step of its own here.
-/

namespace RGraph.Index

inductive LatchMode where
  | shared
  | exclusive
  | intention
  deriving DecidableEq, Repr

/-- `readers` is a `u32` and `version` a `u64`; both wrap. -/
structure LatchEntry where
  readers : Nat
  writer : Bool
  intention : Bool
  version : Nat
  deriving DecidableEq, Repr

namespace LatchEntry

def new : LatchEntry := ⟨0, false, false, 0⟩

/-- Nobody holds it and no mutation was recorded. -/
def isIdle (e : LatchEntry) : Bool := e.readers == 0 && !e.writer && !e.intention && e.version == 0

def canAcquire (e : LatchEntry) : LatchMode → Bool
  | .shared => !e.writer
  | .exclusive => e.readers == 0 && !e.writer && !e.intention
  | .intention => !e.writer

def acquire (e : LatchEntry) : LatchMode → LatchEntry
  | .shared => { e with readers := (e.readers + 1) % 2 ^ 32 }
  | .exclusive => { e with writer := true }
  | .intention => { e with intention := true }

def release (e : LatchEntry) : LatchMode → LatchEntry
  | .shared => if 0 < e.readers then { e with readers := e.readers - 1 } else e
  | .exclusive =>
    { e with writer := false, version := (e.version + 1) % 2 ^ 64 }
  | .intention => { e with intention := false }

end LatchEntry

abbrev LatchTable := PageId → Option LatchEntry

namespace LatchTable

def new : LatchTable := fun _ => none

/-- What the table says of a page; a page without an entry is not held. -/
def entry (t : LatchTable) (pageId : PageId) : LatchEntry := (t pageId).getD .new

/-- One look of `latch` at the table, and whether it acquired. -/
def latch (t : LatchTable) (pageId : PageId) (mode : LatchMode) : Bool × LatchTable :=
  let e := t.entry pageId
  if e.canAcquire mode then
    (true, Function.update t pageId (some (e.acquire mode)))
  else (false, Function.update t pageId (some e))

def release (t : LatchTable) (pageId : PageId) (mode : LatchMode) : LatchTable :=
  match t pageId with
  | none => t
  | some e =>
    let e := e.release mode
    Function.update t pageId (if e.isIdle then none else some e)

end LatchTable

/-! ## Guards -/

structure LatchGuard where
  thread : Nat
  pageId : PageId
  mode : LatchMode
  deriving DecidableEq, Repr

/-- The table and the guards that have not been dropped. -/
structure LatchCoupling where
  table : LatchTable
  guards : List LatchGuard

def LatchCoupling.new : LatchCoupling := ⟨.new, []⟩

inductive LatchEvent where
  | latch (thread : Nat) (pageId : PageId) (mode : LatchMode)
  | drop (guard : LatchGuard)
  deriving DecidableEq, Repr

def latchStep (s : LatchCoupling) : LatchEvent → LatchCoupling
  | .latch thread pageId mode =>
    let (acquired, table) := s.table.latch pageId mode
    ⟨table, if acquired then ⟨thread, pageId, mode⟩ :: s.guards
      else s.guards⟩
  | .drop guard =>
    if guard ∈ s.guards then
      ⟨s.table.release guard.pageId guard.mode, s.guards.erase guard⟩
    else s

end RGraph.Index
