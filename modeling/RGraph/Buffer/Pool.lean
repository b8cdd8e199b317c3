import RGraph.Buffer.Frame

/-!
# The buffer pool (`buffer/pool.rs`)

Any number of threads call `fix_page`, each call a sequence of steps: a look
into a shard, one frame probed by a sweep, the removal of a mapping, the reset
of a frame, the reservation, the load, the publication. `Pc` is where a thread
is. What a step takes from outside is an input of it, `Io`: how its I/O ends
and whether the readahead tracker asks for a prefetch.

A page belongs to one shard and every access to it is under the lock of the
shard, so the 256 maps are one map here. Counters and the ghost queue, which no
decision depends on, are left out. A guard is listed from the moment on its pin
is counted.
-/

namespace RGraph.Buffer

/-- What a free frame is wanted for. A call of `fix_page` sweeps again and
again, up to a limit. A prefetch has the pages it still goes through and the
frames it has reserved, the latest first. -/
inductive Want where
  | fix (pageId : PageId) (sweeps : Nat)
  | prefetch (next : PageId) (left : Nat) (filled : List (FrameId × PageId))
  deriving DecidableEq, Repr

inductive Pc where
  | idle
  | lookup (pageId : PageId)
  /-- `wait_for_loading` -/
  | waiting (pageId : PageId)
  /-- The first pass of a sweep, at frame `start + i`. -/
  | scan (want : Want) (start i : Nat)
  /-- The second pass. -/
  | sweep (want : Want) (scanned : Nat)
  /-- A victim is found: its page is to be unmapped, then the frame reset. -/
  | unmap (want : Want) (frameId : FrameId)
  | evict (want : Want) (frameId : FrameId)
  /-- A sweep has returned a frame. -/
  | chosen (want : Want) (frameId : FrameId)
  | loading (pageId : PageId) (frameId : FrameId)
  | loaded (pageId : PageId) (frameId : FrameId) (ok : Bool)
  /-- `prefetch_range` at the next page of its range. -/
  | prefetch (next : PageId) (left : Nat) (filled : List (FrameId × PageId))
  | fill (todo filled : List (FrameId × PageId))
  | publish (todo : List (FrameId × PageId))
  deriving DecidableEq, Repr

inductive IoResult where
  | ok
  | failed
  | syncFailed
  deriving DecidableEq, Repr

structure Io where
  result : IoResult
  readahead : Option PageId
  deriving DecidableEq, Repr

/-- A page image written to the data file while the log was durable up to an
LSN. -/
structure PageWrite where
  pageId : PageId
  image : PageImage
  durable : Nat
  deriving DecidableEq, Repr

structure BufferPool where
  frameCount : Nat
  frame : FrameId → Frame
  shard : PageId → Option Mapping
  clockHand : Nat
  ioFailed : Bool
  /-- The pages of the data file. -/
  file : PageId → PageImage
  /-- `wal_durable_lsn`. The pool itself never reads it. -/
  durable : Nat
  /-- What was written to the data file, the latest first. -/
  writes : List PageWrite
  threads : Nat → Pc
  guards : List PageGuard

namespace BufferPool

/-- `new`, over a file in which every page is what it should be. -/
def new (frameCount : Nat) : BufferPool :=
  ⟨frameCount, fun _ => .new, fun _ => none, 0, false, fun p => ⟨p, []⟩, 0, [],
    fun _ => .idle, []⟩

def setFrame (s : BufferPool) (id : FrameId) (f : Frame) : BufferPool :=
  { s with frame := Function.update s.frame id f }

def setDesc (s : BufferPool) (id : FrameId) (d : FrameDescriptor) : BufferPool :=
  s.setFrame id { s.frame id with desc := d }

def map (s : BufferPool) (pageId : PageId) (m : Option Mapping) : BufferPool :=
  { s with shard := Function.update s.shard pageId m }

def goto (s : BufferPool) (t : Nat) (pc : Pc) : BufferPool :=
  { s with threads := Function.update s.threads t pc }

/-- Write the bytes of a frame to the place of a page in the data file. -/
def write (s : BufferPool) (pageId : PageId) (image : PageImage) : BufferPool :=
  { s with
    file := Function.update s.file pageId image
    writes := ⟨pageId, image, s.durable⟩ :: s.writes }

/-- Pin a mapped frame and return a guard. -/
def hit (s : BufferPool) (t : Nat) (id : FrameId) (pageId : PageId) : BufferPool :=
  { (s.setDesc id (s.frame id).desc.pin).goto t .idle with
    guards := ⟨id, pageId⟩ :: s.guards }

def maxSweeps : Nat := 100000

def maxPrefetchPages : Nat := 32

def startSweep (s : BufferPool) (t : Nat) (w : Want) : BufferPool :=
  s.goto t (.scan w s.clockHand 0)

/-- After a sweep that found nothing: `find_free_frame` sweeps again or gives
up, a prefetch goes on with the frames it has. -/
def noVictim (s : BufferPool) (t : Nat) : Want → BufferPool
  | .fix pageId sweeps =>
    if sweeps + 1 < maxSweeps then s.startSweep t (.fix pageId (sweeps + 1))
    else s.goto t .idle
  | .prefetch _ _ filled => s.goto t (.fill filled.reverse filled.reverse)

/-- `flush_single_frame` on a dirty victim. An I/O error before the sync
returns with the frame still in flight. -/
def flushSingleFrame (s : BufferPool) (id : FrameId) (io : IoResult) : Option BufferPool :=
  let f := s.frame id
  if f.desc.pageId = 0 then some s
  else if s.ioFailed then none
  else if f.desc.ioInflight ∨ f.desc.isPinned then some s
  else
    match io with
    | .failed => none
    | .syncFailed => none
    | .ok => some ((s.write f.desc.pageId f.buf).setDesc id f.desc.markClean)

/-- What is left behind by an error of it. -/
def flushFailed (s : BufferPool) (id : FrameId) (io : IoResult) : BufferPool :=
  let f := s.frame id
  if s.ioFailed then s
  else
    match io with
    | .ok => s
    | .failed => s.setDesc id { f.desc with ioInflight := true }
    | .syncFailed => { s.write f.desc.pageId f.buf with ioFailed := true }

/-- One frame of the second pass. -/
def probe (s : BufferPool) (t : Nat) (w : Want) (scanned : Nat) (io : IoResult) : BufferPool :=
  let id := s.clockHand
  let d := (s.frame id).desc
  let s := { s with clockHand := (id + 1) % s.frameCount }
  let next := Pc.sweep w (scanned + 1)
  if d.isPinned ∨ d.ioInflight then s.goto t next
  else
    match d.state with
    | .clean => s.goto t (.unmap w id)
    | .empty => s.goto t (.unmap w id)
    | .dirty =>
      if d.clockRef then (s.setDesc id { d with clockRef := false }).goto t next
      else
        match s.flushSingleFrame id io with
        | some s => s.goto t next
        | none => (s.flushFailed id io).goto t .idle
    | .loading => s.goto t next
    | .flushing => s.goto t next

/-- Unmap the page of a victim if the frame still owns it. -/
def unmap (s : BufferPool) (id : FrameId) : BufferPool :=
  let old := (s.frame id).desc.pageId
  if old ≠ 0 ∧ s.shard old = some (.frame id) then s.map old none else s

/-- The reservation of `fix_page`. -/
def reserve (s : BufferPool) (t : Nat) (pageId : PageId) (id : FrameId) : BufferPool :=
  let d := (s.frame id).desc
  match s.shard pageId with
  | some .loading => (s.setDesc id d.reset).goto t (.waiting pageId)
  | some (.frame other) => (s.setDesc id d.reset).hit t other pageId
  | none =>
    ((s.map pageId (some .loading)).setDesc id (d.reserve pageId)).goto t (.loading pageId id)

/-- Read a page into a reserved frame. -/
def load (s : BufferPool) (pageId : PageId) (id : FrameId) (ok : Bool) : BufferPool :=
  s.setFrame id
    { s.frame id with buf := if ok then s.file pageId else .zeroed }

/-- The publication of `fix_page`. -/
def publish (s : BufferPool) (t : Nat) (pageId : PageId) (id : FrameId)
    (readahead : Option PageId) : BufferPool :=
  let d := { (s.frame id).desc with
    ioInflight := false, state := .clean, pinCount := 1, clockRef := true }
  let s := { (s.setDesc id d).map pageId (some (.frame id)) with
    guards := ⟨id, pageId⟩ :: s.guards }
  match readahead with
  | none => s.goto t .idle
  | some start => s.goto t (.prefetch start maxPrefetchPages [])

def loadFailed (s : BufferPool) (t : Nat) (pageId : PageId) (id : FrameId) : BufferPool :=
  ((s.setDesc id (s.frame id).desc.reset).map pageId none).goto t .idle

/-- `prefetch_range`, one page of a range of `count` pages. -/
def rangeNext (s : BufferPool) (t count : Nat) (next : PageId) (left : Nat)
    (filled : List (FrameId × PageId)) : BufferPool :=
  if left = 0 ∨ min (max (s.frameCount / 2) 1) count ≤ filled.length then
    s.goto t (.fill filled.reverse filled.reverse)
  else if next = 0 ∨ (s.shard next).isSome then
    s.goto t (.prefetch (next + 1) (left - 1) filled)
  else s.startSweep t (.prefetch next left filled)

/-- The same in the readahead of `fix_page`. -/
def prefetchNext (s : BufferPool) (t : Nat) (next : PageId) (left : Nat)
    (filled : List (FrameId × PageId)) : BufferPool :=
  s.rangeNext t maxPrefetchPages next left filled

/-- A prefetched page is published if its bytes are those of the page and
nobody else has it. -/
def publishPrefetched (s : BufferPool) (pageId : PageId) (id : FrameId) (ok : Bool) : BufferPool :=
  let f := s.frame id
  if ok ∧ f.buf.pageId = pageId ∧ s.shard pageId = none then
    (s.setDesc id { f.desc with
      ioInflight := false, state := .clean, pinCount := 0,
      clockRef := false }).map pageId (some (.frame id))
  else s.setDesc id f.desc.reset

/-- One step of a thread. -/
def advance (s : BufferPool) (t : Nat) (io : Io) : BufferPool :=
  match s.threads t with
  | .idle => s
  | .lookup pageId =>
    match s.shard pageId with
    | some .loading => s.goto t (.waiting pageId)
    | some (.frame id) => s.hit t id pageId
    | none => s.startSweep t (.fix pageId 0)
  | .waiting pageId =>
    match s.shard pageId with
    | some .loading => s
    | some (.frame id) => s.hit t id pageId
    | none => s.goto t (.lookup pageId)
  | .scan w start i =>
    if i < s.frameCount then
      let id := (start + i) % s.frameCount
      let d := (s.frame id).desc
      if d.state = .empty ∧ ¬ d.ioInflight then
        { s with clockHand := id }.goto t (.chosen w id)
      else s.goto t (.scan w start (i + 1))
    else s.goto t (.sweep w 0)
  | .sweep w scanned =>
    if scanned < s.frameCount * 2 then s.probe t w scanned io.result
    else s.noVictim t w
  | .unmap w id => (s.unmap id).goto t (.evict w id)
  | .evict w id => (s.setDesc id (s.frame id).desc.reset).goto t (.chosen w id)
  | .chosen (.fix pageId _) id => s.reserve t pageId id
  | .chosen (.prefetch next left filled) id =>
    (s.setDesc id ((s.frame id).desc.reserve next)).goto t
      (.prefetch (next + 1) (left - 1) ((id, next) :: filled))
  | .loading pageId id =>
    (s.load pageId id (io.result = .ok)).goto t (.loaded pageId id (io.result = .ok))
  | .loaded pageId id ok =>
    if ok then s.publish t pageId id io.readahead
    else s.loadFailed t pageId id
  | .prefetch next left filled => s.prefetchNext t next left filled
  | .fill [] filled => s.goto t (.publish filled)
  | .fill ((id, pageId) :: todo) filled =>
    if io.result = .ok then
      (s.load pageId id true).goto t (.fill todo filled)
    else (s.load pageId id false).goto t .idle
  | .publish [] => s.goto t .idle
  | .publish ((id, pageId) :: todo) =>
    (s.publishPrefetched pageId id (io.result = .ok)).goto t (.publish todo)

end BufferPool

inductive PoolOp where
  /-- A thread calls `fix_page`. -/
  | fix (thread : Nat) (pageId : PageId)
  | advance (thread : Nat) (io : Io)
  /-- A guard changes its page; it waits while the frame is in flight. -/
  | modify (guard : PageGuard) (lsn : Nat)
  | drop (guard : PageGuard)
  deriving DecidableEq, Repr

namespace BufferPool

def step (s : BufferPool) : PoolOp → BufferPool
  | .fix t pageId =>
    if s.threads t = .idle ∧ pageId ≠ 0 then s.goto t (.lookup pageId) else s
  | .advance t io => s.advance t io
  | .modify g lsn =>
    let f := s.frame g.frameId
    if g ∈ s.guards ∧ ¬ f.desc.ioInflight then
      s.setFrame g.frameId (f.modify lsn)
    else s
  | .drop g =>
    if g ∈ s.guards then
      { s.setDesc g.frameId (s.frame g.frameId).desc.unpin with
        guards := s.guards.erase g }
    else s

end BufferPool

end RGraph.Buffer
