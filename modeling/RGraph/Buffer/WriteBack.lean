import Mathlib.Data.List.Sort
import RGraph.Buffer.Pool

/-!
# Writing frames back (`buffer/flusher.rs`, `flush_all`)

Beside the threads that fix pages there are threads that write dirty frames to
the data file: the background flusher in rounds, and whoever calls `flush_all`
or `flush_single_frame`. Each goes through a list of frames that it found dirty
before, claims a frame by setting `io_inflight`, looks at the pin count, writes
and releases the frame; other threads run between any two of these.

The lists of candidates are inputs of the steps. They are read frame by frame
while the pool is in use, so any list is possible.
-/

namespace RGraph.Buffer

/-- A frame claimed for the page it held at that moment. -/
structure Pending where
  fid : FrameId
  pageId : PageId
  deriving DecidableEq, Repr

inductive FlushPc where
  | idle
  /-- `flush_single_frame` on one frame after the other. -/
  | single (todo : List FrameId)
  /-- `flush_batch` while it gathers, with the durable LSN of the round. -/
  | batch (durable : Nat) (todo : List FrameId) (pending : List Pending)
  /-- A frame is claimed and its pin count not read yet. -/
  | claimed (round : Option Nat) (p : Pending) (todo : List FrameId)
      (pending : List Pending)
  | write (round : Bool) (extent : List Pending) (rest : List (List Pending))
      (todo : List FrameId)
  /-- The descriptors of a written extent are to be updated. -/
  | finish (ok : Bool) (extent : List Pending) (rest : List (List Pending))
      (todo : List FrameId)
  /-- The frame is released and its `rec_lsn` is to be cleared. -/
  | clear (fid : FrameId) (extent : List Pending) (rest : List (List Pending))
      (todo : List FrameId)
  deriving DecidableEq, Repr

namespace FlushPc

/-- `MAX_BATCH_BYTES` in pages -/
def maxBatchPages : Nat := 512

/-- Group adjacent pages, the current group latest first. -/
def group (current : List Pending) (last : PageId) :
    List Pending → List (List Pending)
  | [] => [current.reverse]
  | p :: ps =>
    if p.pageId = last + 1 ∧ current.length + 1 ≤ maxBatchPages then
      group (p :: current) p.pageId ps
    else current.reverse :: group [p] p.pageId ps

/-- The extents of a batch in disk order. -/
def extents (pending : List Pending) : List (List Pending) :=
  match pending.insertionSort (·.pageId ≤ ·.pageId) with
  | [] => []
  | p :: ps => group [p] p.pageId ps

theorem flatten_group (current : List Pending) (last : PageId) (ps : List Pending) :
    (group current last ps).flatten = current.reverse ++ ps := by
  induction ps generalizing current last with
  | nil => simp [group]
  | cons p ps ih =>
    rw [group]
    split
    · rw [ih]; simp
    · rw [List.flatten_cons, ih]; simp

theorem flatten_extents (pending : List Pending) : (extents pending).flatten =
      pending.insertionSort (·.pageId ≤ ·.pageId) := by
  rw [extents]
  split
  · next h => rw [h]; rfl
  · next p ps h => rw [h, flatten_group]; rfl

/-- The next extent of the batch, or the next frame. -/
def next (rest : List (List Pending)) (todo : List FrameId) : FlushPc :=
  match rest with
  | [] => .single todo
  | extent :: rest => .write true extent rest todo

/-- On with the candidates after one that is not written. -/
def skip (round : Option Nat) (todo : List FrameId) (pending : List Pending) : FlushPc :=
  match round with
  | none => .single todo
  | some durable => .batch durable todo pending

end FlushPc

structure WriteBack where
  pool : BufferPool
  flushers : Nat → FlushPc

namespace WriteBack

def new (frameCount : Nat) : WriteBack := ⟨.new frameCount, fun _ => .idle⟩

def goto (s : WriteBack) (t : Nat) (pc : FlushPc) : WriteBack :=
  { s with flushers := Function.update s.flushers t pc }

def setDesc (s : WriteBack) (id : FrameId) (d : FrameDescriptor) : WriteBack :=
  { s with pool := s.pool.setDesc id d }

/-- Set `io_inflight` unless it is set. -/
def claim (s : WriteBack) (t : Nat) (id : FrameId) (round : Option Nat)
    (todo : List FrameId) (pending : List Pending) : WriteBack :=
  let d := (s.pool.frame id).desc
  if d.ioInflight then s.goto t (.skip round todo pending)
  else
    (s.setDesc id { d with ioInflight := true }).goto t
      (.claimed round ⟨id, d.pageId⟩ todo pending)

/-- `flush_single_frame` up to the claim. -/
def single (s : WriteBack) (t : Nat) (id : FrameId) (todo : List FrameId) : WriteBack :=
  if (s.pool.frame id).desc.pageId = 0 then s.goto t (.single todo)
  else if s.pool.ioFailed then s.goto t .idle
  else s.claim t id none todo []

/-- `flush_batch`, one candidate: the page has to be older than the log, by its
first change since it was clean. -/
def batch (s : WriteBack) (t : Nat) (durable : Nat) (id : FrameId)
    (todo : List FrameId) (pending : List Pending) : WriteBack :=
  let d := (s.pool.frame id).desc
  if d.pageId = 0 then s.goto t (.batch durable todo pending)
  else if d.recLsn ≠ noLsn ∧ durable < d.recLsn then
    s.goto t (.batch durable todo pending)
  else s.claim t id (some durable) todo pending

/-- Look at the pin count of a claimed frame. -/
def checkPin (s : WriteBack) (t : Nat) (round : Option Nat) (p : Pending)
    (todo : List FrameId) (pending : List Pending) : WriteBack :=
  let d := (s.pool.frame p.fid).desc
  if d.isPinned then
    (s.setDesc p.fid { d with ioInflight := false }).goto t
      (.skip round todo pending)
  else
    match round with
    | none => s.goto t (.write false [p] [] todo)
    | some durable => s.goto t (.batch durable todo (pending ++ [p]))

/-- Stage a batch in the double-write buffer and begin with its extents. -/
def stage (s : WriteBack) (t : Nat) (pending : List Pending) (io : IoResult) : WriteBack :=
  if io = .ok then s.goto t (.next (FlushPc.extents pending) [])
  else s.goto t (.finish false pending [] [])

/-- The bytes of the frames to the places of the pages. -/
def writePages (pool : BufferPool) (extent : List Pending) : BufferPool :=
  extent.foldl (fun pool p => pool.write p.pageId (pool.frame p.fid).buf) pool

/-- Write an extent. A single flush gives up with an error; if it was not the
sync that failed, the frame stays in flight. -/
def write (s : WriteBack) (t : Nat) (round : Bool) (extent : List Pending)
    (rest : List (List Pending)) (todo : List FrameId) (io : IoResult) : WriteBack :=
  let written := writePages s.pool extent
  if round ∧ s.pool.ioFailed then s.goto t (.finish false extent rest todo)
  else
    match io with
    | .ok => { s with pool := written }.goto t (.finish true extent rest todo)
    | .failed =>
      if round then s.goto t (.finish false extent rest todo)
      else s.goto t .idle
    | .syncFailed =>
      let s := { s with pool := { written with ioFailed := true } }
      if round then s.goto t (.finish false extent rest todo)
      else s.goto t (.finish false extent [] [])

/-- Release a frame, clean if it was written. -/
def finish (s : WriteBack) (t : Nat) (ok : Bool) (p : Pending)
    (extent : List Pending) (rest : List (List Pending)) (todo : List FrameId) : WriteBack :=
  let d := (s.pool.frame p.fid).desc
  if ok then
    (s.setDesc p.fid { d with
      dirty := false, state := .clean, ioInflight := false }).goto t
      (.clear p.fid extent rest todo)
  else
    (s.setDesc p.fid { d with ioInflight := false }).goto t
      (.finish ok extent rest todo)

/-- One step of a flushing thread. -/
def advance (s : WriteBack) (t : Nat) (io : IoResult) : WriteBack :=
  match s.flushers t with
  | .idle => s
  | .single [] => s.goto t .idle
  | .single (id :: todo) => s.single t id todo
  | .batch _ [] [] => s.goto t .idle
  | .batch _ [] (p :: pending) => s.stage t (p :: pending) io
  | .batch durable (id :: todo) pending => s.batch t durable id todo pending
  | .claimed round p todo pending => s.checkPin t round p todo pending
  | .write round extent rest todo => s.write t round extent rest todo io
  | .finish _ [] rest todo => s.goto t (.next rest todo)
  | .finish ok (p :: extent) rest todo => s.finish t ok p extent rest todo
  | .clear id extent rest todo =>
    (s.setDesc id { (s.pool.frame id).desc with recLsn := noLsn }).goto t
      (.finish true extent rest todo)

end WriteBack

inductive WriteBackOp where
  | pool (op : PoolOp)
  /-- The log is flushed up to an LSN. -/
  | walFlush (lsn : Nat)
  /-- `flush_all`, or `flush_single_frame` on some frames. -/
  | flushAll (thread : Nat) (candidates : List FrameId)
  /-- A round of the background flusher. -/
  | flushRound (thread : Nat) (candidates : List FrameId)
  | advance (thread : Nat) (io : IoResult)
  deriving DecidableEq, Repr

namespace WriteBack

def step (s : WriteBack) : WriteBackOp → WriteBack
  | .pool op => { s with pool := s.pool.step op }
  | .walFlush lsn =>
    { s with pool := { s.pool with durable := max s.pool.durable lsn } }
  | .flushAll t candidates =>
    if s.flushers t = .idle then s.goto t (.single candidates) else s
  | .flushRound t candidates =>
    if s.flushers t = .idle ∧ ¬ s.pool.ioFailed then
      s.goto t (.batch s.pool.durable candidates [])
    else s
  | .advance t io => s.advance t io

end WriteBack

/-! ## `flush_all` as a whole

`flush_all` reads the candidates once and writes them one after the other. Here
a call of it is one step, between steps of the threads that fix pages and of the
background flusher, which claims frames and writes them back later. -/

namespace BufferPool

def dirtyCandidates (s : BufferPool) : List FrameId :=
  (List.range s.frameCount).filter fun id =>
    let d := (s.frame id).desc
    d.state = .dirty ∧ ¬ d.isPinned ∧ ¬ d.ioInflight

/-- `flush_single_frame` on one frame after the other, up to an error. -/
def flushFrames (io : FrameId → IoResult) :
    BufferPool → List FrameId → BufferPool × Bool
  | s, [] => (s, true)
  | s, id :: todo =>
    match s.flushSingleFrame id (io id) with
    | some s' => flushFrames io s' todo
    | none => (s.flushFailed id (io id), false)

/-- `flush_all` and whether it returns `Ok`. -/
def flushAll (s : BufferPool) (io : FrameId → IoResult) : BufferPool × Bool :=
  flushFrames io s s.dirtyCandidates

end BufferPool

/-- The pool and the frames that the flusher has claimed. -/
structure FlushRun where
  pool : BufferPool
  claimed : List Pending

inductive FlushOp where
  | pool (op : PoolOp)
  /-- `flush_batch` claims a candidate, with the durable LSN of its round. -/
  | claim (id : FrameId) (durable : Nat)
  /-- `flush_batch` writes a claimed frame and releases it. With a result other
  than `ok` it only releases it: the frame is pinned, or the write fails. -/
  | writeBack (p : Pending) (io : IoResult)
  | flushAll (io : FrameId → IoResult)

namespace FlushRun

def new (frameCount : Nat) : FlushRun := ⟨.new frameCount, []⟩

def claim (s : FlushRun) (id : FrameId) (durable : Nat) : FlushRun :=
  let d := (s.pool.frame id).desc
  if d.pageId = 0 ∨ d.recLsn ≠ noLsn ∧ durable < d.recLsn ∨ d.ioInflight then s
  else ⟨s.pool.setDesc id { d with ioInflight := true }, ⟨id, d.pageId⟩ :: s.claimed⟩

def writeBack (s : FlushRun) (p : Pending) (io : IoResult) : FlushRun :=
  let f := s.pool.frame p.fid
  let released := { f.desc with ioInflight := false }
  let written := s.pool.write p.pageId f.buf
  if p ∉ s.claimed then s
  else if s.pool.ioFailed then ⟨s.pool.setDesc p.fid released, s.claimed.erase p⟩
  else
    match io with
    | .ok => ⟨written.setDesc p.fid { released with
        dirty := false, state := .clean, recLsn := noLsn }, s.claimed.erase p⟩
    | .failed => ⟨s.pool.setDesc p.fid released, s.claimed.erase p⟩
    | .syncFailed =>
      ⟨{ written with ioFailed := true }.setDesc p.fid released, s.claimed.erase p⟩

def step (s : FlushRun) : FlushOp → FlushRun
  | .pool op => { s with pool := s.pool.step op }
  | .claim id durable => s.claim id durable
  | .writeBack p io => s.writeBack p io
  | .flushAll io => { s with pool := (s.pool.flushAll io).1 }

end FlushRun

end RGraph.Buffer
