import RGraph.Buffer.Pool

/-!
# Publication in two steps (`buffer/pool.rs`)

`BufferPool` publishes a loaded frame in one step. The code stores `io_inflight`
and the state of the frame first, and a sweep reads both without a lock. So
here a thread releases its frame in one step, and in the next `fix_page` counts
its pin and maps the page, or `prefetch_range` maps the page unless another
thread has it. Every other step is one of `BufferPool`.
-/

namespace RGraph.Buffer

/-- Besides what `PoolOp` has, a thread calls `prefetch_range` on any range. A
call with a `count` of its own goes on to its next page by `page`. -/
inductive RangeOp where
  | pool (op : PoolOp)
  | call (thread : Nat) (start : PageId) (count : Nat)
  | page (thread count : Nat)
  deriving DecidableEq, Repr

namespace BufferPool

def rangeStep (s : BufferPool) : RangeOp → BufferPool
  | .pool op => s.step op
  | .call t start count =>
    if s.threads t = .idle then s.goto t (.prefetch start count []) else s
  | .page t count =>
    match s.threads t with
    | .prefetch next left filled => s.rangeNext t count next left filled
    | _ => s

/-- The first stores of a publication. -/
def release (s : BufferPool) (id : FrameId) : BufferPool :=
  s.setDesc id { (s.frame id).desc with ioInflight := false, state := .clean }

/-- What `fix_page` does with the frame after that. -/
def publishReleased (s : BufferPool) (t : Nat) (pageId : PageId) (id : FrameId)
    (readahead : Option PageId) : BufferPool :=
  let d := { (s.frame id).desc with pinCount := 1, clockRef := true }
  let s := { (s.setDesc id d).map pageId (some (.frame id)) with
    guards := ⟨id, pageId⟩ :: s.guards }
  match readahead with
  | none => s.goto t .idle
  | some start => s.goto t (.prefetch start maxPrefetchPages [])

/-- What `prefetch_range` does with it. -/
def mapReleased (s : BufferPool) (pageId : PageId) (id : FrameId) : BufferPool :=
  let d := (s.frame id).desc
  if s.shard pageId = none then
    (s.setDesc id { d with pinCount := 0, clockRef := false }).map pageId (some (.frame id))
  else s.setDesc id d.reset

end BufferPool

/-- The pool, and which threads have released a frame that they have not
published yet. -/
structure SplitPool where
  pool : BufferPool
  released : Nat → Bool

namespace SplitPool

def new (frameCount : Nat) : SplitPool := ⟨.new frameCount, fun _ => false⟩

def setReleased (s : SplitPool) (t : Nat) (pool : BufferPool) (released : Bool) : SplitPool :=
  ⟨pool, Function.update s.released t released⟩

def advance (s : SplitPool) (t : Nat) (io : Io) : SplitPool :=
  match s.pool.threads t with
  | .loaded pageId id true =>
    if s.released t then
      s.setReleased t (s.pool.publishReleased t pageId id io.readahead) false
    else s.setReleased t (s.pool.release id) true
  | .publish ((id, pageId) :: todo) =>
    let f := s.pool.frame id
    if s.released t then
      s.setReleased t ((s.pool.mapReleased pageId id).goto t (.publish todo)) false
    else if io.result = .ok ∧ f.buf.pageId = pageId then
      s.setReleased t (s.pool.release id) true
    else { s with pool := (s.pool.setDesc id f.desc.reset).goto t (.publish todo) }
  | _ => { s with pool := s.pool.advance t io }

def step (s : SplitPool) : RangeOp → SplitPool
  | .pool (.advance t io) => s.advance t io
  | op => { s with pool := s.pool.rangeStep op }

end SplitPool

end RGraph.Buffer
