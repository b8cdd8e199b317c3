import Mathlib.Data.Fin.VecNotation
import Mathlib.Logic.Function.Basic

/-!
# The I/O scheduler (`runtime/scheduler.rs`)

The lanes are bounded channels of a library. A full one only delays the sender,
so `send` is the moment a request gets in. What a request does leaves the lanes
alone.
-/

namespace RGraph.Runtime

variable {α C : Type}

/-- The calls on a channel `C` of requests, and what is waiting in it, the
oldest first. -/
structure Channel (α C : Type) where
  empty : C
  send : C → α → C
  tryRecv : C → Option (α × C)
  queued : C → List α

/-- What the library promises: a receive takes the oldest request, if there is
one. -/
structure Channel.Fifo (ch : Channel α C) : Prop where
  empty : ch.queued ch.empty = []
  send : ∀ c req, ch.queued (ch.send c req) = ch.queued c ++ [req]
  none : ∀ c, ch.tryRecv c = none ↔ ch.queued c = []
  some : ∀ c req rest, ch.tryRecv c = some (req, rest) → ch.queued c = req :: ch.queued rest

def LANE_WEIGHTS : Fin 4 → Nat := ![8, 4, 2, 1]

/-- Where the worker is in its loop. -/
inductive Worker where
  | top
  | drain (lane : Fin 4) (budget : Nat) (served : Bool)
  | blocked
  | stopped
  deriving DecidableEq, Repr

structure Scheduler (C : Type) where
  lanes : Fin 4 → C
  shutdown : Bool
  worker : Worker

inductive Action (α : Type) where
  | send (lane : Fin 4) (req : α)
  | work
  | timeout
  | stop
  deriving DecidableEq

/-- The next lane of the cycle, or its end. -/
def advance (lane : Fin 4) (served : Bool) : Worker :=
  if h : lane.val + 1 < 4 then
    .drain ⟨lane.val + 1, h⟩ (LANE_WEIGHTS ⟨lane.val + 1, h⟩) served
  else if served then .top else .blocked

namespace Scheduler

variable (ch : Channel α C)

def init : Scheduler C := ⟨fun _ => ch.empty, false, .top⟩

/-- `try_recv`, with where the worker goes on a request and without one. -/
def recv (s : Scheduler C) (lane : Fin 4) (taken empty : Worker) :
    Option (Fin 4 × α) × Scheduler C :=
  match ch.tryRecv (s.lanes lane) with
  | none => (none, { s with worker := empty })
  | some (req, rest) => (some (lane, req),
      { s with lanes := Function.update s.lanes lane rest, worker := taken })

/-- One action, with the request it starts. -/
def step (s : Scheduler C) : Action α → Option (Fin 4 × α) × Scheduler C
  | .send lane req => (none, { s with
      lanes := Function.update s.lanes lane (ch.send (s.lanes lane) req) })
  | .stop => (none, { s with shutdown := true })
  | .timeout =>
    if s.worker = .blocked then (none, { s with worker := .top })
    else (none, s)
  | .work =>
    match s.worker with
    | .top =>
      if s.shutdown then (none, { s with worker := .stopped })
      else (none, { s with worker := .drain 0 (LANE_WEIGHTS 0) false })
    | .drain lane 0 served => (none, { s with worker := advance lane served })
    | .drain lane (n + 1) served => s.recv ch lane (.drain lane n true) (advance lane served)
    -- until a request comes or the time is over
    | .blocked => s.recv ch 0 .top .blocked
    | .stopped => (none, s)

/-- The requests started, in their order, and the state reached. -/
def run (s : Scheduler C) : List (Action α) → List (Fin 4 × α) × Scheduler C
  | [] => ([], s)
  | a :: as =>
    let (start, s') := s.step ch a
    let (starts, s'') := s'.run as
    (start.toList ++ starts, s'')

/-- The worker gets on: it has not stopped and is not asleep, or is woken. -/
def moves (s : Scheduler C) : Action α → Bool
  | .work => s.worker != .stopped && (s.worker != .blocked || (ch.tryRecv (s.lanes 0)).isSome)
  | .timeout => s.worker == .blocked
  | _ => false

/-- How often the worker gets on in a run. -/
def moveCount (s : Scheduler C) : List (Action α) → Nat
  | [] => 0
  | a :: as => (s.moves ch a).toNat + (s.step ch a).2.moveCount as

end Scheduler

end RGraph.Runtime
