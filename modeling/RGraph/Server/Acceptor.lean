import RGraph.Lib.Bytes

/-!
# The connection acceptor (`server/acceptor.rs`)

A slot is taken before the listener is asked, so a connection that arrives has
one. Its slot goes back when the stream that holds it is dropped.
-/

namespace RGraph.Server

open RGraph.Lib

inductive Protocol where
  | grpc
  | bolt
  | unknown
  deriving DecidableEq, Repr

/-- `ProtocolMultiplexer::detect`, from the bytes there when it peeks; there
are none if the client has closed. -/
def detect : Except String Bytes → Except String Protocol
  | .error e => .error ("peek failed: " ++ e)
  | .ok arrived =>
    let buf := arrived.take 6
    if 4 ≤ buf.length then
      if buf.take 4 = [0x50, 0x52, 0x49, 0x20] then .ok .grpc
      else if buf.take 4 = [0x60, 0x60, 0xB0, 0x17] then .ok .bolt
      else if 0x41 ≤ buf.headD 0 ∧ buf.headD 0 ≤ 0x5A then .ok .grpc
      else .ok .unknown
    else .ok .unknown

/-- What a client does, as far as the acceptor sees it. -/
structure Client where
  peeked : Except String Bytes
  /-- with TLS: the handshake succeeds -/
  handshake : Bool

inductive Arrival where
  | failed
  | client (c : Client)

/-- `accept`, from the answer of the listener on. -/
def accept (tls : Bool) : Arrival → Except String (Option Protocol)
  | .failed => .ok none
  | .client c => do
    let protocol ← detect c.peeked
    if tls && !c.handshake then .ok none else .ok (some protocol)

/-- Where the loop of `into_incoming` is. -/
inductive Loop where
  | acquiring
  | listening
  | ended
  deriving DecidableEq, Repr

structure Incoming where
  tls : Bool
  /-- permits of the semaphore -/
  available : Nat
  closed : Bool
  loop : Loop
  /-- yielded and not dropped -/
  streams : Nat

inductive Event where
  | poll
  | arrive (a : Arrival)
  | close
  | drop

namespace Incoming

def bind (tls : Bool) (maxConnections : Nat) : Incoming :=
  ⟨tls, maxConnections, false, .acquiring, 0⟩

/-- The slot of the last connection goes back. -/
def release (s : Incoming) (loop : Loop) : Incoming :=
  { s with available := s.available + 1, loop := loop }

def step (s : Incoming) : Event → Incoming
  | .close => { s with closed := true }
  | .drop =>
    if s.streams = 0 then s
    else { s with streams := s.streams - 1, available := s.available + 1 }
  | .poll =>
    if s.loop ≠ .acquiring then s
    else if s.closed then { s with loop := .ended }
    else if s.available = 0 then s
    else { s with available := s.available - 1, loop := .listening }
  | .arrive a =>
    if s.loop ≠ .listening then s
    else match accept s.tls a with
      | .ok (some .grpc) => { s with streams := s.streams + 1, loop := .acquiring }
      | .ok (some _) => s.release .acquiring
      | .ok none => s.release .ended
      | .error _ => s.release .acquiring

end Incoming

end RGraph.Server
