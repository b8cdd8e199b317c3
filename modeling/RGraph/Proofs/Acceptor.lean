import RGraph.Server.Acceptor
import RGraph.Lib.Run

/-!
# What clients can do to the acceptor

`accept` reports a shutdown as `Ok(None)`, and a failed `listener.accept` and a
failed handshake too. So a client can end the stream; the slots come back in
any case.

The protocol is guessed from the bytes that have arrived, before the handshake.
-/

namespace RGraph.Server

open RGraph.Lib

/-- `accept` answers as if the acceptor had been closed. -/
def fatal (tls : Bool) : Arrival → Bool
  | .failed => true
  | .client c => tls && c.peeked.isOk && !c.handshake

theorem exists_detect_ok (bytes : Bytes) : ∃ protocol, detect (.ok bytes) = .ok protocol := by
  simp only [detect]
  repeat' split
  all_goals exact ⟨_, rfl⟩

theorem accept_eq_none (tls : Bool) (a : Arrival) :
    accept tls a = .ok none ↔ fatal tls a = true := by
  cases a with
  | failed => exact iff_of_true rfl rfl
  | client c =>
    obtain ⟨peeked, handshake⟩ := c
    cases peeked with
    | error e => simp [accept, detect, fatal, bind, Except.bind, Except.isOk, Except.toBool]
    | ok bytes =>
      obtain ⟨protocol, h⟩ := exists_detect_ok bytes
      cases tls <;> cases handshake <;>
        simp [accept, h, fatal, bind, Except.bind, Except.isOk, Except.toBool]

namespace Incoming

/-- All slots: free, in use by a stream, or taken by the loop. -/
def slots (s : Incoming) : Nat := s.available + s.streams + if s.loop = .listening then 1 else 0

theorem slots_step (s : Incoming) (e : Event) : (s.step e).slots = s.slots := by
  cases e with
  | close => rfl
  | drop =>
    rw [step]
    split
    · rfl
    · simp only [slots]
      omega
  | poll | arrive =>
    simp only [step]
    split
    · rfl
    · grind [slots, release]

theorem slots_run (s : Incoming) (events : List Event) : (run step s events).slots = s.slots := by
  induction events generalizing s with
  | nil => rfl
  | cons e events ih => exact (ih (s.step e)).trans (s.slots_step e)

/-- A stream that has ended was closed. -/
def EndedClosed (s : Incoming) : Prop := s.loop = .ended → s.closed = true

/-- No such arrival before the acceptor is closed. -/
def Survives (s : Incoming) (e : Event) : Prop :=
  ∀ a, e = .arrive a → s.loop = .listening → fatal s.tls a = true → s.closed = true

theorem endedClosed_step {s : Incoming} (hs : s.EndedClosed) (e : Event) :
    (s.step e).EndedClosed ↔ s.Survives e := by
  have hnone := accept_eq_none s.tls
  cases e with
  | close | drop | poll => grind [step, EndedClosed, Survives]
  | arrive a => grind [step, EndedClosed, Survives, release]

end Incoming

/-- The slots are all there in every state; and the stream ends only when it
was closed as long as no `accept` fails before that and no handshake. -/
theorem stream_ends_iff (tls : Bool) (maxConnections : Nat)
    (events : List Event) :
    let s := fun n => run Incoming.step (.bind tls maxConnections)
      (events.take n)
    (∀ n, (s n).slots = maxConnections) ∧
    ((∀ n, (s n).loop = .ended → (s n).closed = true) ↔
      Guarded Incoming.step Incoming.Survives (.bind tls maxConnections)
        events) := by
  refine ⟨fun n => Incoming.slots_run _ _, ?_⟩
  have hbind : (Incoming.bind tls maxConnections).EndedClosed := nofun
  exact (guarded_iff_inv (fun (s : Incoming) e (hs : s.EndedClosed) =>
    Incoming.endedClosed_step hs e) hbind).symm

/-- A client whose handshake fails ends the stream. -/
theorem handshake_ends_stream :
    ¬ ∀ (tls : Bool) (maxConnections : Nat) (events : List Event),
      let s := run Incoming.step (.bind tls maxConnections) events
      s.slots = maxConnections ∧ (s.loop = .ended → s.closed = true) := by
  intro h
  have hend := (h true 1 [.poll, .arrive (.client ⟨.ok [0x16], false⟩)]).2 rfl
  cases hend

/-! ## Clients of HTTP/2 -/

def connectionPreface : Bytes := "PRI * HTTP/2.0\r\n\r\nSM\r\n\r\n".toUTF8.data.toList

/-- A client that sends the preface, with TLS inside a session: the first
record of the session is a handshake record. -/
def prefaceClient (tls : Bool) (rest : Bytes) (arrived : Nat) : Client where
  peeked := .ok (((if tls then [0x16] else connectionPreface) ++ rest).take arrived)
  handshake := true

theorem detect_preface (rest : Bytes) (arrived : Nat) :
    detect (.ok ((connectionPreface ++ rest).take arrived)) =
      .ok (if 4 ≤ arrived then .grpc else .unknown) := by
  obtain ⟨tail, h⟩ : ∃ tail, connectionPreface ++ rest =
      0x50 :: 0x52 :: 0x49 :: 0x20 :: tail := ⟨_, rfl⟩
  rw [h]
  match arrived with
  | 0 | 1 | 2 | 3 => rfl
  | n + 4 => simp [detect]

theorem detect_handshake (rest : Bytes) (arrived : Nat) :
    detect (.ok (([0x16] ++ rest).take arrived)) = .ok .unknown := by
  cases arrived with
  | zero => rfl
  | succ n => simp [detect]

/-- However many bytes have arrived: the connection is yielded if it is plain
and they are four at least. -/
theorem preface_yielded_iff (s : Incoming) (rest : Bytes) (arrived : Nat) :
    (Incoming.step { s with loop := .listening }
      (.arrive (.client (prefaceClient s.tls rest arrived)))).streams =
        s.streams + 1 ↔ s.tls = false ∧ 4 ≤ arrived := by
  obtain ⟨tls, available, closed, loop, streams⟩ := s
  cases tls with
  | false =>
    have haccept : accept false (.client (prefaceClient false rest arrived)) =
        .ok (some (if 4 ≤ arrived then .grpc else .unknown)) := by
      simp [accept, prefaceClient, detect_preface, bind, Except.bind]
    by_cases h : 4 ≤ arrived <;>
      simp [Incoming.step, Incoming.release, haccept, h]
  | true =>
    have haccept : accept true (.client (prefaceClient true rest arrived)) =
        .ok (some .unknown) := by
      rw [accept, prefaceClient, if_pos rfl, detect_handshake]
      rfl
    simp [Incoming.step, Incoming.release, haccept]

/-- With the first byte in a segment of its own it is not yielded. -/
theorem split_preface_dropped :
    ¬ ∀ (s : Incoming) (rest : Bytes) (arrived : Nat), 0 < arrived →
      (Incoming.step { s with loop := .listening }
        (.arrive (.client (prefaceClient s.tls rest arrived)))).streams =
          s.streams + 1 := by
  intro h
  cases h (.bind false 1) [] 1 Nat.one_pos

end RGraph.Server
