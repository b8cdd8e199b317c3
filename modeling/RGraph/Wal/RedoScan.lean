import RGraph.Wal.Record

/-!
# The redo scanner (`wal/recovery.rs`)

`recover` reads one segment from its start, hands the after-image of every
page record from `startLsn` on to the caller's `replay`, and cuts the segment
at the first record that does not decode. `replay` is any function on a state
of its own that may fail.
-/

namespace RGraph.Wal

open RGraph.Lib

section

variable {σ : Type*}

/-- The scanner's call of `replay` for one record; `false` is an I/O error. -/
def replayRecord (startLsn : Nat)
    (replay : Nat → Bytes → Nat → σ → Bool × σ) (r : WalRecord) (s : σ) : Bool × σ :=
  if r.lsn ≥ startLsn then
    match r.recordType with
    | .pageInsert | .pageUpdate | .pageFree | .bitmapUpdate =>
      if r.payload.length ≥ 8 then
        replay (beToNat (r.payload.take 8)) (r.payload.drop 8) r.lsn s
      else (true, s)
    | _ => (true, s)
  else (true, s)

/-- The last LSN seen and where the scan stopped, or nothing after an error. -/
def recoverLoop (h : WalHash) (startLsn : Nat)
    (replay : Nat → Bytes → Nat → σ → Bool × σ) (buf : Bytes) :
    Nat → Nat → Option Nat → σ → Option (Option Nat × Nat) × σ
  | 0, offset, lastValidLsn, s => (some (lastValidLsn, offset), s)
  | fuel + 1, offset, lastValidLsn, s =>
    if offset < buf.length then
      match WalRecord.decode h buf offset with
      | some (r, size) =>
        match replayRecord startLsn replay r s with
        | (true, s) =>
          recoverLoop h startLsn replay buf fuel (offset + size) (some r.lsn) s
        | (false, s) => (none, s)
      | none => (some (lastValidLsn, offset), s)
    else (some (lastValidLsn, offset), s)

structure Recovered (σ : Type*) where
  result : Option (Option Nat)
  segment : Option Bytes
  state : σ

def recover (h : WalHash) (segment : Option Bytes) (startLsn : Nat)
    (replay : Nat → Bytes → Nat → σ → Bool × σ) (s : σ) : Recovered σ :=
  match segment with
  | none => ⟨some none, none, s⟩
  | some buf =>
    if buf.length = 0 then ⟨some none, some buf, s⟩
    else
      match recoverLoop h startLsn replay buf buf.length 0 none s with
      | (none, s) => ⟨none, some buf, s⟩
      | (some (lastValidLsn, offset), s) =>
        ⟨some lastValidLsn, some (if offset < buf.length then setLen buf offset else buf), s⟩

end

end RGraph.Wal
