import RGraph.Wal.RedoScan
import RGraph.Proofs.WalRecord

/-!
# Every scan of a segment stops at a torn record

A strict part of an encoding is either shorter than any record or holds the
payload length and is shorter than that length asks for, so it never decodes,
whatever the checksums are. The writer's tail scan, the loader and the redo
scanner run one loop over the segment, and so they stop at the same offset.
-/

namespace RGraph.Wal

open RGraph.Lib List

namespace WalRecord

theorem decode_torn {h : WalHash} {r : WalRecord} {t : Bytes}
    (hr : r.payload.length < 2 ^ 32) (ht : t <+: r.encode) (hne : t ≠ r.encode) (pre : Bytes) :
    decode h (pre ++ t) pre.length = none := by
  obtain ⟨rest, hrest⟩ := ht
  have hlen : t.length < r.onDiskSize := by
    have hsum := congrArg List.length hrest
    rw [length_append, length_encode] at hsum
    have hpos : rest.length ≠ 0 := fun h0 => hne (by
      rw [← hrest, eq_nil_of_length_eq_zero h0, append_nil])
    omega
  rw [onDiskSize, walRecordMinSize] at hlen
  rw [decode, drop_left]
  by_cases hmin : t.length < walRecordMinSize
  · dsimp only
    rw [if_pos hmin]
  · rw [walRecordMinSize] at hmin
    have hplen : beToNat (readAt t 38 4) = r.payload.length := by
      have hread : readAt t 38 4 = readAt (r.encode ++ []) 38 4 := by
        rw [append_nil, ← hrest]
        exact readAt_congr fun i hi => (getD_append _ _ _ _ (by omega)).symm
      rw [hread, read_payloadLen, beToNat_natToBE _ _ hr]
    dsimp only
    rw [hplen]
    split
    · rfl
    · split
      · rfl
      · split
        · rfl
        · split
          · rfl
          · rw [if_pos (by omega)]

end WalRecord

section

open WalRecord

variable {σ : Type*} {h : WalHash} {startLsn : Nat}
  {replay : Nat → Bytes → Nat → σ → Bool × σ}

/-- The calls of `replay` for a list of records, up to the first error. -/
def replayAll (startLsn : Nat) (replay : Nat → Bytes → Nat → σ → Bool × σ) :
    List WalRecord → σ → Bool × σ
  | [], s => (true, s)
  | r :: rs, s =>
    match replayRecord startLsn replay r s with
    | (true, s) => replayAll startLsn replay rs s
    | (false, s) => (false, s)

theorem getLast_lsn (r : WalRecord) (rs : List WalRecord) (last : Option Nat) :
    ((r :: rs).getLast?.map WalRecord.lsn).or last =
      (rs.getLast?.map WalRecord.lsn).or (some r.lsn) := by
  rw [List.getLast?_cons]
  cases rs.getLast? <;> rfl

/-- The scanner replays the records that the decode loop finds. -/
theorem recoverLoop_eq (buf : Bytes) (fuel offset : Nat) (last : Option Nat)
    (s : σ) :
    recoverLoop h startLsn replay buf fuel offset last s =
      match replayAll startLsn replay (decodeLoop h buf fuel offset).1 s with
      | (true, s) =>
        (some (((decodeLoop h buf fuel offset).1.getLast?.map
          WalRecord.lsn).or last, (decodeLoop h buf fuel offset).2), s)
      | (false, s) => (none, s) := by
  induction fuel generalizing offset last s with
  | zero => rfl
  | succ fuel ih =>
    rw [recoverLoop, decodeLoop]
    split
    · next hlt =>
        cases hd : decode h buf offset with
        | none => rfl
        | some found =>
          obtain ⟨r, size⟩ := found
          dsimp only
          rw [replayAll]
          rcases replayRecord startLsn replay r s with ⟨_ | _, s⟩
          · rfl
          · dsimp only
            rw [ih, ← getLast_lsn]
    · rfl

/-- Over records and a strict part of one more, decoding returns the records
and stops where the part starts, and so do the loader, the writer's tail scan
and the redo scanner, which then cuts the segment there. -/
theorem torn_tail_stops {rs : List WalRecord} {r : WalRecord} {t : Bytes}
    (hw : Written h rs) (hr : r.payload.length < 2 ^ 32)
    (ht : t <+: r.encode) (hne : t ≠ r.encode) (startLsn : Nat)
    (replay : Nat → Bytes → Nat → σ → Bool × σ) (s : σ) :
    decodeLoop h (encodeAll rs ++ t) (encodeAll rs ++ t).length 0 =
        (rs, (encodeAll rs).length) ∧
      loadSingleSegment h (encodeAll rs ++ t) = rs ∧
      lastValidOffset h (encodeAll rs ++ t) = (encodeAll rs).length ∧
      recover h (some (encodeAll rs ++ t)) startLsn replay s =
        match replayAll startLsn replay rs s with
        | (true, s) =>
          ⟨some (rs.getLast?.map WalRecord.lsn), some (encodeAll rs), s⟩
        | (false, s) => ⟨none, some (encodeAll rs ++ t), s⟩ := by
  obtain ⟨hload, hlast⟩ := decode_segment hw fun pre =>
    .inr (decode_torn (h := h) hr ht hne pre)
  have hloop : decodeLoop h (encodeAll rs ++ t) (encodeAll rs ++ t).length 0 =
      (rs, (encodeAll rs).length) := Prod.ext hload hlast
  refine ⟨hloop, hload, hlast, ?_⟩
  rw [recover]
  split
  · next h0 =>
      rw [length_append] at h0
      have hrs : rs = [] := by
        have hle := length_le_encodeAll rs
        exact length_eq_zero_iff.mp (by omega)
      subst hrs
      have ht0 : t = [] := eq_nil_of_length_eq_zero (by simpa using h0)
      subst ht0
      rfl
  · rw [recoverLoop_eq, hloop]
    rcases replayAll startLsn replay rs s with ⟨_ | _, s⟩
    · rfl
    · have hcut : (if (encodeAll rs).length < (encodeAll rs ++ t).length then
          setLen (encodeAll rs ++ t) (encodeAll rs).length
          else encodeAll rs ++ t) = encodeAll rs := by
        split
        · simp [setLen]
        · next hge =>
            rw [length_append] at hge
            rw [eq_nil_of_length_eq_zero (l := t) (by omega),
              append_nil]
      dsimp only
      rw [hcut, Option.or_none]

end

def sampleRecords : List WalRecord :=
  [.new .standard 0 .begin 1 0 0 [], .new .standard 0 .commit 1 58 0 [7]]

/-- Ten bytes of a third record. -/
theorem torn_tail_stops_ten :
    let r : WalRecord := .new .standard 0 .begin 2 117 0 []
    let bytes := WalRecord.encodeAll sampleRecords ++ r.encode.take 10
    WalRecord.loadSingleSegment .standard bytes = sampleRecords ∧
      WalRecord.lastValidOffset .standard bytes = 117 := by
  intro r bytes
  have hw : WalRecord.Written .standard sampleRecords := by
    intro r hr
    rcases mem_cons.mp hr with rfl | hr
    · exact ⟨⟨by decide, by decide, by decide, by decide, by decide⟩, rfl, rfl⟩
    · rw [mem_singleton.mp hr]
      exact ⟨⟨by decide, by decide, by decide, by decide, by decide⟩, rfl, rfl⟩
  have hne : r.encode.take 10 ≠ r.encode := by decide +kernel
  obtain ⟨-, hload, hlast, -⟩ := torn_tail_stops hw (r := r)
    (by decide) ( take_prefix 10 _) hne 0 (fun _ _ _ s => (true, s)) ()
  exact ⟨hload, hlast⟩

end RGraph.Wal
