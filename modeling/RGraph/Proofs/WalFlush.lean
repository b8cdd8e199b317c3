import RGraph.Proofs.WalLsn

/-!
# Failed flushes

A flush that fails keeps its buffer, and the retry writes all of it at the end
of the file, behind whatever the failed write left there. If that was a number
of whole records, a scan reads them twice and then goes on. If it was part of
a record, a scan stops there and never reaches what the retry wrote.
-/

namespace RGraph.Wal

open RGraph.Lib WalRecord

/-- A write that fails leaves whole records. -/
def WholeRecords (s : WalRun) : FlushEnd → Prop
  | .ok => True
  | .failed n => ∃ j, j ≤ s.pending.length ∧
      s.writer.buffer.take n = encodeAll (s.pending.take j)

instance WholeRecords.decidable (s : WalRun) : ∀ o, Decidable (WholeRecords s o)
  | .ok => isTrue trivial
  | .failed _ => inferInstanceAs (Decidable (∃ j, j ≤ _ ∧ _))

section Flush

variable {h : WalHash} {s : WalRun}
variable {rel : List WalRecord → List WalRecord → Prop}

/-- The relation has to allow for the whole records a failed write leaves. -/
theorem FilesOk.flush_whole (hrel : AckRel rel) (hs : FilesOk h rel s)
    {o : FlushEnd} (ho : ∀ n, o = .failed n → ∃ j,
      s.writer.buffer.take n = encodeAll (s.pending.take j) ∧
      ∀ a rs, rel a rs → rel a (rs ++ s.pending.take j)) :
    FilesOk h rel (s.flushStep o) := by
  rcases hok : (s.writer.flush s.dir o).1 with _ | _
  · rcases flushStep_cases hs.buffer o with
      ⟨-, ht, -⟩ | ⟨-, -, ht, -⟩ | ⟨-, n, rfl, -, heq⟩
    · rw [hok] at ht; cases ht
    · rw [hok] at ht; cases ht
    · obtain ⟨rs, hfile, hw, hr⟩ := hs.current
      obtain ⟨j, hbuf, hleft⟩ := ho n rfl
      rw [hs.buffer] at hbuf
      rw [heq, hbuf]
      refine ⟨⟨rs ++ s.pending.take j, ?_, ?_, hleft _ _ hr⟩, hs.buffer,
        hs.pending, ?_, ?_, hs.unarchived⟩
      · dsimp only
        rw [WalDir.live_append_self, hfile, Option.getD_some, encodeAll_append]
      · exact hw.append fun q hq => hs.pending q (List.mem_of_mem_take hq)
      · intro i hi c hc
        dsimp only at hi hc
        rw [file_append_ne _ (Nat.ne_of_lt hi)] at hc
        exact hs.closed i hi c hc
      · intro i hi
        dsimp only at hi ⊢
        rw [WalDir.live_append_ne _ _ (Nat.ne_of_gt hi)]
        exact hs.beyond i hi
  · exact (hs.flush_ok hrel hok).1

end Flush

/-! ## Runs -/

/-- How the write that a call makes ends, if it makes one. -/
def WalRun.flushes (h : WalHash) (s : WalRun) : WalOp → Option FlushEnd
  | .append e o =>
    if s.isFull (e.record.setLsn h s.writer.currentLsn) then some o else none
  | .flush o => some o
  | .rotate o _ => some o
  | .reclaim _ => none
  | .reopen => none

/-- A call is a flush at most, and then a record pushed or a segment opened. -/
theorem walStep_keeps {h : WalHash} {P : WalRun → Prop} {s : WalRun} {op : WalOp} (hs : P s)
    (hflush : ∀ o, s.flushes h op = some o → P (s.flushStep o))
    (hpush : ∀ {s' : WalRun} {e : LogEntry} {cur : Nat}, P s' → s'.writer.currentLsn = cur →
      (e.record.setLsn h cur).encode.length ≤ WalWriter.bufferSize →
      P (s'.push (e.record.setLsn h cur)))
    (hadvance : ∀ {s' : WalRun}, P s' → ∀ now, P (s'.advance h now))
    (hreclaim : ∀ ckpt, op = .reclaim ckpt → P (walStep h s (.reclaim ckpt)))
    (hreopen : op ≠ .reopen) : P (walStep h s op) := by
  cases op with
  | append e o =>
    rw [WalRun.append_eq]
    split
    · next hfull =>
        have hfl := hflush o (if_pos hfull)
        split
        · next hok =>
            rw [Bool.and_eq_true, decide_eq_true_eq] at hok
            exact hpush hfl (flushStep_frame s o).2.1 hok.2
        · exact hfl
    · next hfull =>
        rw [WalRun.isFull, decide_eq_true_eq] at hfull
        exact hpush hs rfl (by omega)
  | flush o => exact hflush o rfl
  | rotate o now =>
    rw [WalRun.rotate_eq]
    split
    · exact hadvance (hflush o rfl) now
    · exact hflush o rfl
  | reclaim ckpt => exact hreclaim ckpt rfl
  | reopen => exact absurd rfl hreopen

structure FlushOk (h : WalHash) (lo : Nat) (s : WalRun) : Prop where
  files : FilesOk h List.Sublist s
  present : Present lo s
  lsn_lt : s.writer.currentLsn < 2 ^ 64

/-- No reopen, and no segment from `lo` on is deleted. -/
def FlushSafe (lo : Nat) (s : WalRun) : WalOp → Prop
  | .append _ o => WholeRecords s o
  | .flush o => WholeRecords s o
  | .rotate o _ => WholeRecords s o
  | .reclaim ckpt => lsnSegmentId ckpt ≤ lo
  | .reopen => False

instance FlushSafe.decidable (lo : Nat) (s : WalRun) :
    ∀ op, Decidable (FlushSafe lo s op)
  | .append _ o => WholeRecords.decidable s o
  | .flush o => WholeRecords.decidable s o
  | .rotate o _ => WholeRecords.decidable s o
  | .reclaim _ => inferInstanceAs (Decidable (_ ≤ _))
  | .reopen => isFalse id

theorem makeLsn_lt (seg off : Nat) : makeLsn seg off < 2 ^ 64 := by
  rw [makeLsn]
  omega

section Steps

variable {h : WalHash} {lo : Nat} {s : WalRun}

theorem flushOk_start (h : WalHash) (lo : Nat) : FlushOk h lo (WalRun.start h) := by
  refine ⟨filesOk_start ackRel_sublist, present_start h lo, ?_⟩
  rw [(start_spec h).2.1]
  exact makeLsn_lt 0 1

theorem FlushOk.flush (hs : FlushOk h lo s) {o : FlushEnd}
    (ho : WholeRecords s o) : FlushOk h lo (s.flushStep o) := by
  refine ⟨hs.files.flush_whole ackRel_sublist ?_, hs.present.flush o, ?_⟩
  · rintro n rfl
    obtain ⟨j, -, hbuf⟩ := ho
    exact ⟨j, hbuf, fun a rs hr => hr.trans (List.sublist_append_left _ _)⟩
  · rw [(flushStep_frame s o).2.1]
    exact hs.lsn_lt

theorem FlushOk.push (hs : FlushOk h lo s) {e : LogEntry} {cur : Nat}
    (hcur : s.writer.currentLsn = cur)
    (hbuf : (e.record.setLsn h cur).encode.length ≤ WalWriter.bufferSize) :
    FlushOk h lo (s.push (e.record.setLsn h cur)) := by
  subst hcur
  exact ⟨hs.files.push (e.fits_setLsn hs.lsn_lt hbuf) (sealed_setLsn h _ _),
    hs.present, makeLsn_lt _ _⟩

theorem FlushOk.advance (hs : FlushOk h lo s) (now : Nat) : FlushOk h lo (s.advance h now) := by
  have hnone := (hs.files.beyond (s.writer.segmentId + 1) (Nat.lt_succ_self _)).1
  refine ⟨hs.files.advance ackRel_sublist now, hs.present.advance hs.files now, ?_⟩
  rw [WalRun.advance]
  dsimp only
  rw [(nextSegment_spec s.writer s.dir now hnone).2.2.1]
  exact makeLsn_lt _ _

theorem FlushOk.step (s : WalRun) (op : WalOp) (hs : FlushOk h lo s)
    (hop : FlushSafe lo s op) : FlushOk h lo (walStep h s op) := by
  refine walStep_keeps hs (fun o ho => hs.flush ?_)
    (fun hs hcur hbuf => hs.push hcur hbuf) (fun hs now => hs.advance now) ?_ ?_
  · cases op with
    | append e o' =>
      rw [WalRun.flushes, Option.ite_none_right_eq_some] at ho
      cases ho.2
      exact hop
    | flush o' => cases ho; exact hop
    | rotate o' now => cases ho; exact hop
    | reclaim ckpt => cases ho
    | reopen => cases ho
  · rintro ckpt rfl
    refine ⟨hs.files.reclaim ckpt, hs.present.reclaim fun i hi hlo => ?_, hs.lsn_lt⟩
    exact absurd (Nat.lt_of_lt_of_le hi hop) (Nat.not_lt.mpr hlo)
  · rintro rfl
    exact hop

end Steps

/-- In every state of such a run, a scan of the file of any segment that was
not deleted decodes all records that a successful flush has acknowledged
there, in the order they were appended. -/
theorem flushed_records_decoded (h : WalHash) (lo : Nat) (ops : List WalOp)
    (hops : Guarded (walStep h) (FlushSafe lo) (WalRun.start h) ops)
    (n : Nat) :
    let s := run (walStep h) (WalRun.start h) (ops.take n)
    ∀ i, lo ≤ i → i ≤ s.writer.segmentId →
      ∃ c, s.dir.file i = some c ∧
        (s.acked i).Sublist (loadSingleSegment h c) := by
  intro s i hlo hi
  have hs : FlushOk h lo s :=
    run_inv_take FlushOk.step (flushOk_start h lo) hops n
  obtain ⟨c, hc⟩ := Option.isSome_iff_exists.mp
    (hs.present.isSome_file hs.files hlo hi)
  exact ⟨c, hc, hs.files.load hi hc⟩

/-- The first flush fails after the first of two records. -/
theorem flushed_records_decoded_retried :
    let ops : List WalOp :=
      [.append (sampleEntry [1, 2]) .ok, .append (sampleEntry [3]) .ok,
        .flush (.failed 60), .flush .ok]
    let s := run (walStep WalHash.standard) (WalRun.start WalHash.standard) ops
    (s.acked 0).length = 2 ∧
      ∃ c, s.dir.file 0 = some c ∧
        (s.acked 0).Sublist (loadSingleSegment WalHash.standard c) := by
  intro ops s
  exact ⟨by decide +kernel, flushed_records_decoded WalHash.standard 0 ops
    (by decide +kernel) 4 0 (by decide) (by decide +kernel)⟩

/-- The first flush fails after one byte. The retry succeeds, and a scan of
the file decodes nothing. -/
theorem torn_flush_hides_records :
    let s := run (walStep WalHash.standard) (WalRun.start WalHash.standard)
      [.append (sampleEntry [1, 2]) .ok, .flush (.failed 1), .flush .ok]
    s.pending = [] ∧ (s.acked 0).length = 1 ∧
      (s.dir.file 0).map (loadSingleSegment WalHash.standard) = some [] := by
  decide +kernel

end RGraph.Wal
