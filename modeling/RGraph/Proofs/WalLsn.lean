import RGraph.Proofs.WalRun

/-!
# LSNs only grow

While one writer runs, an LSN is the segment and a position that moves past
every record. A reopen computes it again, from the highest live segment and
from where its records end. So it stays ahead of every LSN given out as long
as the reopen finds the segment it left, which it does while no segment from
1 on has been archived, and as long as no record was still in the buffer.
-/

namespace RGraph.Wal

open RGraph.Lib WalRecord List

namespace WalRun

/-- The records of a segment: the acknowledged ones, and in the current
segment those of the buffer. -/
def log (s : WalRun) (i : Nat) : List WalRecord :=
  if i = s.writer.segmentId then s.acked i ++ s.pending else s.acked i

/-- How many bytes the records of the current segment take. -/
def used (s : WalRun) : Nat := (encodeAll (s.log s.writer.segmentId)).length

theorem log_self (s : WalRun) : s.log s.writer.segmentId =
    s.acked s.writer.segmentId ++ s.pending := by
  rw [log, if_pos rfl]

theorem log_of_pending_nil {s : WalRun} (hp : s.pending = []) : s.log = s.acked := by
  funext i
  rw [log, hp, append_nil, ite_self]

end WalRun

/-- The offset of the LSN is where the next record goes, or one past that in
segment 0, where offset 0 is left free. -/
def Positioned (s : WalRun) : Prop :=
  ∃ off, s.writer.currentLsn = s.writer.segmentId * 2 ^ 32 + off ∧
    off < 2 ^ 32 ∧ s.used ≤ off ∧ off ≤ s.used + 1

structure LsnOk (s : WalRun) : Prop where
  segment_lt : s.writer.segmentId + 1 < 2 ^ 32
  position : Positioned s
  returned_lt : ∀ lsn ∈ s.returned, lsn < s.writer.segmentId * 2 ^ 32 + s.used
  returned_order : s.returned.Pairwise (· > ·)
  log_segment : ∀ i, ∀ r ∈ s.log i, i * 2 ^ 32 ≤ r.lsn ∧ r.lsn < (i + 1) * 2 ^ 32
  log_lt : ∀ r ∈ s.log s.writer.segmentId, r.lsn < s.writer.segmentId * 2 ^ 32 + s.used
  log_order : ∀ i, (s.log i).Pairwise (·.lsn < ·.lsn)

structure LogOk (h : WalHash) (s : WalRun) : Prop where
  files : FilesOk h (· = ·) s
  lsns : LsnOk s

section Steps

variable {h : WalHash} {s t : WalRun}

theorem used_congr (hlog : t.log = s.log)
    (hseg : t.writer.segmentId = s.writer.segmentId) : t.used = s.used := by
  rw [WalRun.used, WalRun.used, hlog, hseg]

theorem LsnOk.congr (hs : LsnOk s) (hlog : t.log = s.log)
    (hseg : t.writer.segmentId = s.writer.segmentId)
    (hret : t.returned = s.returned) (hpos : Positioned t) : LsnOk t := by
  have hused := used_congr hlog hseg
  refine ⟨?_, hpos, ?_, ?_, ?_, ?_, ?_⟩
  · rw [hseg]; exact hs.segment_lt
  · rw [hseg, hret, hused]; exact hs.returned_lt
  · rw [hret]; exact hs.returned_order
  · rw [hlog]; exact hs.log_segment
  · rw [hlog, hseg, hused]; exact hs.log_lt
  · rw [hlog]; exact hs.log_order

theorem flush_ok_succeeds (w : WalWriter) (d : WalDir) : (w.flush d .ok).1 = true := by
  rw [WalWriter.flush]
  split <;> rfl

theorem LogOk.flush (hs : LogOk h s) : LogOk h (s.flushStep .ok) ∧ (s.flushStep .ok).pending = [] ∧
    (s.flushStep .ok).writer.segmentId = s.writer.segmentId ∧
    (s.flushStep .ok).writer.currentLsn = s.writer.currentLsn := by
  obtain ⟨hfiles, hpend⟩ := hs.files.flush_ok ackRel_eq (flush_ok_succeeds s.writer s.dir)
  obtain ⟨hseg, hcur, hret, -⟩ := flushStep_frame s .ok
  have hack : (s.flushStep .ok).acked = s.ack.acked := by
    rw [WalRun.flushStep]
    rcases hfl : s.writer.flush s.dir .ok with ⟨ok, w, d⟩
    have hok := flush_ok_succeeds s.writer s.dir
    rw [hfl] at hok
    cases hok
    rfl
  have hsame : s.ack.acked = s.log := by
    funext i
    rw [WalRun.log]
    split
    · next hi => rw [hi, acked_ack_self]
    · next hi => exact acked_ack_ne hi
  have hlog : (s.flushStep .ok).log = s.log := by
    rw [WalRun.log_of_pending_nil hpend, hack, hsame]
  refine ⟨⟨hfiles, hs.lsns.congr hlog hseg hret ?_⟩, hpend, hseg, hcur⟩
  rw [Positioned, hcur, hseg, used_congr hlog hseg]
  exact hs.lsns.position

theorem log_push_self (s : WalRun) (r : WalRecord) : (s.push r).log s.writer.segmentId =
      s.log s.writer.segmentId ++ [r] := by
  rw [← segmentId_push s r, WalRun.log_self, segmentId_push, WalRun.log_self, append_assoc]
  rfl

theorem log_push_ne {i : Nat} (r : WalRecord) (hi : i ≠ s.writer.segmentId) :
    (s.push r).log i = s.log i := by
  rw [WalRun.log, segmentId_push, if_neg hi, WalRun.log, if_neg hi]
  rfl

theorem used_push (s : WalRun) (r : WalRecord) : (s.push r).used = s.used + r.onDiskSize := by
  rw [WalRun.used, segmentId_push, log_push_self, encodeAll_append,
    length_append, encodeAll_cons, encodeAll_nil, append_nil,
    length_encode]
  rfl

theorem LsnOk.push (hs : LsnOk s) {r : WalRecord} (hr : r.lsn = s.writer.currentLsn)
    (hroom : lsnOffset s.writer.currentLsn + r.onDiskSize < 2 ^ 32) : LsnOk (s.push r) := by
  obtain ⟨off, hcur, hoff, hlo, hhi⟩ := hs.position
  have hseg := hs.segment_lt
  have hsize := r.onDiskSize_ge
  have hmake : makeLsn s.writer.segmentId off =
      s.writer.segmentId * 2 ^ 32 + off := makeLsn_eq (by omega) hoff
  have hoffset : lsnOffset s.writer.currentLsn = off := by
    rw [hcur, ← hmake, lsnOffset_makeLsn hoff]
  have hsegment : lsnSegmentId s.writer.currentLsn = s.writer.segmentId := by
    rw [hcur, ← hmake, lsnSegmentId_makeLsn (by omega) hoff]
  rw [hoffset] at hroom
  have hnext : (s.push r).writer.currentLsn =
      s.writer.segmentId * 2 ^ 32 + (off + r.onDiskSize) := by
    rw [WalRun.push, WalWriter.buffered]
    dsimp only
    rw [hsegment, hoffset, length_encode, makeLsn_eq (by omega) hroom]
  refine ⟨hseg, ⟨off + r.onDiskSize, hnext, hroom, ?_, ?_⟩, ?_, ?_, ?_, ?_, ?_⟩
  · rw [used_push]; omega
  · rw [used_push]; omega
  · intro lsn hl
    rw [used_push, segmentId_push]
    rcases mem_cons.mp hl with rfl | hl
    · omega
    · have := hs.returned_lt lsn hl
      omega
  · refine pairwise_cons.mpr ⟨fun lsn hl => ?_, hs.returned_order⟩
    have := hs.returned_lt lsn hl
    omega
  · intro i q hq
    by_cases hi : i = s.writer.segmentId
    · subst hi
      rw [log_push_self] at hq
      rcases mem_append.mp hq with hq | hq
      · exact hs.log_segment _ q hq
      · rw [mem_singleton.mp hq]
        omega
    · rw [log_push_ne r hi] at hq
      exact hs.log_segment i q hq
  · intro q hq
    rw [segmentId_push, log_push_self] at hq
    rw [segmentId_push, used_push]
    rcases mem_append.mp hq with hq | hq
    · have := hs.log_lt q hq
      omega
    · rw [mem_singleton.mp hq]
      omega
  · intro i
    by_cases hi : i = s.writer.segmentId
    · subst hi
      rw [log_push_self, pairwise_append]
      refine ⟨hs.log_order _, pairwise_singleton _ _, fun q hq p hp => ?_⟩
      have := hs.log_lt q hq
      rw [mem_singleton.mp hp]
      omega
    · rw [log_push_ne r hi]
      exact hs.log_order i

theorem LsnOk.returned_lt_next (hs : LsnOk s) : ∀ lsn ∈ s.returned,
    lsn < (s.writer.segmentId + 1) * 2 ^ 32 := by
  intro lsn hl
  obtain ⟨off, -, hoff, hlo, -⟩ := hs.position
  have := hs.returned_lt lsn hl
  omega

theorem LogOk.advance (hs : LogOk h s) (hp : s.pending = []) {now : Nat}
    (hseg : s.writer.segmentId + 2 < 2 ^ 32) : LogOk h (s.advance h now) := by
  obtain ⟨hnone, hack⟩ := hs.files.beyond (s.writer.segmentId + 1) (Nat.lt_succ_self _)
  obtain ⟨h1, -, h3, -⟩ := nextSegment_spec (h := h) s.writer s.dir now hnone
  have hsegment : (s.advance h now).writer.segmentId = s.writer.segmentId + 1 := h1
  have hcur : (s.advance h now).writer.currentLsn = (s.writer.segmentId + 1) * 2 ^ 32 := by
    refine h3.trans ?_
    rw [makeLsn_eq (by omega) (by decide), Nat.add_zero]
  have hlog : (s.advance h now).log = s.log := by
    rw [WalRun.log_of_pending_nil hp]
    exact WalRun.log_of_pending_nil hp
  have hnil : s.log (s.writer.segmentId + 1) = [] := by
    rw [WalRun.log_of_pending_nil hp, hack]
  have hused : (s.advance h now).used = 0 := by
    rw [WalRun.used, hlog, hsegment, hnil]
    rfl
  refine ⟨hs.files.advance ackRel_eq now, ?_, ⟨0, ?_, by decide, ?_, ?_⟩, ?_,
    hs.lsns.returned_order, ?_, ?_, ?_⟩
  · rw [hsegment]; exact hseg
  · rw [hsegment]; exact hcur.trans (Nat.add_zero _).symm
  · exact Nat.le_of_eq hused
  · exact Nat.zero_le _
  · rw [hsegment, hused, Nat.add_zero (_ * _)]
    exact hs.lsns.returned_lt_next
  · rw [hlog]; exact hs.lsns.log_segment
  · rw [hlog, hsegment, hnil]; nofun
  · rw [hlog]; exact hs.lsns.log_order

/-- A reopen that finds the segment the writer left, with all its records in
the file: it goes on after them and leaves the directory. -/
theorem openDir_spec (hs : FilesOk h (· = ·) s) (hseg : s.writer.segmentId + 1 < 2 ^ 32)
    (hlive : ∀ i, i ≤ s.writer.segmentId → 1 ≤ i → (s.dir.live i).isSome)
    (hlen : (encodeAll (s.acked s.writer.segmentId)).length < 2 ^ 32) :
    (WalWriter.openDir h s.dir).2 = s.dir ∧
    (WalWriter.openDir h s.dir).1.segmentId = s.writer.segmentId ∧
    (WalWriter.openDir h s.dir).1.buffer = [] ∧
    (WalWriter.openDir h s.dir).1.currentLsn = makeLsn s.writer.segmentId
      (if s.writer.segmentId = 0 then max (encodeAll (s.acked s.writer.segmentId)).length 1
      else (encodeAll (s.acked s.writer.segmentId)).length) := by
  obtain ⟨rs, hfile, hw, hr⟩ := hs.current
  have hfind : findHighestSegmentId s.dir = s.writer.segmentId := by
    refine probe_eq hseg ?_ fun i h1 h2 => hlive i h2 h1
    rw [(hs.beyond _ (Nat.lt_succ_self _)).1]
    rfl
  have hend : lastValidOffset h (encodeAll rs) = (encodeAll rs).length := by
    have := (@decode_segment h [] rs hw fun _ => Or.inl rfl).2
    rwa [append_nil] at this
  rw [hr] at hlen ⊢
  simp only [WalWriter.openDir, hfind, hfile, hend, if_neg (Nat.lt_irrefl _), Nat.mod_eq_of_lt hlen]
  exact ⟨trivial, trivial, trivial, trivial⟩

theorem LogOk.reopen (hs : LogOk h s) (hb : s.writer.buffer = [])
    (hlive : ∀ i, i ≤ s.writer.segmentId → 1 ≤ i → (s.dir.live i).isSome) :
    LogOk h (walStep h s .reopen) ∧ (walStep h s .reopen).dir = s.dir ∧
      (walStep h s .reopen).writer.segmentId = s.writer.segmentId := by
  have hseg := hs.lsns.segment_lt
  obtain ⟨off, hcur, hoff, hlo, hhi⟩ := hs.lsns.position
  have hp : s.pending = [] := by
    have := length_le_encodeAll s.pending
    rw [← hs.files.buffer, hb, length_nil] at this
    exact length_eq_zero_iff.mp (by omega)
  have hused : s.used = (encodeAll (s.acked s.writer.segmentId)).length := by
    rw [WalRun.used, WalRun.log_of_pending_nil hp]
  obtain ⟨hd, hsegment, hbuf, hlsn⟩ := openDir_spec hs.files hseg hlive
    (by rw [← hused]; exact Nat.lt_of_le_of_lt hlo hoff)
  rw [← hused] at hlsn
  rw [walStep]
  generalize WalWriter.openDir h s.dir = p at hd hsegment hbuf hlsn ⊢
  obtain ⟨w, d⟩ := p
  dsimp only at hd hsegment hbuf hlsn ⊢
  subst hd
  have hlog : WalRun.log { s with writer := w, pending := [] } = s.log := by
    rw [WalRun.log_of_pending_nil hp]
    exact WalRun.log_of_pending_nil rfl
  refine ⟨⟨?_, hs.lsns.congr hlog hsegment rfl ?_⟩, rfl, hsegment⟩
  · refine ⟨?_, ?_, by simp [Written], ?_, ?_, ?_⟩ <;> dsimp only
    · rw [hsegment]; exact hs.files.current
    · rw [hbuf]; rfl
    · rw [hsegment]; exact hs.files.closed
    · rw [hsegment]; exact hs.files.beyond
    · rw [hsegment]; exact hs.files.unarchived
  · rw [Positioned, used_congr hlog hsegment]
    dsimp only
    rw [hlsn, hsegment]
    split
    · exact ⟨_, makeLsn_eq (by omega) (by omega), by omega, by omega, by omega⟩
    · exact ⟨_, makeLsn_eq (by omega) (by omega), by omega, by omega, by omega⟩

theorem LsnOk.currentLsn_lt (hs : LsnOk s) : s.writer.currentLsn < 2 ^ 64 := by
  obtain ⟨off, hcur, hoff, -⟩ := hs.position
  have := hs.segment_lt
  omega

/-- An entry that goes into the buffer has the LSN of the writer and fits. -/
theorem LogOk.push (hs : LogOk h s) {e : LogEntry} {cur : Nat} (hcur : s.writer.currentLsn = cur)
    (hbuf : (e.record.setLsn h cur).encode.length ≤ WalWriter.bufferSize)
    (hroom : lsnOffset cur + e.record.onDiskSize < 2 ^ 32) :
    LogOk h (s.push (e.record.setLsn h cur)) := by
  subst hcur
  exact ⟨hs.files.push (e.fits_setLsn hs.lsns.currentLsn_lt hbuf)
    (sealed_setLsn h _ _), hs.lsns.push rfl hroom⟩

theorem LogOk.append (hs : LogOk h s) {e : LogEntry}
    (hroom : lsnOffset s.writer.currentLsn + e.record.onDiskSize < 2 ^ 32) :
    LogOk h (walStep h s (.append e .ok)) := by
  obtain ⟨hfl, -, -, hcur⟩ := hs.flush
  rw [WalRun.append_eq]
  split
  · split
    · next hok =>
        rw [Bool.and_eq_true, decide_eq_true_eq] at hok
        exact hfl.push hcur hok.2 hroom
    · exact hfl
  · next hfull =>
      rw [WalRun.isFull, decide_eq_true_eq] at hfull
      exact hs.push rfl (by omega) hroom

end Steps

/-! ## Runs -/

theorem logOk_start (h : WalHash) : LogOk h (WalRun.start h) := by
  obtain ⟨hseg, hcur, -⟩ := start_spec h
  have hlog : (WalRun.start h).log = fun _ => [] := WalRun.log_of_pending_nil rfl
  have hused : (WalRun.start h).used = 0 := by
    rw [WalRun.used, hlog]
    rfl
  refine ⟨filesOk_start ackRel_eq, ?_, ⟨1, ?_, by decide, ?_, ?_⟩, nofun,
    List.Pairwise.nil, ?_, ?_, ?_⟩
  · rw [hseg]; decide
  · rw [hcur, hseg, makeLsn_eq (by decide) (by decide)]
  · rw [hused]; exact Nat.zero_le _
  · exact Nat.le_add_left _ _
  · rw [hlog]; nofun
  · rw [hlog]; nofun
  · rw [hlog]; exact fun _ => List.Pairwise.nil

/-- What keeps LSNs growing. No flush fails and no segment or segment number
gets too large; and a reopen finds every segment from 1 on in the live
directory, and nothing in the buffer. -/
def ReopenSafe (s : WalRun) : WalOp → Prop
  | .append e o => o = .ok ∧
      lsnOffset s.writer.currentLsn + e.record.onDiskSize < 2 ^ 32
  | .flush o => o = .ok
  | .rotate o _ => o = .ok ∧ s.writer.segmentId + 2 < 2 ^ 32
  | .reclaim _ => True
  | .reopen => s.writer.buffer = [] ∧
      ∀ i, i ≤ s.writer.segmentId → 1 ≤ i → (s.dir.live i).isSome

instance ReopenSafe.decidable (s : WalRun) (op : WalOp) :
    Decidable (ReopenSafe s op) := by
  cases op <;> dsimp only [ReopenSafe] <;> infer_instance

theorem LogOk.step {h : WalHash} (s : WalRun) (op : WalOp) (hs : LogOk h s)
    (hop : ReopenSafe s op) : LogOk h (walStep h s op) := by
  cases op with
  | append e o =>
    obtain ⟨rfl, hroom⟩ := hop
    exact hs.append hroom
  | flush o =>
    cases hop
    exact hs.flush.1
  | rotate o now =>
    obtain ⟨rfl, hseg⟩ := hop
    obtain ⟨hfl, hp, hsame, -⟩ := hs.flush
    rw [WalRun.rotate_eq, flush_ok_succeeds, if_pos rfl]
    exact hfl.advance hp (by rw [hsame]; exact hseg)
  | reclaim ckpt =>
    refine ⟨hs.files.reclaim ckpt, hs.lsns.congr rfl rfl rfl ?_⟩
    exact hs.lsns.position
  | reopen => exact (hs.reopen hop.1 hop.2).1

/-- In every state of such a run, each LSN returned is greater than all those
returned before it (`returned` has the latest first). -/
theorem append_lsn_increasing (h : WalHash) (ops : List WalOp)
    (hops : Guarded (walStep h) ReopenSafe (WalRun.start h) ops) (n : Nat) :
    (run (walStep h) (WalRun.start h) (ops.take n)).returned.Pairwise (· > ·) :=
  (run_inv_take LogOk.step (logOk_start h) hops n).lsns.returned_order

def sampleEntry (payload : Bytes) : LogEntry :=
  ⟨.commit, 1, 0, 1700000000, payload, by decide, by decide, by decide⟩

/-- Rotating three times archives only segment 0, so a reopen goes on. -/
theorem append_lsn_increasing_reopened :
    let ops : List WalOp :=
      [.append (sampleEntry [1, 2]) .ok, .rotate .ok 0, .rotate .ok 0,
        .rotate .ok 0, .append (sampleEntry [3]) .ok, .flush .ok, .reopen,
        .append (sampleEntry []) .ok]
    let s := run (walStep WalHash.standard) (WalRun.start WalHash.standard) ops
    s.returned = [3 * 2 ^ 32 + 59, 3 * 2 ^ 32, 1] ∧
      s.returned.Pairwise (· > ·) := by
  intro ops s
  exact ⟨by decide +kernel,
    append_lsn_increasing WalHash.standard ops (by decide +kernel) 8⟩

/-- After the fourth rotation segments 0 and 1 are in the archive. A reopen
finds no live segment and starts again at segment 0: an LSN is given out for
the second time. -/
theorem reopen_reuses_lsn :
    let s := run (walStep WalHash.standard) (WalRun.start WalHash.standard)
      [.append (sampleEntry [1, 2]) .ok, .rotate .ok 0, .rotate .ok 0,
        .rotate .ok 0, .rotate .ok 0, .reopen, .append (sampleEntry [3]) .ok]
    s.returned = [1, 1] ∧ ¬ s.returned.Pairwise (· > ·) := by
  decide +kernel

end RGraph.Wal
