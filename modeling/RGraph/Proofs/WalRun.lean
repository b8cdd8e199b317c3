import RGraph.Lib.Run
import RGraph.Proofs.WalWriter
import RGraph.Wal.Run

/-!
# Runs of the WAL writer

Appending to a full buffer and rotating flush first, so both are a flush and
then a step that cannot fail.

`FilesOk` says what the segment files hold. It is stated for a relation
between the acknowledged records of a segment and the records its file holds:
the two are equal as long as no flush fails, and the first are a sublist of
the second when a failed flush has left records that the retry writes again.
-/

namespace RGraph.Wal

open RGraph.Lib WalRecord List

/-- An entry no larger than the buffer has room in the fields of a record. -/
theorem LogEntry.fits_setLsn (e : LogEntry) {h : WalHash} {lsn : Nat} (hlsn : lsn < 2 ^ 64)
    (hbuf : (e.record.setLsn h lsn).encode.length ≤ WalWriter.bufferSize) :
    (e.record.setLsn h lsn).Fits := by
  refine ⟨e.txid_lt, hlsn, e.prevLsn_lt, e.timestamp_lt, ?_⟩
  rw [length_encode, onDiskSize, WalWriter.bufferSize] at hbuf
  omega

/-! ## Appending and rotating, taken apart -/

namespace WalRun

variable {h : WalHash}

/-- The record goes into the buffer. -/
def push (s : WalRun) (r : WalRecord) : WalRun :=
  { s with
    writer := s.writer.buffered r.encode
    returned := r.lsn :: s.returned
    pending := s.pending ++ [r] }

/-- The next segment is opened. -/
def advance (h : WalHash) (s : WalRun) (now : Nat) : WalRun :=
  { s with
    writer := (s.writer.nextSegment h s.dir now).1
    dir := (s.writer.nextSegment h s.dir now).2 }

theorem append_eq (s : WalRun) (e : LogEntry) (o : FlushEnd) :
    let r := e.record.setLsn h s.writer.currentLsn
    walStep h s (.append e o) = if s.isFull r then
        if (s.writer.flush s.dir o).1 && r.encode.length ≤ WalWriter.bufferSize
        then (s.flushStep o).push r
        else s.flushStep o
      else s.push r := by
  intro r
  rw [walStep, WalWriter.append]
  simp only [← show r = e.record.setLsn h s.writer.currentLsn from rfl]
  by_cases hfull : s.writer.buffer.length + r.encode.length > WalWriter.bufferSize
  · have hf : s.isFull r = true := by simpa [isFull] using hfull
    rw [if_pos hfull, hf, if_pos rfl]
    rw [flushStep]
    rcases hfl : s.writer.flush s.dir o with ⟨ok, w, d⟩
    cases ok with
    | false => simp
    | true =>
      by_cases hbig : r.onDiskSize > WalWriter.bufferSize
      · simp [hbig, Nat.not_le.mpr hbig]
      · simp [hbig, Nat.not_lt.mp hbig, push, ack]
  · have hf : s.isFull r = false := by simpa [isFull] using hfull
    rw [if_neg hfull, hf]
    simp [push]

theorem rotate_eq (s : WalRun) (o : FlushEnd) (now : Nat) : walStep h s (.rotate o now) =
      if (s.writer.flush s.dir o).1 then (s.flushStep o).advance h now
      else s.flushStep o := by
  rw [walStep, WalWriter.rotate, flushStep]
  rcases s.writer.flush s.dir o with ⟨ok, w, d⟩
  cases ok <;> rfl

end WalRun

/-! ## What the files hold -/

/-- A file of a closed segment: its records, then bytes that stop the loop. -/
def ClosedFile (h : WalHash) (rs : List WalRecord) (content : Bytes) : Prop :=
  ∃ tail, content = encodeAll rs ++ tail ∧ ∀ pre, decode h (pre ++ tail) pre.length = none

structure FilesOk (h : WalHash)
    (rel : List WalRecord → List WalRecord → Prop) (s : WalRun) : Prop where
  current : ∃ rs, s.dir.live s.writer.segmentId = some (encodeAll rs) ∧
    Written h rs ∧ rel (s.acked s.writer.segmentId) rs
  buffer : s.writer.buffer = encodeAll s.pending
  pending : Written h s.pending
  closed : ∀ i, i < s.writer.segmentId → ∀ c, s.dir.file i = some c →
    ∃ rs, ClosedFile h rs c ∧ Written h rs ∧ rel (s.acked i) rs
  beyond : ∀ i, s.writer.segmentId < i → s.dir.live i = none ∧ s.acked i = []
  unarchived : ∀ i, s.writer.segmentId ≤ i → s.dir.archive i = none

/-- What the relation between acknowledged and written records must allow. -/
structure AckRel (rel : List WalRecord → List WalRecord → Prop) : Prop where
  nil : rel [] []
  append : ∀ a rs p, rel a rs → rel (a ++ p) (rs ++ p)

theorem ackRel_eq : AckRel (· = ·) := ⟨rfl, fun _ _ _ e => by rw [e]⟩

theorem ackRel_sublist : AckRel List.Sublist :=
  ⟨List.Sublist.refl _, fun _ _ _ e => e.append (List.Sublist.refl _)⟩

section Files

variable {h : WalHash} {rel : List WalRecord → List WalRecord → Prop}
variable {s : WalRun}

theorem findHighestSegmentId_empty : findHighestSegmentId WalDir.empty = 0 :=
  probe_eq (by decide) rfl fun i h1 h2 => by omega

/-- An empty directory gets segment 0, and LSN 0 is left free. -/
theorem start_spec (h : WalHash) : (WalRun.start h).writer.segmentId = 0 ∧
    (WalRun.start h).writer.currentLsn = makeLsn 0 1 ∧
    (WalRun.start h).dir = WalDir.empty.create 0 := by
  simp only [WalRun.start, WalWriter.openDir, findHighestSegmentId_empty]
  exact ⟨trivial, rfl, rfl⟩

theorem filesOk_start (hrel : AckRel rel) : FilesOk h rel (WalRun.start h) := by
  obtain ⟨hseg, -, hdir⟩ := start_spec h
  refine ⟨⟨[], ?_, nofun, hrel.nil⟩, rfl, nofun, ?_, ?_, ?_⟩
  · rw [hseg, hdir, WalDir.live_create_self]
    rfl
  · intro i hi
    rw [hseg] at hi
    omega
  · intro i hi
    rw [hseg] at hi
    rw [hdir, WalDir.live_create_ne _ (by omega)]
    exact ⟨rfl, rfl⟩
  · intro i _
    rw [hdir]
    rfl

/-- Bytes added at the end of the current file leave the other files. -/
theorem file_append_ne {d : WalDir} {seg i : Nat} (bs : Bytes)
    (hi : i ≠ seg) : (d.append seg bs).file i = d.file i :=
  WalDir.file_congr (WalDir.live_append_ne d bs hi) rfl

theorem flushStep_empty (hb : s.writer.buffer = []) (o : FlushEnd) : s.flushStep o = s.ack := by
  simp only [WalRun.flushStep, WalWriter.flush, if_pos hb]
  rfl

theorem flushStep_ok (hb : s.writer.buffer ≠ []) :
    s.flushStep .ok = { s.ack with
      writer := { s.writer with
        buffer := []
        unsynced := 0
        durableLsn := max s.writer.durableLsn s.writer.currentLsn }
      dir := s.dir.append s.writer.segmentId s.writer.buffer } := by
  simp only [WalRun.flushStep, WalWriter.flush, if_neg hb]

theorem flushStep_failed (hb : s.writer.buffer ≠ []) (n : Nat) :
    s.flushStep (.failed n) = { s with
      dir := s.dir.append s.writer.segmentId (s.writer.buffer.take n) } := by
  simp only [WalRun.flushStep, WalWriter.flush, if_neg hb]

/-- A flush, failed or not, stays in its segment. -/
theorem flushStep_frame (s : WalRun) (o : FlushEnd) :
    (s.flushStep o).writer.segmentId = s.writer.segmentId ∧
    (s.flushStep o).writer.currentLsn = s.writer.currentLsn ∧
    (s.flushStep o).returned = s.returned ∧ ∀ i, i ≠ s.writer.segmentId →
      (s.flushStep o).dir.file i = s.dir.file i := by
  by_cases hb : s.writer.buffer = []
  · rw [flushStep_empty hb]
    exact ⟨rfl, rfl, rfl, fun _ _ => rfl⟩
  · cases o with
    | ok =>
      rw [flushStep_ok hb]
      exact ⟨rfl, rfl, rfl, fun i hi => file_append_ne _ hi⟩
    | failed n =>
      rw [flushStep_failed hb]
      exact ⟨rfl, rfl, rfl, fun i hi => file_append_ne _ hi⟩

/-- What a flush does to a run: nothing when the buffer is empty, else the
pending records, or what the failed write has of them, go to the file. -/
theorem flushStep_cases (hb : s.writer.buffer = encodeAll s.pending)
    (o : FlushEnd) :
    (s.pending = [] ∧ (s.writer.flush s.dir o).1 = true ∧ s.flushStep o = s.ack) ∨
    (s.pending ≠ [] ∧ o = .ok ∧ (s.writer.flush s.dir o).1 = true ∧
      s.flushStep o = { s.ack with
        writer := { s.writer with
          buffer := []
          unsynced := 0
          durableLsn := max s.writer.durableLsn s.writer.currentLsn }
        dir := s.dir.append s.writer.segmentId (encodeAll s.pending) }) ∨
    (s.pending ≠ [] ∧ ∃ n, o = .failed n ∧ (s.writer.flush s.dir o).1 = false ∧
      s.flushStep o = { s with
        dir := s.dir.append s.writer.segmentId ((encodeAll s.pending).take n) }) := by
  have hnil : encodeAll s.pending = [] ↔ s.pending = [] := by
    constructor
    · intro he
      have := length_le_encodeAll s.pending
      rw [he, length_nil] at this
      exact length_eq_zero_iff.mp (by omega)
    · intro he; rw [he]; rfl
  by_cases hp : s.pending = []
  · left
    have hbuf : s.writer.buffer = [] := by rw [hb, hp]; rfl
    refine ⟨hp, ?_, flushStep_empty hbuf o⟩
    simp only [WalWriter.flush, if_pos hbuf]
  · right
    have hbuf : ¬ s.writer.buffer = [] := by rw [hb, hnil]; exact hp
    cases o with
    | ok =>
      left
      rw [flushStep_ok hbuf, hb]
      simp only [WalWriter.flush, if_neg hbuf]
      exact ⟨hp, trivial, trivial, trivial⟩
    | failed n =>
      right
      refine ⟨hp, n, rfl, ?_⟩
      rw [flushStep_failed hbuf, hb]
      simp only [WalWriter.flush, if_neg hbuf]
      exact ⟨trivial, trivial⟩

theorem acked_ack_self (s : WalRun) : s.ack.acked s.writer.segmentId =
      s.acked s.writer.segmentId ++ s.pending := by
  simp [WalRun.ack]

theorem acked_ack_ne {i : Nat} (hi : i ≠ s.writer.segmentId) : s.ack.acked i = s.acked i := by
  simp [WalRun.ack, hi]

theorem FilesOk.flush_ok (hrel : AckRel rel) (hs : FilesOk h rel s)
    {o : FlushEnd} (ho : (s.writer.flush s.dir o).1 = true) :
    FilesOk h rel (s.flushStep o) ∧ (s.flushStep o).pending = [] := by
  obtain ⟨rs, hfile, hw, hr⟩ := hs.current
  rcases flushStep_cases hs.buffer o with
    ⟨hp, -, heq⟩ | ⟨hp, -, -, heq⟩ | ⟨-, n, -, hf, -⟩
  · rw [heq]
    refine ⟨⟨⟨rs, hfile, hw, ?_⟩, ?_, nofun, ?_, ?_, hs.unarchived⟩, rfl⟩
    · show rel (s.ack.acked s.writer.segmentId) rs
      rw [acked_ack_self, hp, append_nil]
      exact hr
    · show s.writer.buffer = encodeAll []
      rw [hs.buffer, hp]
    · intro i hi c hc
      have hne : i ≠ s.writer.segmentId := Nat.ne_of_lt hi
      rw [acked_ack_ne hne]
      exact hs.closed i hi c hc
    · intro i hi
      have hne : i ≠ s.writer.segmentId := Nat.ne_of_gt hi
      rw [acked_ack_ne hne]
      exact hs.beyond i hi
  · rw [heq]
    refine ⟨⟨⟨rs ++ s.pending, ?_, hw.append hs.pending, ?_⟩, rfl, nofun, ?_,
      ?_, hs.unarchived⟩, rfl⟩
    · dsimp only
      rw [WalDir.live_append_self, hfile, Option.getD_some, encodeAll_append]
    · show rel (s.ack.acked s.writer.segmentId) (rs ++ s.pending)
      rw [acked_ack_self]
      exact hrel.append _ _ _ hr
    · intro i hi c hc
      dsimp only at hi hc ⊢
      rw [file_append_ne _ (Nat.ne_of_lt hi)] at hc
      rw [acked_ack_ne (Nat.ne_of_lt hi)]
      exact hs.closed i hi c hc
    · intro i hi
      dsimp only at hi ⊢
      rw [WalDir.live_append_ne _ _ (Nat.ne_of_gt hi), acked_ack_ne (Nat.ne_of_gt hi)]
      exact hs.beyond i hi
  · rw [ho] at hf
    cases hf

theorem segmentId_push (s : WalRun) (r : WalRecord) :
    (s.push r).writer.segmentId = s.writer.segmentId := rfl

theorem FilesOk.push (hs : FilesOk h rel s) {r : WalRecord} (hf : r.Fits)
    (hseal : r.Sealed h) : FilesOk h rel (s.push r) := by
  refine ⟨?_, ?_, ?_, ?_, ?_, ?_⟩ <;> try rw [segmentId_push]
  · exact hs.current
  · show s.writer.buffer ++ r.encode = encodeAll (s.pending ++ [r])
    rw [hs.buffer, encodeAll_append, encodeAll_cons, encodeAll_nil, append_nil]
  · refine hs.pending.append ?_
    intro q hq
    rw [mem_singleton.mp hq]
    exact ⟨hf, hseal⟩
  · exact hs.closed
  · exact hs.beyond
  · exact hs.unarchived

/-- A descriptor block is not a record: its magic is another. -/
theorem decode_descriptor (sd : SegmentDescriptor) (rest pre : Bytes) :
    decode h (pre ++ (sd.encode ++ rest)) pre.length = none := by
  refine decode_of_magic ?_
  rw [SegmentDescriptor.encode, append_assoc, readAt_append_left _ _ (length_natToBE _ _),
    beToNat_natToBE 4 _ (by decide)]
  decide

/-- Opening the next segment: a descriptor closes the file of this one, and
the new file is empty. -/
theorem nextSegment_spec (w : WalWriter) (d : WalDir) (now : Nat)
    (hnone : d.live (w.segmentId + 1) = none) :
    (w.nextSegment h d now).1.segmentId = w.segmentId + 1 ∧
    (w.nextSegment h d now).1.buffer = w.buffer ∧
    (w.nextSegment h d now).1.currentLsn = makeLsn (w.segmentId + 1) 0 ∧
    (w.nextSegment h d now).2.live (w.segmentId + 1) = some [] ∧
    (∀ i, w.segmentId + 1 < i → (w.nextSegment h d now).2.live i = d.live i) ∧
    (∀ i, w.segmentId + 1 ≤ i → (w.nextSegment h d now).2.archive i = d.archive i) ∧
    (∀ i, i < w.segmentId → (w.nextSegment h d now).2.file i = d.file i) ∧
    ∃ tail, (w.nextSegment h d now).2.file w.segmentId =
      some ((d.live w.segmentId).getD [] ++ tail) ∧
      ∀ pre, decode h (pre ++ tail) pre.length = none := by
  rw [WalWriter.nextSegment]
  dsimp only
  obtain ⟨sd, rest, hclosing⟩ : ∃ (sd : SegmentDescriptor) (rest : Bytes),
      w.closing h d now = sd.encode ++ rest := ⟨_, _, rfl⟩
  rw [hclosing]
  obtain ⟨hfile, hkeep⟩ := archiveOldSegments_spec
    ((d.append w.segmentId (sd.encode ++ rest)).create (w.segmentId + 1))
    w.segmentId
  refine ⟨rfl, rfl, rfl, ?_, ?_, ?_, ?_, sd.encode ++ rest, ?_, ?_⟩
  · rw [(hkeep _ (Nat.le_succ _)).1, WalDir.live_create_self,
      WalDir.live_append_ne _ _ (by omega), hnone]
    rfl
  · intro i hi
    rw [(hkeep i (by omega)).1, WalDir.live_create_ne _ (by omega),
      WalDir.live_append_ne _ _ (by omega)]
  · intro i hi
    rw [(hkeep i (by omega)).2, WalDir.archive_create, WalDir.archive_append]
  · intro i hi
    rw [hfile i, WalDir.file_congr (WalDir.live_create_ne _ (by omega)) rfl,
      file_append_ne _ (by omega)]
  · rw [hfile, WalDir.file_congr (WalDir.live_create_ne _ (by omega)) rfl]
    exact WalDir.file_of_live (WalDir.live_append_self _ _ _)
  · exact decode_descriptor sd rest

theorem FilesOk.advance (hrel : AckRel rel) (hs : FilesOk h rel s)
    (now : Nat) : FilesOk h rel (s.advance h now) := by
  obtain ⟨rs, hfile, hw, hr⟩ := hs.current
  obtain ⟨hnone, hack⟩ := hs.beyond (s.writer.segmentId + 1) (Nat.lt_succ_self _)
  obtain ⟨h1, h2, -, h4, h5, h6, h7, tail, h8, h9⟩ :=
    nextSegment_spec (h := h) s.writer s.dir now hnone
  refine ⟨⟨[], ?_, nofun, ?_⟩, ?_, hs.pending, ?_, ?_, ?_⟩
  · rw [WalRun.advance, h1, h4]; rfl
  · show rel (s.acked (s.writer.nextSegment h s.dir now).1.segmentId) []
    rw [h1, hack]
    exact hrel.nil
  · rw [WalRun.advance]
    dsimp only
    rw [h2, hs.buffer]
  · intro i hi c hc
    rw [WalRun.advance] at hi hc
    dsimp only at hi hc
    rw [h1] at hi
    rcases Nat.lt_or_eq_of_le (Nat.le_of_lt_succ hi) with hlt | rfl
    · rw [h7 i hlt] at hc
      exact hs.closed i hlt c hc
    · rw [h8, hfile, Option.getD_some] at hc
      cases hc
      exact ⟨rs, ⟨tail, rfl, h9⟩, hw, hr⟩
  · intro i hi
    rw [WalRun.advance] at hi ⊢
    dsimp only at hi ⊢
    rw [h1] at hi
    rw [h5 i hi]
    exact hs.beyond i (by omega)
  · intro i hi
    rw [WalRun.advance] at hi ⊢
    dsimp only at hi ⊢
    rw [h1] at hi
    rw [h6 i hi]
    exact hs.unarchived i (by omega)

theorem FilesOk.reclaim (hs : FilesOk h rel s) (ckpt : Nat) :
    FilesOk h rel (walStep h s (.reclaim ckpt)) := by
  obtain ⟨hl, ha⟩ := reclaim_spec s.dir ckpt
  rw [walStep]
  refine ⟨?_, hs.buffer, hs.pending, ?_, ?_, ?_⟩
  · dsimp only; rw [hl]; exact hs.current
  · intro i hi c hc
    refine hs.closed i hi c ?_
    rw [WalDir.file, hl, ha] at hc
    rw [WalDir.file]
    split at hc
    · exact hc
    · split at hc
      · cases hc
      · exact hc
  · intro i hi
    dsimp only
    rw [hl]
    exact hs.beyond i hi
  · intro i hi
    dsimp only
    rw [ha]
    split
    · rfl
    · exact hs.unarchived i hi

/-- What a scan of a segment file decodes. -/
theorem FilesOk.load (hs : FilesOk h rel s) {i : Nat} {c : Bytes}
    (hi : i ≤ s.writer.segmentId) (hc : s.dir.file i = some c) :
    rel (s.acked i) (loadSingleSegment h c) := by
  rcases Nat.lt_or_eq_of_le hi with hlt | rfl
  · obtain ⟨rs, ⟨tail, rfl, htail⟩, hw, hr⟩ := hs.closed i hlt c hc
    rw [(decode_segment hw fun pre => Or.inr (htail pre)).1]
    exact hr
  · obtain ⟨rs, hfile, hw, hr⟩ := hs.current
    rw [WalDir.file_of_live hfile] at hc
    cases hc
    have := (@decode_segment h [] rs hw fun _ => Or.inl rfl).1
    rw [append_nil] at this
    rw [this]
    exact hr

/-! ## Which files are there -/

/-- No segment from `lo` on has been deleted. -/
def Present (lo : Nat) (s : WalRun) : Prop :=
  ∀ i, lo ≤ i → i < s.writer.segmentId → (s.dir.file i).isSome

theorem present_start (h : WalHash) (lo : Nat) : Present lo (WalRun.start h) := by
  intro i _ hi
  rw [(start_spec h).1] at hi
  omega

theorem Present.flush {lo : Nat} (hs : Present lo s) (o : FlushEnd) :
    Present lo (s.flushStep o) := by
  obtain ⟨hseg, -, -, hfile⟩ := flushStep_frame s o
  intro i hlo hi
  rw [hseg] at hi
  rw [hfile i (Nat.ne_of_lt hi)]
  exact hs i hlo hi

theorem Present.isSome_file {lo i : Nat} (hs : Present lo s)
    (hf : FilesOk h rel s) (hlo : lo ≤ i) (hi : i ≤ s.writer.segmentId) :
    (s.dir.file i).isSome := by
  rcases Nat.lt_or_eq_of_le hi with hlt | rfl
  · exact hs i hlo hlt
  · obtain ⟨rs, hfile, -⟩ := hf.current
    rw [WalDir.file_of_live hfile]
    rfl

theorem Present.advance {lo : Nat} (hs : Present lo s)
    (hf : FilesOk h rel s) (now : Nat) : Present lo (s.advance h now) := by
  have hnone := (hf.beyond (s.writer.segmentId + 1) (Nat.lt_succ_self _)).1
  obtain ⟨h1, -, -, -, -, -, h7, tail, h8, -⟩ := nextSegment_spec (h := h) s.writer s.dir now hnone
  intro i hlo hi
  rw [WalRun.advance] at hi ⊢
  dsimp only at hi ⊢
  rw [h1] at hi
  rcases Nat.lt_or_eq_of_le (Nat.le_of_lt_succ hi) with hlt | rfl
  · rw [h7 i hlt]
    exact hs i hlo hlt
  · rw [h8]
    rfl

theorem Present.reclaim {lo ckpt : Nat} (hs : Present lo s)
    (hkeep : ∀ i, i < lsnSegmentId ckpt → lo ≤ i → s.dir.archive i = none) :
    Present lo (walStep h s (.reclaim ckpt)) := by
  obtain ⟨hl, ha⟩ := reclaim_spec s.dir ckpt
  intro i hlo hi
  have : (walStep h s (.reclaim ckpt)).dir.file i = s.dir.file i := by
    refine WalDir.file_congr (congrFun hl i) ?_
    rw [walStep]
    dsimp only
    rw [ha i]
    split
    · next hlt => exact (hkeep i hlt hlo).symm
    · rfl
  rw [this]
  exact hs i hlo hi

end Files

end RGraph.Wal
