import RGraph.Proofs.Analysis
import RGraph.Proofs.WalFlush

/-!
# Rolling back after a commit that failed

When the flush of a commit fails the commit record stays in the buffer, and
some of the buffer may be in the file. Recovery goes by the last commit or
abort record it reads, so what decides is whether some write puts the commit
record into the file and leaves the abort record behind it out.

A transaction is taken back when no write does that. A scan of a segment file
reads the pieces that were written one after another, up to the first that
ends in a torn record, so it is enough to look at the pieces one at a time.
-/

namespace RGraph.Wal

open RGraph.Lib RGraph.Graph WalRecord Aries List

def lastEnd (rs : List WalRecord) (t : Nat) : Option TxStatus :=
  (rs.filter (ofTx t)).reverse.findSome? fun r => endStatus r.recordType

theorem lastStatus_append_list (rs qs : List WalRecord) (t : Nat) :
    lastStatus (rs ++ qs) t = (lastEnd qs t).getD (lastStatus rs t) := by
  rw [lastStatus, filter_append, reverse_append, List.findSome?_append, lastStatus, lastEnd]
  cases List.findSome? _ (qs.filter (ofTx t)).reverse <;> rfl

/-- A piece that does not commit the transaction does not make it committed. -/
theorem committed_of_append {rs qs : List WalRecord} {t : Nat} (hq : lastStatus qs t ≠ .committed)
    (h : lastStatus (rs ++ qs) t = .committed) : lastStatus rs t = .committed := by
  rw [lastStatus_append_list] at h
  rw [show lastStatus qs t = (lastEnd qs t).getD .active from rfl] at hq
  cases he : lastEnd qs t with
  | none => rwa [he] at h
  | some st =>
    rw [he] at h hq
    exact absurd h hq

/-- The records that recovery from a checkpoint goes by. -/
def readFrom (c : Nat) (rs : List WalRecord) : List WalRecord := rs.filter fun r => r.lsn ≥ c

/-- Behind each commit record of the transaction there is an abort record of
it. -/
def AbortBehind (t : Nat) : List WalRecord → Prop
  | [] => True
  | r :: rs => (r.recordType = .commit ∧ r.txid = t →
      ∃ a ∈ rs, a.recordType = .abort ∧ a.txid = t) ∧ AbortBehind t rs

instance AbortBehind.decidable (t : Nat) : ∀ rs, Decidable (AbortBehind t rs)
  | [] => isTrue trivial
  | _ :: rs =>
    have := AbortBehind.decidable t rs
    inferInstanceAs (Decidable (_ ∧ _))

/-- A write of `bs` at the end of a segment file `f`: a commit record of the
transaction that is written is written with an abort record behind it, and a
record that is torn in the file is not completed by accident. -/
def Held (h : WalHash) (c t : Nat) (f bs : Bytes) : Prop :=
  AbortBehind t (readFrom c (loadSingleSegment h bs)) ∧
  (lastValidOffset h f < f.length → decode h (f ++ bs) (lastValidOffset h f) = none)

/-- So for writes one after another. -/
def AllHeld (h : WalHash) (c t : Nat) : Bytes → List Bytes → Prop
  | _, [] => True
  | f, bs :: rest => Held h c t f bs ∧ AllHeld h c t (f ++ bs) rest

instance (h : WalHash) (c t : Nat) (f bs : Bytes) : Decidable (Held h c t f bs) :=
  inferInstanceAs (Decidable (_ ∧ _))

instance AllHeld.decidable (h : WalHash) (c t : Nat) : ∀ f ws, Decidable (AllHeld h c t f ws)
  | _, [] => isTrue trivial
  | f, bs :: rest =>
    have := AllHeld.decidable h c t (f ++ bs) rest
    inferInstanceAs (Decidable (_ ∧ _))

/-- What a flush writes. -/
def WalWriter.written (w : WalWriter) : FlushEnd → Bytes
  | .ok => w.buffer
  | .failed n => w.buffer.take n

/-- What a call writes to the file of its segment, write by write. -/
def WalRun.writes (h : WalHash) (s : WalRun) : WalOp → List Bytes
  | .append e o =>
    if s.isFull (e.record.setLsn h s.writer.currentLsn) then [s.writer.written o] else []
  | .flush o => [s.writer.written o]
  | .rotate o now => s.writer.written o ::
    if (s.writer.flush s.dir o).1 then
      [(s.flushStep o).writer.closing h (s.flushStep o).dir now] else []
  | .reclaim _ => []
  | .reopen => []

/-- The file of the segment the writer is in. -/
def WalRun.content (s : WalRun) : Bytes := (s.dir.live s.writer.segmentId).getD []

/-- Every write of the call is held back so. -/
def Withheld (h : WalHash) (c t : Nat) (s : WalRun) (op : WalOp) : Prop :=
  AllHeld h c t s.content (s.writes h op)

instance (h : WalHash) (c t : Nat) (s : WalRun) (op : WalOp) : Decidable (Withheld h c t s op) :=
  AllHeld.decidable h c t _ _

/-- No file commits the transaction. -/
def Unfinished (h : WalHash) (c t : Nat) (d : WalDir) : Prop :=
  ∀ i f, d.file i = some f → lastStatus (readFrom c (loadSingleSegment h f)) t ≠ .committed

section Steps

variable {h : WalHash} {c t : Nat} {s : WalRun} {d : WalDir}

theorem AbortBehind.lastStatus_ne {rs : List WalRecord} (hrs : AbortBehind t rs) :
    lastStatus rs t ≠ .committed := by
  induction rs with
  | nil => exact nofun
  | cons r rs ih =>
    obtain ⟨hr, hrs⟩ := hrs
    intro hc
    rw [← singleton_append, lastStatus_append_list] at hc
    cases hend : lastEnd rs t with
    | some st =>
      -- the last record that ends the transaction is in the rest
      have hst : lastStatus rs t = st := congrArg (·.getD .active) hend
      rw [hend] at hc
      exact ih hrs (hst.trans hc)
    | none =>
      have hnone : ∀ a ∈ rs, ofTx t a = true → endStatus a.recordType = none := by
        intro a ha htx
        have := findSome?_eq_none_iff.mp hend a (mem_reverse.mpr (mem_filter.mpr ⟨ha, htx⟩))
        exact this
      rw [hend, Option.getD_none] at hc
      obtain ⟨hty, htx⟩ : r.recordType = .commit ∧ r.txid = t := by
        by_cases ho : ofTx t r = true
        · have hid : r.txid = t := (by simpa [ofTx] using ho : _ ∧ _).2
          refine ⟨?_, hid⟩
          rw [← nil_append [r], lastStatus_append [] ho] at hc
          revert hc
          cases r.recordType <;> simp [endStatus, lastStatus]
        · rw [lastStatus, filter_cons_of_neg ho] at hc
          cases hc
      obtain ⟨a, ha, haty, hatx⟩ := hr ⟨hty, htx⟩
      have := hnone a ha (by simp [ofTx, haty, hatx, isTxRecord])
      rw [haty] at this
      cases this

theorem readFrom_append (c : Nat) (rs qs : List WalRecord) :
    readFrom c (rs ++ qs) = readFrom c rs ++ readFrom c qs :=
  filter_append rs qs

theorem Unfinished.append {seg : Nat} {bs : Bytes} (hd : Unfinished h c t d)
    (hbs : Held h c t ((d.live seg).getD []) bs) : Unfinished h c t (d.append seg bs) := by
  intro i f hf
  by_cases hi : i = seg
  · subst hi
    have hold : lastStatus (readFrom c (loadSingleSegment h ((d.live i).getD []))) t ≠
        .committed := by
      cases hlive : d.live i with
      | none => rintro ⟨⟩
      | some old => exact hd i old (WalDir.file_of_live hlive)
    rw [WalDir.file_of_live (WalDir.live_append_self _ _ _)] at hf
    cases hf
    rcases loadSingleSegment_append hbs.2 with hload | hload
    · rw [hload]
      exact hold
    · rw [hload, readFrom_append]
      exact fun hc => hold (committed_of_append hbs.1.lastStatus_ne hc)
  · rw [file_append_ne _ hi] at hf
    exact hd i f hf

theorem Unfinished.create (hd : Unfinished h c t d) (seg : Nat) :
    Unfinished h c t (d.create seg) := by
  intro i f hf
  by_cases hi : i = seg
  · subst hi
    rw [WalDir.file_of_live (WalDir.live_create_self _ _)] at hf
    cases hf
    cases hlive : d.live i with
    | none => rintro ⟨⟩
    | some old => exact hd i old (WalDir.file_of_live hlive)
  · rw [WalDir.file_congr (WalDir.live_create_ne _ hi) rfl] at hf
    exact hd i f hf

theorem Unfinished.flush (hs : Unfinished h c t s.dir) {o : FlushEnd}
    (ho : Held h c t s.content (s.writer.written o)) : Unfinished h c t (s.flushStep o).dir := by
  by_cases hb : s.writer.buffer = []
  · rw [flushStep_empty hb]
    exact hs
  · cases o with
    | ok =>
      rw [flushStep_ok hb]
      exact hs.append ho
    | failed n =>
      rw [flushStep_failed hb]
      exact hs.append ho

theorem Unfinished.advance (hs : Unfinished h c t s.dir) {now : Nat}
    (hnow : Held h c t s.content (s.writer.closing h s.dir now)) :
    Unfinished h c t (s.advance h now).dir := by
  intro i f hf
  rw [WalRun.advance, WalWriter.nextSegment] at hf
  dsimp only at hf
  rw [(archiveOldSegments_spec _ _).1 i] at hf
  exact (hs.append hnow).create _ i f hf

theorem content_flushStep {o : FlushEnd} (hok : (s.writer.flush s.dir o).1 = true) :
    (s.flushStep o).content = s.content ++ s.writer.written o := by
  by_cases hb : s.writer.buffer = []
  · have hnil : s.writer.written o = [] := by
      cases o <;> simp [WalWriter.written, hb]
    rw [flushStep_empty hb, hnil, append_nil]
    rfl
  · cases o with
    | ok =>
      rw [flushStep_ok hb, WalRun.content]
      dsimp only
      rw [WalDir.live_append_self]
      rfl
    | failed n =>
      rw [WalWriter.flush, if_neg hb] at hok
      cases hok

theorem Unfinished.step {op : WalOp} (hs : Unfinished h c t s.dir)
    (hop : Withheld h c t s op) (hopen : op ≠ .reopen) : Unfinished h c t (walStep h s op).dir := by
  cases op with
  | append e o =>
    rw [Withheld, WalRun.writes] at hop
    rw [WalRun.append_eq]
    split
    · next hfull =>
        rw [if_pos hfull] at hop
        have hfl := hs.flush hop.1
        split
        · exact hfl
        · exact hfl
    · exact hs
  | flush o => exact hs.flush hop.1
  | rotate o now =>
    obtain ⟨hflush, hrest⟩ := hop
    rw [WalRun.rotate_eq]
    split
    · next hok =>
        rw [if_pos hok] at hrest
        refine (hs.flush hflush).advance ?_
        rw [content_flushStep hok]
        exact hrest.1
    · exact hs.flush hflush
  | reclaim ckpt =>
    obtain ⟨hl, ha⟩ := reclaim_spec s.dir ckpt
    intro i f hf
    refine hs i f ?_
    rw [walStep, WalDir.file, hl, ha] at hf
    rw [WalDir.file]
    split at hf
    · exact hf
    · split at hf
      · cases hf
      · exact hf
  | reopen => exact absurd rfl hopen

theorem Unfinished.run {ops : List WalOp}
    (hopen : ∀ op ∈ ops, op ≠ .reopen) (hs : Unfinished h c t s.dir)
    (hops : Guarded (walStep h) (Withheld h c t) s ops) :
    Unfinished h c t (run (walStep h) s ops).dir := by
  induction ops generalizing s with
  | nil => exact hs
  | cons op ops ih =>
    obtain ⟨hop, hops⟩ := guarded_cons.mp hops
    exact ih (fun w hw => hopen w (mem_cons_of_mem op hw))
      (hs.step hop (hopen op mem_cons_self)) hops

end Steps

/-! ## Runs -/

/-- Until the transaction's own commit has returned `Ok`, every call of the run
writes as `Withheld` asks. -/
def WithheldRun (h : WalHash) (c t : Nat) (ops : List TxLogOp) : Prop :=
  Guarded (TxLog.step h) (fun s op =>
    s.status t = .committed ∨ s.ended h op = some (t, .committed) ∨
      Guarded (walStep h) (Withheld h c t) s.wal (s.walOps h op))
    (TxLog.start h) ops

instance WithheldRun.decidable (h : WalHash) (c t : Nat)
    (ops : List TxLogOp) : Decidable (WithheldRun h c t ops) :=
  inferInstanceAs (Decidable (Guarded _ _ _ _))

end RGraph.Wal
