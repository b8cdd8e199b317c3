import RGraph.Graph.SessionLog
import RGraph.Proofs.Recovery

/-!
# Recovery applies what was committed

Redo looks up the status of a transaction by its id, so a page record of an
unfinished transaction is applied if another transaction of the same id has
its commit record in what recovery reads. Ids start at 1 in each session, and
recovery reads from the checkpoint on, the record at the checkpoint included,
and further back if a checkpoint lists a page that was dirty since before.

So the condition is on the two steps that can bring two transactions of one id
together: a transaction does not begin with an id that a commit or page record
of that range has, and a checkpoint does not list a page with an LSN below it.
-/

namespace RGraph.Graph

open RGraph.Lib RGraph.Storage RGraph.Wal Aries List

/-! ## What redo applies -/

variable {crc : Crc32c}

theorem redoStep_count {a : Tables} {m : Nat} {acc : Bytes × Nat}
    {r : WalRecord} (hpage : isPageRecord r.recordType)
    (h : (redoStep crc a m acc r).2 = acc.2 + 1) :
    m ≤ r.lsn ∧ statusOf a.att r.txid = some .committed := by
  have hclr : r.recordType ≠ .clr := fun hc => by rw [hc] at hpage; cases hpage
  rw [redoStep] at h
  split at h
  · omega
  · next hm =>
      rw [if_neg (not_not.mpr (Or.inl hpage))] at h
      split at h
      · omega
      · next hst =>
          refine ⟨Nat.not_lt.mp hm, ?_⟩
          by_contra hne
          exact hst ⟨hclr, hne⟩

/-- The tables of a recovery of this log. -/
def SessionLog.tables (s : SessionLog) : Tables :=
  analysis (since s.saved.lastCheckpointLsn s.records)

/-- Recovery writes the image of this page record: with the record redo counts
one image more than before it. -/
def Applies (crc : Crc32c) (s : SessionLog) (data : Bytes) (e : LogItem) : Prop :=
  isPageRecord e.record.recordType ∧ ∃ pre post, s.readable = pre ++ e :: post ∧
    (redo crc s.tables (pre.map (·.record) ++ [e.record]) data).2 =
      (redo crc s.tables (pre.map (·.record)) data).2 + 1

def CommitLogged (s : SessionLog) (tx : Nat) : Prop :=
  ∃ c ∈ s.log, c.tx = tx ∧ c.record.recordType = .commit

/-- Wherever the process stops, recovery applies page records of transactions
only that have their commit record in what is left of the log. -/
def RecoversCommitted (crc : Crc32c) (s : SessionLog) : Prop :=
  ∀ kept data e, Applies crc (s.crash kept) data e → CommitLogged (s.crash kept) e.tx

/-! ## The condition -/

/-- Recovery may read a record with this LSN: it is not below the checkpoint,
or not below the LSN of a page that a checkpoint since then lists. -/
def Reached (s : SessionLog) (lsn : Nat) : Prop :=
  s.saved.lastCheckpointLsn ≤ lsn ∨ ∃ e ∈ s.log, s.saved.lastCheckpointLsn ≤ e.record.lsn ∧
      e.record.recordType = .checkpointEnd ∧
      ∃ d ∈ dirtyPages e.record.payload, d.recLsn ≤ lsn

instance (s : SessionLog) (lsn : Nat) : Decidable (Reached s lsn) :=
  inferInstanceAs (Decidable (_ ∨ _))

/-- The records whose transaction ids redo compares. -/
def Compared (t : RecordType) : Prop := isPageRecord t ∨ t = .commit

instance (t : RecordType) : Decidable (Compared t) := inferInstanceAs (Decidable (_ ∨ _))

/-- A transaction does not begin with an id that recovery may find in a record
of another one, and a checkpoint does not send recovery further back. -/
def FreshIds (s : SessionLog) : SessionOp → Prop
  | .begin => ∀ e ∈ s.log, Compared e.record.recordType →
      Reached s e.record.lsn → e.record.txid ≠ s.nextTxid
  | .checkpoint dirty _ _ _ _ => ∀ d ∈ dirty, Reached s d.2.toNat
  | _ => True

instance FreshIds.decidable (s : SessionLog) : ∀ op, Decidable (FreshIds s op)
  | .begin => inferInstanceAs (Decidable (∀ e ∈ s.log, _))
  | .checkpoint dirty .. => List.decidableBAll _ dirty
  | .log .. | .bare .. | .commit .. | .rollback .. | .flush | .saveSuperblock
  | .reopen .. => isTrue trivial

variable {s : SessionLog}

theorem Reached.le {l l' : Nat} (h : Reached s l) (hle : l ≤ l') : Reached s l' := by
  rcases h with h | ⟨e, he, hlsn, ht, d, hd, hdl⟩
  · exact .inl (h.trans hle)
  · exact .inr ⟨e, he, hlsn, ht, d, hd, hdl.trans hle⟩

variable {lsn : Nat}

theorem Reached.mono {s' : SessionLog} (hlog : ∀ e ∈ s'.log, e ∈ s.log)
    (hsaved : s.saved.lastCheckpointLsn ≤ s'.saved.lastCheckpointLsn)
    (h : Reached s' lsn) : Reached s lsn := by
  rcases h with h | ⟨e, he, hlsn, ht, hd⟩
  · exact .inl (hsaved.trans h)
  · exact .inr ⟨e, hlog e he, hsaved.trans hlsn, ht, hd⟩

theorem reached_of_applied (hne : s.tables.dpt ≠ [])
    (hle : ((s.tables.dpt.map (·.recLsn)).min?).getD 0 ≤ lsn) : Reached s lsn := by
  obtain ⟨⟨d, hd, hmin⟩, -⟩ := min_recLsn hne
  obtain ⟨r, hr, hsrc⟩ := analysis_pageSource hd
  obtain ⟨hr, hlsn⟩ := mem_since.mp hr
  obtain ⟨e, he, rfl⟩ := mem_map.mp hr
  have hlog := (mem_filter.mp he).1
  rw [← hmin] at hle
  rcases hsrc with heq | ⟨ht, hmem⟩
  · exact .inl (by omega)
  · exact .inr ⟨e, hlog, hlsn, ht, d, hmem, hle⟩

theorem Applies.reached {data : Bytes} {e : LogItem} (h : Applies crc s data e) :
    e ∈ s.log ∧ Reached s e.record.lsn ∧ ∃ c ∈ s.log, c.record.recordType = .commit ∧
        c.record.txid = e.record.txid ∧ Reached s c.record.lsn := by
  obtain ⟨hpage, pre, post, hsplit, hcount⟩ := h
  have hmem : e ∈ s.readable := by rw [hsplit]; simp
  have hne : s.tables.dpt ≠ [] := by
    intro hnil
    rw [redo, redo, hnil] at hcount
    cases hcount
  have hempty : ¬ s.tables.dpt.isEmpty = true := by
    rwa [List.isEmpty_iff]
  rw [redo, redo, if_neg hempty, if_neg hempty, foldl_append] at hcount
  obtain ⟨hm, hst⟩ := redoStep_count hpage hcount
  obtain ⟨a, ha, hcom⟩ := Option.map_eq_some_iff.mp hst
  have htx : a.txid = e.record.txid := by simpa using List.find?_some ha
  obtain ⟨r, hr, ht, hrtx⟩ := analysis_committed (mem_of_find?_eq_some ha) hcom
  obtain ⟨hr, hlsn⟩ := mem_since.mp hr
  obtain ⟨c, hc, rfl⟩ := mem_map.mp hr
  exact ⟨(mem_filter.mp hmem).1, reached_of_applied hne hm, c,
    (mem_filter.mp hc).1, ht, hrtx.trans htx, Or.inl hlsn⟩

/-! ## The invariant -/

/-- An LSN of a record on disk, or none. -/
def OnDisk (s : SessionLog) (lsn : Nat) : Prop :=
  lsn = 0 ∨ ∃ e ∈ s.log.take s.flushed, e.record.lsn = lsn

theorem OnDisk.mono {s' : SessionLog} (h : ∀ e ∈ s.log.take s.flushed, e ∈ s'.log.take s'.flushed)
    (hlsn : OnDisk s lsn) : OnDisk s' lsn :=
  hlsn.imp_right fun ⟨e, he, hl⟩ => ⟨e, h e he, hl⟩

/-- How the LSNs lie. -/
structure Numbered (s : SessionLog) : Prop where
  sorted : s.log.Pairwise (·.record.lsn < ·.record.lsn)
  last : ∀ e ∈ s.log, e.record.lsn ≤ s.lastLsn
  flushed : s.flushed ≤ s.log.length
  le : s.saved.lastCheckpointLsn ≤ s.marks.lastCheckpointLsn
  ckpt : OnDisk s s.marks.lastCheckpointLsn
  savedCkpt : OnDisk s s.saved.lastCheckpointLsn

/-- In what recovery may read, an id belongs to one transaction. -/
structure OwnIds (s : SessionLog) : Prop where
  unique : ∀ e ∈ s.log, ∀ f ∈ s.log, Compared e.record.recordType →
    Compared f.record.recordType → Reached s e.record.lsn →
    Reached s f.record.lsn → e.record.txid = f.record.txid → e.tx = f.tx
  active : ∀ a ∈ s.active, ∀ e ∈ s.log, Compared e.record.recordType →
    Reached s e.record.lsn → e.record.txid = a.1 → e.tx = a.2
  below : ∀ a ∈ s.active, a.1 < s.nextTxid
  ids : s.active.Pairwise (·.1 < ·.1)

theorem OwnIds.recoversCommitted (hs : ∀ kept, OwnIds (s.crash kept)) :
    RecoversCommitted crc s := by
  intro kept data e happ
  obtain ⟨he, hreach, c, hc, ht, htx, hcreach⟩ := happ.reached
  refine ⟨c, hc, ?_, ht⟩
  exact (hs kept).unique c hc e he (Or.inr ht) (Or.inl happ.1) hcreach hreach htx

section Append

variable {h : WalHash} {s : SessionLog} {tx : Nat} {t : RecordType}
  {txid prevLsn : Nat} {payload : Bytes} {gap now : Nat}

theorem append_cases : s.append h tx t txid prevLsn payload gap now = s ∨
    ∃ x : LogItem, x.tx = tx ∧ x.record.recordType = t ∧
      x.record.txid = txid ∧ x.record.payload = payload ∧ x.record.lsn = s.lastLsn + 1 + gap ∧
      s.append h tx t txid prevLsn payload gap now =
        { s with log := s.log ++ [x], lastLsn := s.lastLsn + 1 + gap } := by
  rw [SessionLog.append]
  split
  · exact .inr ⟨_, rfl, rfl, rfl, rfl, rfl, rfl⟩
  · exact .inl rfl

theorem append_of_lt (hlt : s.lastLsn + 1 + gap < 2 ^ 64) :
    s.append h tx t txid prevLsn payload gap now =
      { s with
        log := s.log ++ [⟨tx, WalRecord.new h now t txid (s.lastLsn + 1 + gap) prevLsn payload⟩]
        lastLsn := s.lastLsn + 1 + gap } := by
  rw [SessionLog.append, if_pos hlt]

/-- Records are appended, and nothing else changes. -/
structure Grown (s s' : SessionLog) : Prop where
  log : s.log <+: s'.log
  flushed : s'.flushed = s.flushed
  saved : s'.saved = s.saved
  marks : s'.marks = s.marks
  active : s'.active = s.active

theorem grown_append : Grown s (s.append h tx t txid prevLsn payload gap now) := by
  rcases append_cases (s := s) (h := h) (t := t) with
    heq | ⟨x, -, -, -, -, -, heq⟩ <;> rw [heq]
  · exact ⟨prefix_rfl, rfl, rfl, rfl, rfl⟩
  · exact ⟨prefix_append _ _, rfl, rfl, rfl, rfl⟩

theorem Grown.trans {s₁ s₂ : SessionLog} (h₁ : Grown s s₁) (h₂ : Grown s₁ s₂) : Grown s s₂ :=
  ⟨h₁.log.trans h₂.log, h₂.flushed.trans h₁.flushed, h₂.saved.trans h₁.saved,
    h₂.marks.trans h₁.marks, h₂.active.trans h₁.active⟩

/-- What is on disk is the same as before. -/
theorem Grown.onDisk {s' : SessionLog} (hg : Grown s s')
    (hle : s.flushed ≤ s.log.length) {lsn : Nat} (hlsn : OnDisk s lsn) : OnDisk s' lsn := by
  refine hlsn.mono fun e he => ?_
  obtain ⟨t, ht⟩ := hg.log
  rw [hg.flushed, ← ht, take_append_of_le_length hle]
  exact he

theorem Numbered.append (hs : Numbered s) :
    Numbered (s.append h tx t txid prevLsn payload gap now) := by
  have hg : Grown s (s.append h tx t txid prevLsn payload gap now) := grown_append
  have hckpt := hg.onDisk hs.flushed hs.ckpt
  have hsaved := hg.onDisk hs.flushed hs.savedCkpt
  rcases append_cases (s := s) (h := h) (t := t) with
    heq | ⟨x, -, -, -, -, hx, heq⟩
  · rw [heq]
    exact hs
  · rw [heq] at hckpt hsaved ⊢
    refine ⟨?_, ?_, ?_, hs.le, hckpt, hsaved⟩
    · refine pairwise_append.mpr ⟨hs.sorted, pairwise_singleton _ _, fun e he f hf => ?_⟩
      rw [mem_singleton.mp hf, hx]
      have := hs.last e he
      omega
    · intro e he
      rcases mem_append.mp he with he | he
      · have := hs.last e he
        dsimp only
        omega
      · rw [mem_singleton.mp he, hx]
    · rw [length_append]
      exact Nat.le_trans hs.flushed (Nat.le_add_right _ _)

/-- A record that redo compares is one of an active transaction. -/
theorem OwnIds.append (hs : OwnIds s) (hown : Compared t → (txid, tx) ∈ s.active)
    (hdirty : t = .checkpointEnd → ∀ d ∈ dirtyPages payload, Reached s d.recLsn) :
    OwnIds (s.append h tx t txid prevLsn payload gap now) := by
  rcases append_cases (s := s) (h := h) (t := t) with
    heq | ⟨x, hxtx, hxt, hxid, hxp, -, heq⟩
  · rw [heq]
    exact hs
  · rw [heq]
    subst hxtx hxt hxid hxp
    have hreach : ∀ lsn, Reached { s with
        log := s.log ++ [x], lastLsn := s.lastLsn + 1 + gap } lsn →
        Reached s lsn := by
      intro lsn hr
      rcases hr with hr | ⟨e, he, hlsn, ht, d, hd, hdl⟩
      · exact .inl hr
      · rcases mem_append.mp he with he | he
        · exact .inr ⟨e, he, hlsn, ht, d, hd, hdl⟩
        · rw [mem_singleton.mp he] at ht hd
          exact (hdirty ht d hd).le hdl
    have hmine : ∀ a ∈ s.active, Compared x.record.recordType →
        x.record.txid = a.1 → x.tx = a.2 := by
      intro a ha hx hid
      have hmem := hown hx
      by_contra hne
      have hne' : (x.record.txid, x.tx) ≠ a := fun heq => hne (by rw [← heq])
      rcases pairwise_or hs.ids hmem ha hne' with hlt | hlt <;>
        exact absurd hid (by dsimp only at hlt; omega)
    have hactive : ∀ e ∈ s.log, Compared e.record.recordType →
        Compared x.record.recordType → Reached s e.record.lsn →
        e.record.txid = x.record.txid → e.tx = x.tx :=
      fun e he hce hcx hr hid => hs.active _ (hown hcx) e he hce hr hid
    refine ⟨?_, ?_, hs.below, hs.ids⟩
    · intro e he f hf hce hcf hre hrf hid
      have hre := hreach _ hre
      have hrf := hreach _ hrf
      rcases mem_append.mp he with he | he <;> rcases mem_append.mp hf with hf | hf
      · exact hs.unique e he f hf hce hcf hre hrf hid
      · rw [mem_singleton.mp hf] at hcf hid ⊢
        exact hactive e he hce hcf hre hid
      · rw [mem_singleton.mp he] at hce hid ⊢
        exact (hactive f hf hcf hce hrf hid.symm).symm
      · rw [mem_singleton.mp he, mem_singleton.mp hf]
    · intro a ha e he hce hre hid
      rcases mem_append.mp he with he | he
      · exact hs.active a ha e he hce (hreach _ hre) hid
      · rw [mem_singleton.mp he] at hce hid ⊢
        exact hmine a ha hce hid

theorem OwnIds.mono {s' : SessionLog} (hs : OwnIds s) (hlog : ∀ e ∈ s'.log, e ∈ s.log)
    (hsaved : s.saved.lastCheckpointLsn ≤ s'.saved.lastCheckpointLsn)
    (hactive : s'.active.Sublist s.active)
    (hnext : s'.active = [] ∨ s.nextTxid ≤ s'.nextTxid) : OwnIds s' := by
  have hreach : ∀ lsn, Reached s' lsn → Reached s lsn := fun lsn hr => hr.mono hlog hsaved
  refine ⟨?_, ?_, ?_, hs.ids.sublist hactive⟩
  · intro e he f hf hce hcf hre hrf
    exact hs.unique e (hlog e he) f (hlog f hf) hce hcf (hreach _ hre) (hreach _ hrf)
  · intro a ha e he hce hre
    exact hs.active a (hactive.subset ha) e (hlog e he) hce (hreach _ hre)
  · intro a ha
    rcases hnext with hnil | hle
    · rw [hnil] at ha
      cases ha
    · exact Nat.lt_of_lt_of_le (hs.below a (hactive.subset ha)) hle

end Append

/-! ## Steps -/

/-- The payload of a checkpoint lists what it was given. -/
theorem dirtyPages_checkpointEndPayload {dirty : List (UInt64 × UInt64)}
    {d : DptEntry} (hd : d ∈ dirtyPages (checkpointEndPayload dirty)) :
    ∃ x ∈ dirty, d.recLsn = x.2.toNat := by
  have hcount : beToNat (readAt (checkpointEndPayload dirty) 0 4) ≤ dirty.length := by
    rw [checkpointEndPayload, readAt_append_left _ _ (length_natToBE _ _)]
    exact beToNat_natToBE_le _ _
  rw [dirtyPages] at hd
  split at hd
  · cases hd
  · obtain ⟨i, hi, rfl⟩ := mem_map.mp hd
    have hlt := Nat.lt_of_lt_of_le (mem_range.mp hi) hcount
    refine ⟨dirty[i], getElem_mem hlt, ?_⟩
    have hblock : readAt (checkpointEndPayload dirty) (4 + i * 16) 16 =
        natToBE 8 dirty[i].1.toNat ++ natToBE 8 dirty[i].2.toNat := by
      rw [checkpointEndPayload, readAt_append_right _ _ (by
        rw [length_natToBE]
        omega), length_natToBE, Nat.add_sub_cancel_left]
      exact readAt_flatMap (fun d => by simp) (List.getElem?_eq_getElem hlt) _
    have hfield : readAt (checkpointEndPayload dirty) (4 + i * 16 + 8) 8 =
        natToBE 8 dirty[i].2.toNat := by
      rw [← readAt_readAt _ (n := 16) (by omega), hblock,
        readAt_append_right _ _ (by rw [length_natToBE]), length_natToBE]
      exact readAt_of_append [] _ [] (by simp) rfl (length_natToBE _ _)
    dsimp only
    rw [hfield, beToNat_natToBE]
    exact dirty[i].2.toNat_lt

structure MarksOk (s : SessionLog) : Prop where
  numbered : Numbered s
  ownIds : OwnIds s

section Steps

variable {h : WalHash} {crc : Crc32c} {s : SessionLog}

variable {now tx txid : Nat}

theorem MarksOk.append (hs : MarksOk s) {t : RecordType} {prevLsn : Nat}
    {payload : Bytes} {gap : Nat} (hown : Compared t → (txid, tx) ∈ s.active)
    (hdirty : t = .checkpointEnd → ∀ d ∈ dirtyPages payload, Reached s d.recLsn) :
    MarksOk (s.append h tx t txid prevLsn payload gap now) :=
  ⟨hs.numbered.append, hs.ownIds.append hown hdirty⟩

theorem MarksOk.flush (hs : MarksOk s) : MarksOk s.flush := by
  have htake : ∀ e ∈ s.log.take s.flushed, e ∈ s.flush.log.take s.flush.flushed := by
    intro e he
    rw [SessionLog.flush, take_length]
    exact mem_of_mem_take he
  exact ⟨{ hs.numbered with
    flushed := Nat.le_refl _
    ckpt := hs.numbered.ckpt.mono htake
    savedCkpt := hs.numbered.savedCkpt.mono htake }, { hs.ownIds with }⟩

theorem MarksOk.finish (hs : MarksOk s) (txid : Nat) : MarksOk (s.finish txid) :=
  ⟨{ hs.numbered with }, hs.ownIds.mono (fun _ he => he) (Nat.le_refl _)
    filter_sublist (Or.inr (Nat.le_refl _))⟩

theorem MarksOk.next (hs : MarksOk s) : MarksOk { s with begun := s.begun + 1 } :=
  ⟨{ hs.numbered with }, { hs.ownIds with }⟩

theorem MarksOk.logRecord (hs : MarksOk s) {t : RecordType} {payload : Bytes}
    {gap : Nat} (hown : Compared t → (txid, tx) ∈ s.active) (ht : t ≠ .checkpointEnd) :
    MarksOk (s.logRecord h tx t txid payload gap now) := by
  have happ : MarksOk (s.append h tx t txid s.marks.currentWalLsn payload gap
      now) := hs.append hown fun h => absurd h ht
  rw [SessionLog.logRecord]
  split
  · exact ⟨{ happ.numbered with }, { happ.ownIds with }⟩
  · exact happ

theorem le_getLast {log : List LogItem}
    (hsorted : log.Pairwise (·.record.lsn < ·.record.lsn)) {e : LogItem} (he : e ∈ log) :
    e.record.lsn ≤ (log.getLast?.map (·.record.lsn)).getD 0 := by
  cases hlast : log.getLast? with
  | none =>
    rw [List.getLast?_eq_none_iff.mp hlast] at he
    cases he
  | some x =>
    obtain ⟨ys, rfl⟩ := List.getLast?_eq_some_iff.mp hlast
    rw [Option.map_some, Option.getD_some]
    rcases mem_append.mp he with he | he
    · exact Nat.le_of_lt ((pairwise_append.mp hsorted).2.2 e he x (mem_singleton_self x))
    · rw [mem_singleton.mp he]

theorem MarksOk.crash (hs : MarksOk s) (kept : Nat) : MarksOk (s.crash kept) := by
  obtain ⟨hn, hids⟩ := hs
  have htake : ∀ e ∈ s.log.take s.flushed,
      e ∈ (s.crash kept).log.take (s.crash kept).flushed := by
    intro e he
    rw [SessionLog.crash, take_length]
    exact (take_prefix_take_left (Nat.le_max_right _ _)).subset he
  have hckpt : OnDisk (s.crash kept) s.saved.lastCheckpointLsn := hn.savedCkpt.mono htake
  have hsorted := hn.sorted.sublist (take_sublist (max kept s.flushed) _)
  refine ⟨⟨hsorted, fun e he => le_getLast hsorted he, Nat.le_refl _,
    Nat.le_refl _, hckpt, hckpt⟩, hids.mono ?_ (Nat.le_refl _) (nil_sublist _) (Or.inl rfl)⟩
  exact fun e he => mem_of_mem_take he

theorem MarksOk.checkpoint (hs : MarksOk s) {dirty : List (UInt64 × UInt64)}
    (hdirty : ∀ d ∈ dirty, Reached s d.2.toNat) (archived : List Nat)
    (gap now : Nat) (stop : CheckpointEnd) :
    MarksOk (s.checkpoint h dirty archived gap now stop) := by
  obtain ⟨b, hbegin⟩ : ∃ b, b = s.append h s.begun .checkpointBegin 0 0 [] gap now := ⟨_, rfl⟩
  have hb : MarksOk b := by
    rw [hbegin]
    exact hs.append (fun hc => absurd hc (by decide)) nofun
  have hgb : Grown s b := hbegin ▸ grown_append
  obtain ⟨e, hend⟩ : ∃ e, e = b.flush.append h s.begun .checkpointEnd 0 0
    (checkpointEndPayload dirty) 0 now := ⟨_, rfl⟩
  have hge : Grown b.flush e := hend ▸ grown_append
  have he : MarksOk e := by
    rw [hend]
    refine hb.flush.append (fun hc => absurd hc (by decide)) fun _ d hd => ?_
    obtain ⟨x, hx, hlsn⟩ := dirtyPages_checkpointEndPayload hd
    rw [hlsn]
    refine (hdirty x hx).mono (fun e he => hgb.log.subset he) ?_
    show b.saved.lastCheckpointLsn ≤ _
    rw [hgb.saved]
  simp only [SessionLog.checkpoint, ← hbegin, ← hend]
  cases stop with
  | begun => exact hb
  | written => exact he
  | done =>
    dsimp only
    split
    · next hlt =>
        obtain ⟨x, hx, hlsn⟩ : ∃ x ∈ b.log, x.record.lsn = s.lastLsn + 1 + gap := by
          rw [hbegin, append_of_lt (by omega)]
          exact ⟨_, mem_append_right _ (mem_singleton_self _), rfl⟩
        have hle : e.saved.lastCheckpointLsn ≤ s.lastLsn + 1 + gap := by
          rw [hge.saved, SessionLog.flush, hgb.saved]
          rcases hs.numbered.savedCkpt with h0 | ⟨y, hy, hl⟩
          · omega
          · have := hs.numbered.last y (mem_of_mem_take hy)
            omega
        have hdisk : OnDisk e.flush (s.lastLsn + 1 + gap) := by
          refine .inr ⟨x, ?_, hlsn⟩
          rw [SessionLog.flush, take_length]
          exact hge.log.subset hx
        exact ⟨{ he.flush.numbered with le := hle, ckpt := hdisk },
          { he.flush.ownIds with }⟩
    · exact he

theorem undoRecord_clrs (h : WalHash) (now : Nat) (r : WalRecord) {u : Undone}
    (hu : ∀ c ∈ u.clrs, c.recordType = .clr) :
    ∀ c ∈ (undoRecord h now r u).clrs, c.recordType = .clr := by
  rw [undoRecord]
  split
  · split
    · intro c hc
      rcases mem_append.mp hc with hc | hc
      · exact hu c hc
      · rw [mem_singleton.mp hc]
        rfl
    · exact hu
  · exact hu

/-- Undo writes compensation records only. -/
theorem undo_clrs {a : Tables} {rs : List WalRecord} {data : Bytes}
    {u : Undone} (hu : undo h now a rs data = some u) : ∀ c ∈ u.clrs, c.recordType = .clr := by
  rw [undo] at hu
  have hfold : ∀ (es : List AttEntry) (v : Undone), (∀ c ∈ v.clrs, c.recordType = .clr) →
      es.foldlM (fun u e => undoChain h now rs (rs.length + 1) e.lastLsn u)
        v = some u → ∀ c ∈ u.clrs, c.recordType = .clr := by
    intro es
    induction es with
    | nil =>
      intro v hv hfold
      cases hfold
      exact hv
    | cons e es ih =>
      intro v hv hfold
      rw [foldlM_cons, Option.bind_eq_bind, Option.bind_eq_some_iff] at hfold
      obtain ⟨w, hw, hfold⟩ := hfold
      refine ih w ?_ hfold
      exact undoChain_inv (P := fun u => ∀ c ∈ u.clrs, c.recordType = .clr)
        (fun r _ _ => undoRecord_clrs h now r) hv hw
  exact hfold _ _ (fun c hc => absurd hc not_mem_nil) hu

theorem MarksOk.appendClrs (h : WalHash) (now : Nat) :
    ∀ {clrs : List WalRecord} {s : SessionLog}, MarksOk s →
    (∀ r ∈ clrs, r.recordType = .clr) →
    let s' := clrs.foldl (fun s r =>
      s.append h s.begun r.recordType r.txid r.prevLsn r.payload 0 now) s
    MarksOk s' ∧ Grown s s'
  | [], _, hs, _ => ⟨hs, prefix_rfl, rfl, rfl, rfl, rfl⟩
  | r :: clrs, s, hs, hclrs => by
    have hr := hclrs r mem_cons_self
    have happ : MarksOk (s.append h s.begun r.recordType r.txid r.prevLsn r.payload 0 now) := by
      rw [hr]
      exact hs.append (fun hc => absurd hc (by decide)) nofun
    obtain ⟨hok, hgrown⟩ := MarksOk.appendClrs h now happ
      fun q hq => hclrs q (mem_cons_of_mem _ hq)
    exact ⟨hok, grown_append.trans hgrown⟩

theorem maxLsn_tables (hall : s.flushed = s.log.length) (hpos : s.tables.maxLsn > 0) :
    s.saved.lastCheckpointLsn ≤ s.tables.maxLsn ∧ OnDisk s s.tables.maxLsn := by
  obtain ⟨r, hr, hlsn⟩ := (analysis_maxLsn
    (since s.saved.lastCheckpointLsn s.records)).2.resolve_left (Nat.ne_of_gt hpos)
  obtain ⟨hr, hle⟩ := mem_since.mp hr
  obtain ⟨e, he, rfl⟩ := mem_map.mp hr
  refine ⟨Nat.le_trans hle (Nat.le_of_eq hlsn), Or.inr ⟨e, ?_, hlsn⟩⟩
  rw [hall, take_length]
  exact (mem_filter.mp he).1

theorem MarksOk.recover (hs : MarksOk s) (hall : s.flushed = s.log.length)
    (hclosed : s.active = []) (data : Bytes) (now : Nat) (completed : Bool) :
    MarksOk (s.recover h crc data now completed) := by
  rw [SessionLog.recover]
  split
  · exact hs
  · next res hres =>
      rw [runAllPhases] at hres
      dsimp only at hres
      split at hres
      · cases hres
      · next u hu =>
          obtain ⟨hok, hg⟩ := hs.appendClrs h now (undo_clrs hu)
          cases hres
          dsimp only
          split
          · have hmoved : ∀ m : LogMarks, m = (if s.tables.maxLsn > 0 then
                  ⟨s.tables.maxLsn, s.tables.maxLsn⟩ else s.marks) →
                s.saved.lastCheckpointLsn ≤ m.lastCheckpointLsn ∧
                  OnDisk s m.lastCheckpointLsn := by
              intro m hm
              split at hm
              · next hpos =>
                  rw [hm]
                  exact maxLsn_tables hall hpos
              · rw [hm]
                exact ⟨hs.numbered.le, hs.numbered.ckpt⟩
            rw [← hg.marks] at hmoved
            obtain ⟨hle, hdisk⟩ := hmoved _ rfl
            rw [← hg.saved] at hle
            have hdisk := hg.onDisk hs.numbered.flushed hdisk
            exact ⟨{ hok.numbered with
              le := Nat.le_refl _
              ckpt := hdisk
              savedCkpt := hdisk }, hok.ownIds.mono (fun _ he => he) hle
                (List.Sublist.refl _) (Or.inl (hg.active.trans hclosed))⟩
          · exact hok.next

theorem MarksOk.begin (hs : MarksOk s) (hfresh : FreshIds s .begin) :
    MarksOk { s with
      nextTxid := s.nextTxid + 1
      begun := s.begun + 1
      active := s.active ++ [(s.nextTxid, s.begun)] } := by
  obtain ⟨hn, hids⟩ := hs
  refine ⟨⟨hn.sorted, hn.last, hn.flushed, hn.le, hn.ckpt, hn.savedCkpt⟩, hids.unique, ?_, ?_, ?_⟩
  · intro a ha e he hce hre hid
    rcases mem_append.mp ha with ha | ha
    · exact hids.active a ha e he hce hre hid
    · rw [mem_singleton.mp ha] at hid
      exact absurd hid (hfresh e he hce hre)
  · intro a ha
    rcases mem_append.mp ha with ha | ha
    · exact Nat.lt_succ_of_lt (hids.below a ha)
    · rw [mem_singleton.mp ha]
      exact Nat.lt_succ_self _
  · refine pairwise_append.mpr ⟨hids.ids, pairwise_singleton _ _, fun a ha b hb => ?_⟩
    rw [mem_singleton.mp hb]
    exact hids.below a ha

theorem mem_active {t : Nat} (hf : s.active.find? (·.1 == txid) = some (t, tx)) :
    (txid, tx) ∈ s.active := by
  have hid : t = txid := by simpa using List.find?_some hf
  rw [← hid]
  exact mem_of_find?_eq_some hf

theorem not_checkpointEnd (r : TxRecord) : r.recordType ≠ .checkpointEnd := by
  cases r <;> exact nofun

theorem bare_not_checkpointEnd (r : BareRecord) :
    r.recordType ≠ .checkpointEnd ∧ ¬ Compared r.recordType := by
  cases r <;> exact ⟨nofun, by rw [BareRecord.recordType]; decide⟩

theorem MarksOk.step (s : SessionLog) (op : SessionOp) (hs : MarksOk s)
    (hop : FreshIds s op) : MarksOk (sessionLogStep h crc s op) := by
  cases op with
  | reopen kept data now completed => exact (hs.crash kept).recover rfl rfl data now completed
  | begin =>
    rw [sessionLogStep]
    split
    · exact hs
    · exact hs.begin hop
  | log txid r gap now =>
    rw [sessionLogStep]
    split
    · exact hs
    · split
      · exact hs
      · next hf => exact hs.logRecord (fun _ => mem_active hf) (not_checkpointEnd r)
  | bare r gap now =>
    rw [sessionLogStep]
    split
    · exact hs
    · obtain ⟨ht, hc⟩ := bare_not_checkpointEnd r
      exact (hs.logRecord (fun h => absurd h hc) ht).next
  | commit txid gap now flushed =>
    rw [sessionLogStep]
    split
    · exact hs
    · dsimp only
      split
      · exact hs
      · next t tx hf =>
          have happ : MarksOk (s.append h tx .commit txid 0 [] gap now) :=
            hs.append (fun _ => mem_active hf) nofun
          split
          · exact happ.flush.finish txid
          · exact happ
  | rollback txid gap now =>
    rw [sessionLogStep]
    split
    · exact hs
    · split
      · exact hs
      · next t tx hf =>
          have happ : MarksOk (s.append h tx .abort txid 0 [] gap now) :=
            hs.append (fun hc => absurd hc (by decide)) nofun
          exact happ.finish txid
  | flush =>
    rw [sessionLogStep]
    split
    · exact hs
    · exact hs.flush
  | checkpoint dirty archived gap now stop =>
    rw [sessionLogStep]
    split
    · exact hs
    · exact (hs.checkpoint hop archived gap now stop).next
  | saveSuperblock =>
    rw [sessionLogStep]
    split
    · exact hs
    · exact ⟨{ hs.numbered with
        le := Nat.le_refl _
        savedCkpt := hs.numbered.ckpt }, hs.ownIds.mono (fun _ he => he)
          hs.numbered.le (List.Sublist.refl _) (Or.inr (Nat.le_refl _))⟩

end Steps

theorem marksOk_start : MarksOk .start :=
  ⟨⟨.nil, nofun, Nat.le_refl _, Nat.le_refl _, Or.inl rfl, Or.inl rfl⟩, nofun, nofun, nofun, .nil⟩

theorem recovery_applies_committed (h : WalHash) (crc : Crc32c) {ops : List SessionOp}
    (hg : Guarded (sessionLogStep h crc) FreshIds .start ops) (n : Nat) :
    RecoversCommitted crc (run (sessionLogStep h crc) .start (ops.take n)) := by
  have hs := run_inv_take MarksOk.step marksOk_start hg n
  exact OwnIds.recoversCommitted fun kept => (hs.crash kept).ownIds

/-- Transaction 2 commits, and in the next session transaction 1 does, with a
checkpoint before it. -/
theorem recovery_applies_committed_reopened :
    let ops : List SessionOp :=
      [.begin, .begin, .commit 2 0 0 true, .reopen 0 [] 0 true,
        .checkpoint [(3, 1)] [] 0 0 .done, .saveSuperblock, .begin,
        .log 1 (.page (samplePage 7)) 0 0, .commit 1 0 0 true]
    RecoversCommitted Crc32c.castagnoli
      (run (sessionLogStep WalHash.standard Crc32c.castagnoli) .start ops) := by
  intro ops
  have hg : Guarded (sessionLogStep WalHash.standard Crc32c.castagnoli) FreshIds
      .start ops := by
    decide +kernel
  have htake : ops.take 9 = ops := rfl
  have h := recovery_applies_committed WalHash.standard Crc32c.castagnoli hg 9
  rw [htake] at h
  exact h

/-- Transaction 1 commits and the database is closed. In the next session
transaction 1 logs a page. -/
def reusedIdOps : List SessionOp :=
  [.begin, .commit 1 0 0 true, .reopen 0 [] 0 true, .begin, .log 1 (.page (samplePage 7)) 0 0]

/-- The process stops with both records on disk. -/
def reusedId : SessionLog :=
  (run (sessionLogStep WalHash.standard Crc32c.castagnoli) .start reusedIdOps).crash 2

theorem applies_reusedId : ∃ e, Applies Crc32c.castagnoli reusedId [] e ∧ e.tx = 2 := by
  obtain ⟨c, e, hread, hpage, htx⟩ : ∃ c e, reusedId.readable = [c, e] ∧
      isPageRecord e.record.recordType ∧ e.tx = 2 := ⟨_, _, rfl, rfl, rfl⟩
  have hrecords : reusedId.records = [c.record, e.record] := by
    rw [SessionLog.records, hread]
    rfl
  have hcount : (redo Crc32c.castagnoli reusedId.tables reusedId.records []).2 =
      (redo Crc32c.castagnoli reusedId.tables (reusedId.records.take 1) []).2 + 1 := by
    decide +kernel
  rw [hrecords] at hcount
  exact ⟨e, ⟨hpage, [c], [], hread, hcount⟩, htx⟩

/-- The old commit record is the one at the checkpoint, so recovery reads it
and applies the page. -/
theorem old_commit_applies_page : ¬ ∀ (h : WalHash) (crc : Crc32c) (ops : List SessionOp) (n : Nat),
      RecoversCommitted crc (run (sessionLogStep h crc) .start (ops.take n)) := by
  intro hall
  obtain ⟨e, happ, htx⟩ := applies_reusedId
  obtain ⟨c, hc, hctx, ht⟩ := hall WalHash.standard Crc32c.castagnoli
    reusedIdOps 5 2 [] e happ
  have hnone : ∀ c ∈ reusedId.log, c.tx = 2 →
      c.record.recordType ≠ .commit := by
    decide +kernel
  exact hnone c hc (hctx.trans htx) ht

end RGraph.Graph
