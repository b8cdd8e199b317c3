import RGraph.Proofs.Aries
import RGraph.Proofs.WalLsn

/-!
# Recovery restores what was committed

Over every run of the engine: at any point, recovery of the log from the
checkpoint on leaves each page with the newest committed image, and does not
touch the other pages, provided that no transaction was given the id of a
transaction that has a record at or above the checkpoint.

Within a session ids do not repeat. After a reopen they start at 1 again, and
the checkpoint is the LSN of the last record, which analysis still reads. So
what the condition excludes is that a new transaction gets the id found in
that one record.
-/

namespace RGraph.Graph

open RGraph.Lib RGraph.Storage RGraph.Wal Aries List

/-! ## The statement -/

/-- The data file is a number of whole pages. -/
structure DataFile where
  bytes : Bytes
  whole : pageSize ∣ bytes.length

def Committed (s : EngineRun) (tx : Nat) : Prop :=
  ∃ e ∈ s.log, e.tx = tx ∧ e.record.recordType = .commit

instance (s : EngineRun) (tx : Nat) : Decidable (Committed s tx) :=
  inferInstanceAs (Decidable (∃ e ∈ s.log, _))

/-- A page record from the checkpoint on. -/
def PageItem (s : EngineRun) (w : PageWrite) (e : LogItem) : Prop :=
  e ∈ s.log ∧ s.checkpointLsn ≤ e.record.lsn ∧ IsPage w e.record

/-- The page held this image when the log was recovered last, or holds what a
committed transaction has written to it since. -/
def PageHolds (crc : Crc32c) (s : EngineRun) (init disk : DataFile) (p : Nat) : Prop :=
  pageAt disk.bytes p = pageAt init.bytes p ∨
    ∃ w e, PageItem s w e ∧ Committed s e.tx ∧ w.pageId = p ∧
      pageAt disk.bytes p = w.afterImage crc e.record.lsn

def RecoveryCorrect (h : WalHash) (crc : Crc32c) (s : EngineRun) : Prop :=
  ∀ (now : Nat) (init disk : DataFile),
    (∀ w e, PageItem s w e → pageLsn (pageAt init.bytes w.pageId) < e.record.lsn) →
    (∀ p, PageHolds crc s init disk p) →
    ∃ res, runAllPhases h crc now s.checkpointLsn s.records disk.bytes = some res ∧
      (∀ w e, PageItem s w e → Committed s e.tx →
        (∀ v f, PageItem s v f → Committed s f.tx → v.pageId = w.pageId →
          f.record.lsn ≤ e.record.lsn) →
        pageAt res.data w.pageId = w.afterImage crc e.record.lsn) ∧
      ∀ p, (∀ w e, PageItem s w e → w.pageId = p → ¬ Committed s e.tx) →
        pageAt res.data p = pageAt disk.bytes p

/-! ## What every run keeps -/

structure EngineOk (s : EngineRun) : Prop where
  records : ∀ e ∈ s.log, EngineRecord e.record
  order : s.log.Pairwise (·.record.lsn < ·.record.lsn)
  lsn_le : ∀ e ∈ s.log, e.record.lsn ≤ s.lastLsn
  tx_lt : ∀ e ∈ s.log, e.tx < s.begun
  ends : s.log.Pairwise fun e f => IsEnd e.record → f.tx ≠ e.tx
  txid_eq : ∀ e ∈ s.log, ∀ f ∈ s.log, e.tx = f.tx → e.record.txid = f.record.txid
  tx_eq : ∀ e ∈ s.log, ∀ f ∈ s.log, s.checkpointLsn ≤ e.record.lsn →
    s.checkpointLsn ≤ f.record.lsn → e.record.txid = f.record.txid →
    e.tx = f.tx
  active_lt : ∀ a ∈ s.active, a.1 < s.nextTxid ∧ a.2 < s.begun
  active_inj : ∀ a ∈ s.active, ∀ b ∈ s.active, a.1 = b.1 ↔ a.2 = b.2
  active_open : ∀ a ∈ s.active, ∀ e ∈ s.log, e.tx = a.2 → e.record.txid = a.1 ∧ ¬ IsEnd e.record
  active_tx : ∀ a ∈ s.active, ∀ e ∈ s.log,
    s.checkpointLsn ≤ e.record.lsn → e.record.txid = a.1 → e.tx = a.2

theorem engineOk_start : EngineOk EngineRun.start :=
  ⟨nofun, List.Pairwise.nil, nofun, nofun, List.Pairwise.nil, nofun, nofun,
    nofun, nofun, nofun, nofun⟩

section Recover

variable {h : WalHash} {crc : Crc32c} {s : EngineRun}

theorem EngineOk.mem_records (hs : EngineOk s) : ∀ r ∈ s.records, EngineRecord r := by
  intro r hr
  obtain ⟨e, he, rfl⟩ := mem_map.mp hr
  exact hs.records e he

theorem EngineOk.sorted (hs : EngineOk s) : s.records.Pairwise (·.lsn < ·.lsn) :=
  pairwise_map.mpr hs.order

theorem EngineOk.endsLast (hs : EngineOk s) : EndsLast (since s.checkpointLsn s.records) := by
  rw [EndsLast, since, pairwise_filter, EngineRun.records, pairwise_map]
  refine hs.ends.imp_of_mem fun {e f} he hf hne hce hcf hend htx => ?_
  rw [decide_eq_true_eq] at hce hcf
  exact hne hend (hs.tx_eq f hf e he hcf hce htx)

/-- A transaction logs no page after its commit record. -/
theorem EngineOk.lsn_lt_commit (hs : EngineOk s) {e f : LogItem}
    (he : e ∈ s.log) (hf : f ∈ s.log) (hpage : e.record.recordType = .pageInsert)
    (hcom : f.record.recordType = .commit) (htx : f.tx = e.tx) : e.record.lsn < f.record.lsn := by
  have hne : e ≠ f := by
    rintro rfl
    rw [hpage] at hcom
    cases hcom
  have hend := EngineRecord.isEnd (hs.records f hf) (by rw [hcom]; decide)
  rcases pairwise_or (hs.order.and hs.ends) he hf hne with h | h
  · exact h.1
  · exact absurd htx.symm (h.2 hend)

/-- The winners are the page records of committed transactions. -/
theorem EngineOk.wins_iff (hs : EngineOk s) {r : WalRecord} : Wins s.checkpointLsn s.records r ↔
      ∃ w e, PageItem s w e ∧ Committed s e.tx ∧ e.record = r := by
  constructor
  · intro hwin
    obtain ⟨w, hw⟩ := hwin.isPage hs.mem_records
    obtain ⟨hr, -, c, hc, hct, htx⟩ := hwin
    obtain ⟨hc, hcl⟩ := mem_since.mp hc
    obtain ⟨hr, hrl⟩ := mem_since.mp hr
    obtain ⟨f, hf, rfl⟩ := mem_map.mp hc
    obtain ⟨e, he, rfl⟩ := mem_map.mp hr
    exact ⟨w, e, ⟨he, hrl, hw⟩, ⟨f, hf, hs.tx_eq f hf e he hcl hrl htx, hct⟩, rfl⟩
  · rintro ⟨w, e, ⟨he, hle, hw⟩, ⟨f, hf, htx, hct⟩, rfl⟩
    have hlt := hs.lsn_lt_commit he hf hw.1 hct htx
    exact ⟨mem_since.mpr ⟨mem_map_of_mem he, hle⟩, hw.1, f.record,
      mem_since.mpr ⟨mem_map_of_mem hf, by omega⟩, hct,
      hs.txid_eq f hf e he htx⟩

theorem EngineOk.recoveryCorrect (hs : EngineOk s) : RecoveryCorrect h crc s := by
  intro now init disk hinit hdisk
  obtain ⟨ws, hpages, hsorted, hmem⟩ :=
    @redo_eq_replay crc s.checkpointLsn s.records hs.mem_records hs.sorted
      hs.endsLast disk.bytes disk.whole
  have hws : ∀ u, u ∈ ws ↔ ∃ w e, PageItem s w e ∧ Committed s e.tx ∧
      (w.pageId, w.afterImage crc e.record.lsn) = u := by
    intro u
    rw [hmem]
    constructor
    · rintro ⟨r, hwin, rfl⟩
      obtain ⟨w, e, he, hcom, rfl⟩ := hs.wins_iff.mp hwin
      refine ⟨w, e, he, hcom, ?_⟩
      rw [he.2.2.recordImage_eq, recordPage, he.2.2.pageId_eq.1]
    · rintro ⟨w, e, he, hcom, rfl⟩
      refine ⟨e.record, hs.wins_iff.mpr ⟨w, e, he, hcom, rfl⟩, ?_⟩
      rw [he.2.2.recordImage_eq, recordPage, he.2.2.pageId_eq.1]
  have hlsn : ∀ w e, PageItem s w e → pageLsn (w.afterImage crc e.record.lsn) = e.record.lsn :=
    fun w e he => pageLsn_afterImage (hs.records e he.1).2
  refine ⟨_, runAllPhases_eq hs.mem_records hs.sorted hs.endsLast disk.bytes, ?_, ?_⟩
  · intro w e he hcom hlast
    dsimp only
    rw [hpages]
    refine replay_newest hsorted ((hws _).mpr ⟨w, e, he, hcom, rfl⟩) ?_ ?_
    · intro c hc
      obtain ⟨v, f, hf, hfc, heq⟩ := (hws _).mp hc
      obtain ⟨hid, rfl⟩ := Prod.mk.inj heq
      rw [hlsn v f hf, hlsn w e he]
      exact hlast v f hf hfc hid
    · rw [hlsn w e he]
      rcases hdisk w.pageId with hold | ⟨v, f, hf, hfc, hid, hheld⟩
      · rw [hold]
        exact .inl (hinit w e he)
      · rw [hheld, hlsn v f hf]
        rcases Nat.lt_or_eq_of_le (hlast v f hf hfc hid) with hlt | heq
        · exact .inl hlt
        · have hrec := eq_of_lsn hs.sorted (mem_map_of_mem hf.1) (mem_map_of_mem he.1) heq
          rw [← hf.2.2.recordImage_eq, ← he.2.2.recordImage_eq, hrec]
          exact .inr rfl
  · intro p hnone
    dsimp only
    rw [hpages]
    refine replay_of_not_mem fun u hu hup => ?_
    obtain ⟨w, e, he, hcom, rfl⟩ := (hws u).mp hu
    exact hnone w e he hup hcom

end Recover

/-! ## Steps -/

section Steps

variable {h : WalHash} {crc : Crc32c} {s : EngineRun}

/-- An active transaction logs a record; one that ends it leaves it no longer
active. -/
theorem EngineOk.extend (hs : EngineOk s) {txid tx cur : Nat} {x : LogItem}
    {act : List (Nat × Nat)} (hmem : (txid, tx) ∈ s.active)
    (hact : ∀ a ∈ act, a ∈ s.active) (htx : x.tx = tx)
    (htxid : x.record.txid = txid) (hrec : EngineRecord x.record)
    (hlsn : s.lastLsn < x.record.lsn)
    (hend : IsEnd x.record → ∀ a ∈ act, a.2 ≠ tx) :
    EngineOk { s with
      log := s.log ++ [x]
      lastLsn := x.record.lsn
      currentWalLsn := cur
      active := act } := by
  subst htx htxid
  have hnew : ∀ {p : LogItem → Prop}, (∀ e ∈ s.log, p e) → p x →
      ∀ e ∈ s.log ++ [x], p e := by
    intro p hlog hx e he
    rcases mem_append.mp he with he | he
    · exact hlog e he
    · rw [mem_singleton.mp he]
      exact hx
  have hpair : ∀ {R : LogItem → LogItem → Prop}, s.log.Pairwise R →
      (∀ e ∈ s.log, R e x) → (s.log ++ [x]).Pairwise R := by
    intro R hlog hx
    refine pairwise_append.mpr ⟨hlog, pairwise_singleton _ _, ?_⟩
    intro e he f hf
    rw [mem_singleton.mp hf]
    exact hx e he
  have hopen := hs.active_open _ hmem
  have htx := hs.active_tx _ hmem
  refine ⟨hnew hs.records hrec, hpair hs.order ?_, hnew ?_ (Nat.le_refl _),
    hnew hs.tx_lt (hs.active_lt _ hmem).2, hpair hs.ends ?_, ?_, ?_,
    fun a ha => hs.active_lt a (hact a ha),
    fun a ha b hb => hs.active_inj a (hact a ha) b (hact b hb), ?_, ?_⟩
  · exact fun e he => Nat.lt_of_le_of_lt (hs.lsn_le e he) hlsn
  · exact fun e he => Nat.le_trans (hs.lsn_le e he) (Nat.le_of_lt hlsn)
  · exact fun e he hend heq => (hopen e he heq.symm).2 hend
  · refine hnew (fun e he => hnew (hs.txid_eq e he) ?_) (hnew ?_ fun _ => rfl)
    · exact fun heq => (hopen e he heq).1
    · exact fun e he heq => (hopen e he heq.symm).1.symm
  · refine hnew (fun e he => hnew (hs.tx_eq e he) ?_) (hnew ?_ fun _ _ _ => rfl)
    · exact fun hle _ heq => htx e he hle heq
    · exact fun e he _ hle heq => (htx e he hle heq.symm).symm
  · refine fun a ha => hnew (hs.active_open a (hact a ha)) ?_
    intro heq
    exact ⟨(hs.active_inj _ hmem a (hact a ha)).mpr heq, fun hx => hend hx a ha heq.symm⟩
  · refine fun a ha => hnew (hs.active_tx a (hact a ha)) ?_
    exact fun _ heq => (hs.active_inj _ hmem a (hact a ha)).mp heq

theorem EngineOk.restrict (hs : EngineOk s) {cur : Nat}
    {act : List (Nat × Nat)} (hact : ∀ a ∈ act, a ∈ s.active) :
    EngineOk { s with currentWalLsn := cur, active := act } :=
  ⟨hs.records, hs.order, hs.lsn_le, hs.tx_lt, hs.ends, hs.txid_eq, hs.tx_eq,
    fun a ha => hs.active_lt a (hact a ha),
    fun a ha b hb => hs.active_inj a (hact a ha) b (hact b hb),
    fun a ha => hs.active_open a (hact a ha),
    fun a ha => hs.active_tx a (hact a ha)⟩

theorem find_active {txid : Nat} {a : Nat × Nat} (hf : s.active.find? (·.1 == txid) = some a) :
    (txid, a.2) ∈ s.active := by
  have hid : a.1 = txid := by simpa using List.find?_some hf
  rw [← hid]
  exact mem_of_find?_eq_some hf

theorem EngineOk.logPage (hs : EngineOk s) (txid : Nat) (w : PageWrite) (gap now : Nat) :
    EngineOk (engineStep h crc s (.logPage txid w gap now)) := by
  rw [engineStep]
  split
  · exact hs
  · next a tx hf =>
      rw [EngineRun.append]
      split
      · next hlt =>
          refine hs.extend (find_active hf) (fun a ha => ha) rfl rfl
            ⟨Or.inl ⟨w, rfl, rfl⟩, hlt⟩ ?_ ?_
          · show s.lastLsn < s.lastLsn + 1 + gap
            omega
          · exact fun hend => absurd rfl hend.ne_page
      · exact hs.restrict fun a ha => ha

theorem EngineOk.finish (hs : EngineOk s) {recordType : RecordType}
    (ht : recordType = .commit ∨ recordType = .abort) (txid gap now : Nat) :
    EngineOk (s.finish h recordType txid gap now) := by
  rw [EngineRun.finish]
  split
  · exact hs
  · next a tx hf =>
      have hact : ∀ a ∈ s.active.filter (·.1 != txid), a ∈ s.active :=
        fun a ha => (mem_filter.mp ha).1
      rw [EngineRun.append]
      split
      · next hlt =>
          refine hs.extend (find_active hf) hact rfl rfl ⟨Or.inr ⟨ht, rfl⟩, hlt⟩ ?_ ?_
          · show s.lastLsn < s.lastLsn + 1 + gap
            omega
          · intro _ a ha heq
            have hne := (mem_filter.mp ha).2
            rw [(hs.active_inj a (hact a ha) _ (find_active hf)).mpr heq] at hne
            simp at hne
      · exact hs.restrict hact

/-- The ids of new transactions are not found in what recovery reads. -/
def FreshTxid (s : EngineRun) : EngineOp → Prop
  | .begin => ∀ e ∈ s.log, s.checkpointLsn ≤ e.record.lsn →
      e.record.txid ≠ s.nextTxid
  | _ => True

instance FreshTxid.decidable (s : EngineRun) (op : EngineOp) :
    Decidable (FreshTxid s op) := by
  cases op <;> dsimp only [FreshTxid] <;> infer_instance

theorem EngineOk.begin (hs : EngineOk s) (hfresh : FreshTxid s .begin) :
    EngineOk (engineStep h crc s .begin) := by
  have hmem : ∀ {p : Nat × Nat → Prop}, (∀ a ∈ s.active, p a) →
      p (s.nextTxid, s.begun) →
      ∀ a ∈ s.active ++ [(s.nextTxid, s.begun)], p a := by
    intro p hact hnew a ha
    rcases mem_append.mp ha with ha | ha
    · exact hact a ha
    · rw [mem_singleton.mp ha]
      exact hnew
  rw [engineStep]
  refine ⟨hs.records, hs.order, hs.lsn_le, ?_, hs.ends, hs.txid_eq, hs.tx_eq,
    hmem ?_ ⟨Nat.lt_succ_self _, Nat.lt_succ_self _⟩, ?_,
    hmem hs.active_open ?_, hmem hs.active_tx ?_⟩
  · exact fun e he => Nat.lt_succ_of_lt (hs.tx_lt e he)
  · exact fun a ha => ⟨Nat.lt_succ_of_lt (hs.active_lt a ha).1,
      Nat.lt_succ_of_lt (hs.active_lt a ha).2⟩
  · refine hmem (fun a ha => hmem (hs.active_inj a ha) ?_)
      (hmem ?_ ⟨fun _ => rfl, fun _ => rfl⟩)
    · have := hs.active_lt a ha
      dsimp only
      omega
    · intro a ha
      have := hs.active_lt a ha
      dsimp only
      omega
  · exact fun e he heq => absurd heq (Nat.ne_of_lt (hs.tx_lt e he))
  · exact fun e he hle heq => absurd heq (hfresh e he hle)

theorem EngineOk.reopen (hs : EngineOk s) (data : Bytes) (now : Nat) :
    EngineOk (engineStep h crc s (.reopen data now)) := by
  rw [engineStep, runAllPhases_eq hs.mem_records hs.sorted hs.endsLast]
  dsimp only [foldl_nil]
  obtain ⟨-, hmax⟩ := analysis_maxLsn (since s.checkpointLsn s.records)
  split
  · next hpos =>
      -- the checkpoint only moves forward
      obtain ⟨r, hr, hlsn⟩ := hmax.resolve_left (Nat.ne_of_gt hpos)
      have hle := (mem_since.mp hr).2
      rw [hlsn] at hle
      exact ⟨hs.records, hs.order, hs.lsn_le,
        fun e he => Nat.lt_succ_of_lt (hs.tx_lt e he), hs.ends, hs.txid_eq,
        fun e he f hf hce hcf => hs.tx_eq e he f hf (Nat.le_trans hle hce)
          (Nat.le_trans hle hcf), nofun, nofun, nofun, nofun⟩
  · exact ⟨hs.records, hs.order, hs.lsn_le,
      fun e he => Nat.lt_succ_of_lt (hs.tx_lt e he), hs.ends, hs.txid_eq,
      hs.tx_eq, nofun, nofun, nofun, nofun⟩

theorem EngineOk.step (s : EngineRun) (op : EngineOp) (hs : EngineOk s)
    (hop : FreshTxid s op) : EngineOk (engineStep h crc s op) := by
  cases op with
  | begin => exact hs.begin hop
  | logPage txid w gap now => exact hs.logPage txid w gap now
  | commit txid gap now => exact hs.finish (Or.inl rfl) txid gap now
  | rollback txid gap now => exact hs.finish (Or.inr rfl) txid gap now
  | reopen data now => exact hs.reopen data now

end Steps

/-! ## Runs -/

theorem recovery_restores_committed (h : WalHash) (crc : Crc32c) (ops : List EngineOp)
    (hops : Guarded (engineStep h crc) FreshTxid EngineRun.start ops) (n : Nat) :
    RecoveryCorrect h crc (run (engineStep h crc) EngineRun.start (ops.take n)) :=
  (run_inv_take EngineOk.step engineOk_start hops n).recoveryCorrect

/-- A page with the byte `b` after its header. -/
def samplePage (b : UInt8) : PageWrite where
  pageId := 3
  image := List.replicate 24 0 ++ (natToLE 4 pageMagic ++ List.replicate (pageSize - 28) b)
  pageId_lt := by decide
  length_image := by
    simp only [length_append, length_replicate, length_natToLE]
    decide
  magic := by
    rw [hasValidMagicBytes, readAt_of_append (List.replicate 24 0)
      (natToLE 4 pageMagic) (List.replicate (pageSize - 28) b) rfl
      (length_replicate ..) (length_natToLE _ _),
      leToNat_natToLE 4 _ (by decide)]
    simp only [length_append, length_replicate, length_natToLE]
    decide

/-- A committed and a rolled-back transaction, a reopen, and a committed one. -/
theorem recovery_restores_committed_reopened :
    let ops : List EngineOp :=
      [.begin, .logPage 1 (samplePage 1) 0 0, .commit 1 0 0, .begin,
        .logPage 2 (samplePage 2) 0 0, .rollback 2 0 0, .reopen [] 0,
        .begin, .logPage 1 (samplePage 3) 0 0, .commit 1 0 0]
    RecoveryCorrect WalHash.standard Crc32c.castagnoli
      (run (engineStep WalHash.standard Crc32c.castagnoli) EngineRun.start
        ops) := by
  intro ops
  exact recovery_restores_committed WalHash.standard Crc32c.castagnoli ops
    (by decide +kernel) 10

/-- Transaction 2 is rolled back and the database reopened. In the new session
transaction 1 commits a page, and transaction 2 logs one and is cut off by a
crash. -/
def reusedTxid : EngineRun :=
  run (engineStep WalHash.standard Crc32c.castagnoli) EngineRun.start
    [.begin, .begin, .rollback 2 0 0, .reopen [] 0,
      .begin, .logPage 1 (samplePage 7) 0 0, .commit 1 0 0,
      .begin, .logPage 2 (samplePage 9) 0 0]

theorem reusedTxid_zeroed {res : Recovered}
    (hres : runAllPhases WalHash.standard Crc32c.castagnoli 0
      reusedTxid.checkpointLsn reusedTxid.records [] = some res) :
    pageAt res.data 3 = List.replicate pageSize 0 := by
  have hb : ∀ r ∈ reusedTxid.records, extractBeforeImage WalHash.standard r.payload = none := by
    decide +kernel
  have hundo : toUndo (analysis (since reusedTxid.checkpointLsn reusedTxid.records)).att =
        [⟨2, .aborted, 4⟩] := by
    decide +kernel
  obtain ⟨r, hr, hpage, hprev⟩ : ∃ r, lsnIndex reusedTxid.records 4 = some r ∧
      IsPage (samplePage 9) r ∧ r.prevLsn = 2 := ⟨_, rfl, ⟨rfl, rfl⟩, rfl⟩
  have hmem := mem_reverse.mp (mem_of_find?_eq_some hr)
  rw [runAllPhases, ← since] at hres
  dsimp only at hres
  split at hres
  · cases hres
  · next u hu =>
      cases hres
      simp only [undo, hundo, foldlM_cons, foldlM_nil, bind_pure] at hu
      rw [undoChain, hr] at hu
      dsimp only at hu
      rw [hpage.1, if_neg (by decide), hprev, if_neg (by decide)] at hu
      exact undoChain_inv (P := fun u => pageAt u.data 3 = List.replicate pageSize 0)
        (fun q hq _ => undoRecord_zero (hb q hq))
        (undoRecord_page hpage (hb r hmem) _) hu

/-- Analysis reads the old abort record and takes it for the end of the new
transaction 2. Undo zeroes the page of that transaction, follows the chain to
the page record of transaction 1 and zeroes its page too. -/
theorem undo_destroys_committed_page :
    ¬ RecoveryCorrect WalHash.standard Crc32c.castagnoli reusedTxid := by
  intro hcorrect
  obtain ⟨e, he, hpage, hlsn, htx⟩ : ∃ e, reusedTxid.log[1]? = some e ∧
      IsPage (samplePage 7) e.record ∧ e.record.lsn = 2 ∧ e.tx = 3 :=
    ⟨_, rfl, ⟨rfl, rfl⟩, rfl, rfl⟩
  have hckpt : reusedTxid.checkpointLsn ≤ 2 := by decide +kernel
  have hcom : Committed reusedTxid 3 := by decide +kernel
  have hlast : ∀ f ∈ reusedTxid.log, f.record.recordType = .pageInsert →
      Committed reusedTxid f.tx → f.record.lsn ≤ 2 := by
    decide +kernel
  have hpos : ∀ f ∈ reusedTxid.log, 0 < f.record.lsn := by decide +kernel
  have hempty : ∀ p, pageLsn (pageAt [] p) = 0 := fun p => by
    rw [pageLsn, pageAt, readAt_readAt _ (by decide), readAt, drop_nil]
    rfl
  obtain ⟨res, hres, hwin, -⟩ := hcorrect 0 ⟨[], Nat.dvd_zero _⟩
    ⟨[], Nat.dvd_zero _⟩ (fun w f hf => by rw [hempty]; exact hpos f hf.1)
    (fun p => Or.inl rfl)
  have hheld := hwin (samplePage 7) e
    ⟨mem_of_getElem? he, hlsn ▸ hckpt, hpage⟩ (htx ▸ hcom)
    fun v f hf hfc _ => hlsn ▸ hlast f hf.1 hf.2.2.1 hfc
  have hzero := (reusedTxid_zeroed hres).symm.trans hheld
  have hbyte : ((samplePage 7).afterImage Crc32c.castagnoli 2).getD 100 0 =
      7 := by
    decide +kernel
  rw [hlsn] at hzero
  rw [← hzero, getD_replicate_zero] at hbyte
  cases hbyte

/-! ## A crash in recovery -/

/-- Redo after a crash in redo, when each page is as it was at some point of
its own: with the same tables, redo from the start of the log leaves the pages
that it would have left without the crash. -/
theorem redo_resumes {rs : List WalRecord} (hrs : ∀ r ∈ rs, EngineRecord r)
    {crc : Crc32c} {a : Tables} {data found : DataFile} (n : Nat → Nat)
    (hpages : ∀ p, pageAt found.bytes p = pageAt (redo crc a (rs.take (n p)) data.bytes).1 p) :
    pageAt (redo crc a rs found.bytes).1 = pageAt (redo crc a rs data.bytes).1 := by
  funext p
  have hp := hpages p
  rw [redo] at hp ⊢
  rw [redo]
  split at hp
  · next hempty => rw [if_pos hempty, if_pos hempty, hp]
  · next hempty =>
    rw [(redo_fold (fun r hr => hrs r (mem_of_mem_take hr)) _ data.whole).2] at hp
    rw [if_neg hempty, if_neg hempty, (redo_fold hrs _ found.whole).2,
      (redo_fold hrs _ data.whole).2, replay_congr hp]
    nth_rw 2 3 [← take_append_drop (n p) rs]
    rw [filterMap_append]
    exact replay_resume _ _ _

/-- A page written by two transactions; a crash after any number of records. -/
theorem redo_resumes_first :
    let rs := (run (engineStep WalHash.standard Crc32c.castagnoli) EngineRun.start
      [.begin, .logPage 1 (samplePage 1) 0 0, .commit 1 0 0, .begin,
        .logPage 2 (samplePage 2) 0 0, .commit 2 0 0]).records
    let file := fun rs' data => (redo Crc32c.castagnoli (analysis rs) rs' data).1
    rs.length = 4 ∧ ∀ n, pageAt (file rs (file (rs.take n) [])) = pageAt (file rs []) := by
  intro rs file
  refine ⟨by decide +kernel, fun n => ?_⟩
  have hrs : ∀ r ∈ rs, EngineRecord r :=
    (run_inv EngineOk.step engineOk_start (by decide +kernel)).mem_records
  clear_value rs
  have hwhole : pageSize ∣ (file (rs.take n) []).length := by
    dsimp only [file, redo]
    split
    · exact Nat.dvd_zero _
    · exact (redo_fold (fun r hr => hrs r (mem_of_mem_take hr)) _ (Nat.dvd_zero _)).1
  exact @redo_resumes rs hrs _ _ ⟨[], Nat.dvd_zero _⟩ ⟨_, hwhole⟩ (fun _ => n) fun _ => rfl

end RGraph.Graph
