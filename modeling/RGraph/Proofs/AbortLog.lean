import RGraph.Txn.System
import RGraph.Proofs.Snapshot
import RGraph.Proofs.TxnManager

/-!
# Wounded transactions and commit records

A wounded transaction has to abort, but it is told so in `acquire_lock` only:
`commit` does not look at the abort registry. So the two logs can disagree
about a transaction, in three ways. A wounded transaction may commit; a
transaction that has begun to commit, or has finished and left a lock behind,
may be wounded; and a transaction whose flush failed may be rolled back with
its commit record still in the buffer.

`Prudent` rules out the three. Then the logs stay apart, and the calls that
the manager makes on the global state are a lawful history, so what is proved
of snapshots holds under the manager.
-/

namespace RGraph.Txn

open RGraph.Lib List

namespace Pc

/-- The victim about to be put in the abort registry. -/
def victim : Pc → Option TxId
  | .mark _ v => some v
  | _ => none

end Pc

namespace TxSystem

/-- Nobody commits who is in the abort registry; nobody is rolled back who has
a commit record in the log; and nobody is wounded who has one. -/
def Prudent (s : TxSystem) : SysOp → Prop
  | .commit t _ => t ∉ s.manager.abortRegistry ∧
      ∀ tx ∈ s.manager.txs t, s.manager.isDoomed t tx = true → t ∉ s.appended
  | .rollback t => t ∉ s.appended
  | .step t => ∀ tx ∈ s.manager.txs t, ∀ v ∈ tx.pc.victim, v ∉ s.appended
  | _ => True

instance (s : TxSystem) (op : SysOp) : Decidable (s.Prudent op) := by
  cases op <;> dsimp only [Prudent] <;> infer_instance

/-- No transaction is both in the abort log and committed on disk, and no
wounded transaction has committed. -/
def LogsAgree (s : TxSystem) : Prop :=
  (∀ t, ¬ (t ∈ s.history.state.aborted ∧ t ∈ s.walDurable)) ∧
  ∀ t ∈ s.wounded, ∀ tx, s.manager.txs t = some tx → tx.status ≠ .committed

end TxSystem

/-! ## The invariant -/

/-- One transaction and the logs. -/
structure TxLogged (appended wounded registry : List TxId) (t : TxId)
    (tx : Transaction) : Prop where
  wound : ∀ c v, tx.pc = .wound c v → v ∈ wounded
  aborting : ∀ rs how, tx.pc = .releasing rs how → how ≠ .commit → t ∉ appended
  committing : (∃ rs, tx.pc = .releasing rs .commit) ∨ tx.status = .committed → t ∈ appended
  marked : t ∈ wounded → tx.status = .active →
    (∀ rs how, tx.pc ≠ .releasing rs how) → t ∈ registry

structure SysOk (s : TxSystem) : Prop where
  issued : Issued s.manager
  history : HistoryOk txIdBootstrap s.history
  next : s.history.state.nextTxid = s.manager.nextTxid
  txs : ∀ t tx, s.manager.txs t = some tx →
    TxLogged s.appended s.wounded s.manager.abortRegistry t tx
  appended : ∀ t ∈ s.appended, t < s.manager.nextTxid ∧
    t ∉ s.history.state.aborted ∧ t ∉ s.wounded
  committed : s.history.committed ⊆ s.appended
  wounded : ∀ t ∈ s.wounded, t < s.manager.nextTxid
  registry : s.manager.abortRegistry ⊆ s.wounded
  aborted : ∀ t ∈ s.history.state.aborted, t ∈ s.wounded ∨
    ∃ tx, s.manager.txs t = some tx ∧ tx.status ≠ .active

theorem sysOk_new : SysOk TxSystem.new where
  issued := issued_new
  history := HistoryOk.withStart (by decide)
  next := rfl
  txs := by simp [TxSystem.new, TransactionManager.new]
  appended := by simp [TxSystem.new, TxSystem.appended]
  committed := by simp [TxSystem.new, TxHistory.withStart]
  wounded := by simp [TxSystem.new]
  registry := by simp [TxSystem.new, TransactionManager.new]
  aborted := by simp [TxSystem.new, TxHistory.withStart, GlobalTxState.withStart]

theorem SysOk.logsAgree {s : TxSystem} (hs : SysOk s) : s.LogsAgree := by
  refine ⟨fun t ht => ?_, fun t ht tx htx hst => ?_⟩
  · exact (hs.appended t (mem_append_right _ ht.2)).2.1 ht.1
  · exact (hs.appended t ((hs.txs t tx htx).committing (.inr hst))).2.2 ht

/-! ## The commit record -/

theorem mem_appended_logCommit {s : TxSystem} {t x : TxId} {o : WalOutcome} :
    x ∈ (s.logCommit t o).appended ↔ x ∈ s.appended ∨ o ≠ .appendFailed ∧ x = t := by
  cases o <;> simp [TxSystem.logCommit, TxSystem.flushWal, TxSystem.appended] <;> tauto

theorem logCommit_eq (s : TxSystem) (t : TxId) (o : WalOutcome) :
    (s.logCommit t o).manager = s.manager ∧ (s.logCommit t o).history = s.history ∧
      (s.logCommit t o).wounded = s.wounded := by
  cases o <;> exact ⟨rfl, rfl, rfl⟩

/-- A commit record is appended for an active transaction that is in no call
and not in the registry: nobody has wounded it. -/
theorem SysOk.logCommit {s : TxSystem} (hs : SysOk s) {t : TxId}
    (hr : TxSystem.reachesWal s.manager t = true)
    (hreg : t ∉ s.manager.abortRegistry) (o : WalOutcome) : SysOk (s.logCommit t o) := by
  obtain ⟨hm, hh, hw⟩ := logCommit_eq s t o
  unfold TxSystem.reachesWal at hr
  split at hr
  · next tx htx =>
      simp only [Bool.and_eq_true, decide_eq_true_eq] at hr
      obtain ⟨⟨hpc, hact⟩, -⟩ := hr
      have hst : tx.status = .active := beq_iff_eq.mp hact
      have hnw : t ∉ s.wounded := fun hmem => hreg
        ((hs.txs t tx htx).marked hmem hst (by rw [hpc]; simp))
      have hna : t ∉ s.history.state.aborted := fun hmem => by
        rcases hs.aborted t hmem with hx | ⟨tx', htx', hne⟩
        · exact hnw hx
        · rw [htx] at htx'
          cases htx'
          exact hne hst
      refine ⟨hm ▸ hs.issued, hh ▸ hs.history, by rw [hh, hm]; exact hs.next,
        fun u txu hu => ?_, fun u hu => ?_, fun u hu => ?_,
        by rw [hw, hm]; exact hs.wounded, by rw [hw, hm]; exact hs.registry,
        by rw [hh, hw, hm]; exact hs.aborted⟩
      · rw [hm] at hu
        rw [hm, hw]
        have hok := hs.txs u txu hu
        refine ⟨hok.wound, fun rs how hrel hne hmem => ?_, fun hc => ?_, hok.marked⟩
        · rcases mem_appended_logCommit.mp hmem with hmem | ⟨-, rfl⟩
          · exact hok.aborting rs how hrel hne hmem
          · rw [htx] at hu
            cases hu
            rw [hpc] at hrel
            cases hrel
        · exact mem_appended_logCommit.mpr (.inl (hok.committing hc))
      · rw [hm, hh, hw]
        rcases mem_appended_logCommit.mp hu with hu | ⟨-, rfl⟩
        · exact hs.appended u hu
        · exact ⟨hs.issued.lt htx, hna, hnw⟩
      · rw [hh] at hu
        exact mem_appended_logCommit.mpr (.inl (hs.committed hu))
  · cases hr

/-! ## An access -/

/-- `t` makes an access that appends no commit record. -/
structure Accesses (s s' : TxSystem) (t : TxId) (tx tx' : Transaction) :
    Prop where
  before : s.manager.txs t = some tx
  issued : Issued s'.manager
  next : s'.manager.nextTxid = s.manager.nextTxid
  txs : s'.manager.txs = Function.update s.manager.txs t (some tx')
  appended : s'.appended = s.appended

section Access

variable {s s' : TxSystem} {op : TxOp} {t : TxId} {tx tx' : Transaction}

/-- The invariant after an access of `t`, from what it did to the logs and to
the registry and from the record of `t` alone. -/
theorem SysOk.update (hs : SysOk s) (ha : Accesses s s' t tx tx')
    (hhist : HistoryOk txIdBootstrap s'.history)
    (hhnext : s'.history.state.nextTxid = s.history.state.nextTxid)
    (hcom : s'.history.committed ⊆ s.appended) (hwound : s.wounded ⊆ s'.wounded)
    (hwound' : ∀ x ∈ s'.wounded, x ∈ s.wounded ∨
      x ∈ s'.manager.abortRegistry ∧ x < s.manager.nextTxid ∧ x ∉ s.appended)
    (hreg : ∀ x, x ≠ t → x ∈ s.manager.abortRegistry → x ∈ s'.manager.abortRegistry)
    (hreg' : s'.manager.abortRegistry ⊆ s'.wounded)
    (hlog : ∀ x ∈ s'.history.state.aborted, x ∈ s.history.state.aborted ∨
      x ∈ s.wounded ∨ x = t ∧ t ∉ s.appended ∧ tx'.status ≠ .active)
    (hended : tx.status ≠ .active → tx'.status ≠ .active)
    (htx' : TxLogged s.appended s'.wounded s'.manager.abortRegistry t tx') : SysOk s' := by
  refine ⟨ha.issued, hhist, by rw [hhnext, ha.next, hs.next],
    fun u txu hu => ?_, fun u hu => ?_, ha.appended ▸ hcom, fun u hu => ?_,
    hreg', fun u hu => ?_⟩
  · rw [ha.appended]
    rw [ha.txs] at hu
    by_cases heq : u = t
    · subst heq
      rw [Function.update_self] at hu
      cases hu
      exact htx'
    · rw [Function.update_of_ne heq] at hu
      have hok := hs.txs u txu hu
      refine ⟨fun c v hpc => hwound (hok.wound c v hpc), hok.aborting,
        hok.committing, fun hmem hact hpc => ?_⟩
      rcases hwound' u hmem with hmem | hmem
      · exact hreg u heq (hok.marked hmem hact hpc)
      · exact hmem.1
  · rw [ha.appended] at hu
    obtain ⟨h1, h2, h3⟩ := hs.appended u hu
    refine ⟨ha.next ▸ h1, fun hmem => ?_, fun hmem => ?_⟩
    · rcases hlog u hmem with hmem | hmem | ⟨rfl, hmem, -⟩
      · exact h2 hmem
      · exact h3 hmem
      · exact hmem hu
    · rcases hwound' u hmem with hmem | hmem
      · exact h3 hmem
      · exact hmem.2.2 hu
  · rw [ha.next]
    rcases hwound' u hu with hu | hu
    · exact hs.wounded u hu
    · exact hu.2.1
  · have hstays : ∀ txu, s.manager.txs u = some txu → txu.status ≠ .active →
        ∃ txu, s'.manager.txs u = some txu ∧ txu.status ≠ .active := by
      intro txu hu hne
      rw [ha.txs]
      by_cases heq : u = t
      · subst heq
        rw [ha.before] at hu
        cases hu
        exact ⟨tx', Function.update_self .., hended hne⟩
      · exact ⟨txu, by rw [Function.update_of_ne heq]; exact hu, hne⟩
    rcases hlog u hu with hu | hu | ⟨rfl, -, hne⟩
    · rcases hs.aborted u hu with hu | ⟨txu, hu, hne⟩
      · exact .inl (hwound hu)
      · exact .inr (hstays txu hu hne)
    · exact .inl (hwound hu)
    · exact .inr ⟨tx', by rw [ha.txs]; exact Function.update_self .., hne⟩

/-- The same when neither the logs nor the registry change. -/
theorem SysOk.quiet (hs : SysOk s) (ha : Accesses s s' t tx tx')
    (hlogs : s'.history = s.history ∧ s'.wounded = s.wounded)
    (hreg : s'.manager.abortRegistry = s.manager.abortRegistry) (hstatus : tx'.status = tx.status)
    (htx' : TxLogged s.appended s.wounded s.manager.abortRegistry t tx') : SysOk s' := by
  obtain ⟨hhist, hwound⟩ := hlogs
  refine hs.update ha (hhist ▸ hs.history) (by rw [hhist])
    (hhist ▸ hs.committed) (by rw [hwound]; simp)
    (fun x hx => .inl (hwound ▸ hx)) (fun x _ hx => hreg ▸ hx)
    (by rw [hreg, hwound]; exact hs.registry)
    (fun x hx => .inl (hhist ▸ hx)) (fun hne => hstatus ▸ hne) ?_
  rw [hwound, hreg]
  exact htx'

section Record

variable {appended wounded registry : List TxId}

theorem status_granted (c : LockCall) : ((tx.track c).answer (.ok ())).status = tx.status := by
  cases c <;> rfl

/-- A record that goes on in its call, or returns from it. -/
theorem TxLogged.moves (hok : TxLogged appended wounded registry t tx)
    (hold : ∀ rs how, tx.pc ≠ .releasing rs how)
    (hstatus : tx'.status = tx.status)
    (hpc : ∀ rs how, tx'.pc ≠ .releasing rs how)
    (hwound : ∀ c v, tx'.pc ≠ .wound c v) :
    TxLogged appended wounded registry t tx' where
  wound c v h := absurd h (hwound c v)
  aborting rs how h := absurd h (hpc rs how)
  committing h := by
    rcases h with ⟨rs, h⟩ | h
    · exact absurd h (hpc rs .commit)
    · exact hok.committing (.inr (hstatus ▸ h))
  marked hmem hact _ := hok.marked hmem (hstatus ▸ hact) hold

/-- A record that releases its locks. -/
theorem TxLogged.releases {rs : List ResourceId} {how : Ending}
    (hpc : tx'.pc = .releasing rs how) (hact : tx'.status = .active)
    (hmem : how = .commit ↔ t ∈ appended) :
    TxLogged appended wounded registry t tx' where
  wound c v h := by rw [hpc] at h; cases h
  aborting rs' how' h hne := by
    rw [hpc] at h
    cases h
    exact fun hx => hne (hmem.mpr hx)
  committing h := by
    rcases h with ⟨rs', h⟩ | h
    · rw [hpc] at h
      cases h
      exact hmem.mp rfl
    · rw [hact] at h
      cases h
  marked _ _ h := absurd hpc (h rs how)

/-- A record that has ended. -/
theorem TxLogged.ends (hidle : tx'.pc = .idle) (hne : tx'.status ≠ .active)
    (hmem : tx'.status = .committed → t ∈ appended) :
    TxLogged appended wounded registry t tx' where
  wound c v h := by rw [hidle] at h; cases h
  aborting rs how h := by rw [hidle] at h; cases h
  committing h := by
    rcases h with ⟨rs, h⟩ | h
    · rw [hidle] at h; cases h
    · exact hmem h
  marked _ hact := absurd hact hne

/-- While it releases its locks, the log tells how it ends. -/
theorem TxLogged.ending (hok : TxLogged appended wounded registry t tx)
    {rs : List ResourceId} {how : Ending} (hpc : tx.pc = .releasing rs how) :
    how = .commit ↔ t ∈ appended := by
  constructor
  · rintro rfl
    exact hok.committing (.inl ⟨rs, hpc⟩)
  · intro hmem
    by_contra hne
    exact hok.aborting rs how hpc hne hmem

end Record

/-- The victim is put in the registry. -/
theorem SysOk.mark (hs : SysOk s) {c : LockCall} {v : TxId}
    (ha : Accesses s s' t tx (tx.goto (.wound c v)))
    (hpc : tx.pc = .mark c v) (hhist : s'.history = s.history)
    (hwound : s'.wounded = s.wounded.insert v)
    (hreg : s'.manager.abortRegistry = s.manager.abortRegistry.insert v)
    (hv : v ∉ s.appended) : SysOk s' := by
  have hok := hs.txs t tx ha.before
  have hlt := hs.issued.victims t tx c v ha.before (.inl hpc)
  refine hs.update ha (hhist ▸ hs.history) (by rw [hhist])
    (hhist ▸ hs.committed) (fun x hx => ?_) (fun x hx => ?_)
    (fun x _ hx => ?_) (fun x hx => ?_) (fun x hx => .inl (hhist ▸ hx))
    (fun hne => hne) ?_
  · rw [hwound]; exact mem_insert_of_mem hx
  · rw [hwound] at hx
    rw [hreg]
    rcases mem_insert_iff.mp hx with rfl | hx
    · exact .inr ⟨mem_insert_self, hlt, hv⟩
    · exact .inl hx
  · rw [hreg]; exact mem_insert_of_mem hx
  · rw [hreg] at hx
    rw [hwound]
    rcases mem_insert_iff.mp hx with rfl | hx
    · exact mem_insert_self
    · exact mem_insert_of_mem (hs.registry hx)
  · rw [hwound, hreg]
    refine ⟨fun c' v' h => ?_, fun rs how h => Pc.noConfusion h,
      fun h => ?_, fun hmem hact _ => ?_⟩
    · cases h; exact mem_insert_self
    · rcases h with ⟨rs, h⟩ | h
      · cases h
      · exact hok.committing (.inr h)
    · rcases mem_insert_iff.mp hmem with rfl | hmem
      · exact mem_insert_self
      · exact mem_insert_of_mem (hok.marked hmem hact (by rw [hpc]; simp))

/-- `abort_tx` of a transaction without a commit record: the victim of a
wound, or the one that ends. -/
theorem SysOk.abort (hs : SysOk s) (ha : Accesses s s' t tx tx') {v : TxId}
    (hhist : s'.history = s.history.step (.abort v)) (hwound : s'.wounded = s.wounded)
    (hlt : v < s.manager.nextTxid) (hv : v ∉ s.appended)
    (hwhy : v ∈ s.wounded ∨ v = t ∧ tx'.status ≠ .active)
    (hreg : ∀ x, x ≠ t → x ∈ s.manager.abortRegistry → x ∈ s'.manager.abortRegistry)
    (hreg' : s'.manager.abortRegistry ⊆ s.manager.abortRegistry)
    (hended : tx.status ≠ .active → tx'.status ≠ .active)
    (htx' : TxLogged s.appended s.wounded s'.manager.abortRegistry t tx') : SysOk s' := by
  have hlog : (s.history.step (.abort v)).state.aborted = s.history.state.aborted.insert v ∧
      (s.history.step (.abort v)).state.nextTxid = s.history.state.nextTxid ∧
      (s.history.step (.abort v)).committed = s.history.committed := by
    simp [TxHistory.step, GlobalTxState.abortTx, GlobalTxState.removeActive_eq]
  have hlaw : s.history.Lawful (.abort v) := ⟨hs.next ▸ hlt, fun hmem => hv (hs.committed hmem)⟩
  refine hs.update ha (hhist ▸ hs.history.abort hlaw)
    (by rw [hhist, hlog.2.1]) (by rw [hhist, hlog.2.2]; exact hs.committed)
    (by rw [hwound]; simp) (fun x hx => .inl (hwound ▸ hx)) hreg
    (fun x hx => ?_) (fun x hx => ?_) hended (hwound ▸ htx')
  · rw [hwound]; exact hs.registry (hreg' hx)
  · rw [hhist, hlog.1] at hx
    rcases mem_insert_iff.mp hx with rfl | hx
    · rcases hwhy with hw | ⟨rfl, hne⟩
      · exact .inr (.inl hw)
      · exact .inr (.inr ⟨rfl, hv, hne⟩)
    · exact .inl hx

/-- `commit_tx` of a transaction with a commit record. -/
theorem SysOk.commit (hs : SysOk s) (ha : Accesses s s' t tx tx')
    (hhist : s'.history = s.history.step (.commit t))
    (hwound : s'.wounded = s.wounded) (ht : t ∈ s.appended)
    (hreg : s'.manager.abortRegistry = s.manager.abortRegistry)
    (hended : tx.status ≠ .active → tx'.status ≠ .active)
    (htx' : TxLogged s.appended s.wounded s.manager.abortRegistry t tx') : SysOk s' := by
  have hlog : (s.history.step (.commit t)).state.nextTxid = s.history.state.nextTxid ∧
      (s.history.step (.commit t)).state.aborted = s.history.state.aborted := by
    simp [TxHistory.step, GlobalTxState.commitTx, GlobalTxState.removeActive_eq]
  refine hs.update ha (hhist ▸ hs.history.commit t) (by rw [hhist, hlog.1])
    (fun x hx => ?_) (by rw [hwound]; simp) (fun x hx => .inl (hwound ▸ hx))
    (fun x _ hx => hreg ▸ hx) (by rw [hreg, hwound]; exact hs.registry)
    (fun x hx => .inl ?_) hended (by rw [hwound, hreg]; exact htx')
  · simp only [hhist, TxHistory.step] at hx
    split at hx
    · rcases mem_insert_iff.mp hx with rfl | hx
      · exact ht
      · exact hs.committed hx
    · exact hs.committed hx
  · rw [hhist, hlog.2] at hx
    exact hx

theorem Starts.calm {m : TransactionManager} {how : Ending}
    (h : Starts m t tx op how) : tx.pc.calm = true := by
  cases h with
  | commit hpc _ => rw [hpc]; rfl
  | conflict _ hpc _ => rw [hpc]; rfl
  | rollback hpc => rw [hpc]; rfl
  | wounded hpc _ => cases h : tx.pc <;> rw [h] at hpc <;> first | rfl | cases hpc

/-- The logs after an access of `t`: only a thread's own step writes them. -/
def Writes (s s' : TxSystem) (op : TxOp) (t : TxId) (tx : Transaction) : Prop :=
  op = .step t ∧ s'.history = TxSystem.globalCall s.history t tx.pc ∧
    s'.wounded = TxSystem.marked s.wounded tx.pc ∨
  op ≠ .step t ∧ s'.history = s.history ∧ s'.wounded = s.wounded

theorem Writes.calm (h : Writes s s' op t tx) (hc : tx.pc.calm = true) :
    s'.history = s.history ∧ s'.wounded = s.wounded := by
  rcases h with ⟨-, h1, h2⟩ | ⟨-, h⟩
  · rw [h1, h2]
    cases hpc : tx.pc <;> rw [hpc] at hc <;> first | exact ⟨rfl, rfl⟩ | cases hc
  · exact h

theorem Writes.step (h : Writes s s' op t tx) (hop : op = .step t) :
    s'.history = TxSystem.globalCall s.history t tx.pc ∧
      s'.wounded = TxSystem.marked s.wounded tx.pc := by
  rcases h with ⟨-, h⟩ | ⟨hne, -⟩
  · exact h
  · exact absurd hop hne

/-- An access keeps the invariant, if a victim it marks has no commit record
and a transaction that starts to end has one exactly if it commits. -/
theorem SysOk.acted (hs : SysOk s) (ha : Accesses s s' t tx tx')
    (hact : Act s.manager op t tx s'.manager.lockTable s'.manager.sent
      s'.manager.abortRegistry s'.manager.active tx')
    (hw : Writes s s' op t tx) (hmark : op = .step t → ∀ v ∈ tx.pc.victim, v ∉ s.appended)
    (hstart : ∀ how, Starts s.manager t tx op how → tx.status = .active →
      (how = .commit ↔ t ∈ s.appended)) : SysOk s' := by
  have hok := hs.txs t tx ha.before
  generalize htable : s'.manager.lockTable = table at hact
  generalize hsent : s'.manager.sent = sent at hact
  generalize hreg : s'.manager.abortRegistry = registry at hact
  generalize hactive : s'.manager.active = active at hact
  cases hact with
  | quiet h =>
    exact hs.quiet ha (hw.calm h.calm) hreg h.status
      (hok.moves (Pc.calm_releasing h.calm) h.status h.pc h.wound)
  | told c _ _ h =>
    have hc : tx.pc.calm = true := by
      rcases h with h | ⟨rx, h, -⟩
      · rw [h]; rfl
      · exact Pc.calm_of_listens h
    exact hs.quiet ha (hw.calm hc) hreg (status_granted c) (hok.moves
      (Pc.calm_releasing hc) (status_granted c) (fun _ _ => Pc.noConfusion)
      fun _ _ => Pc.noConfusion)
  | granted c _ _ hpc _ =>
    have hc : tx.pc.calm = true := by rw [hpc]; rfl
    exact hs.quiet ha (hw.calm hc) hreg (status_granted c) (hok.moves
      (Pc.calm_releasing hc) (status_granted c) (fun _ _ => Pc.noConfusion)
      fun _ _ => Pc.noConfusion)
  | denied c _ hpc _ =>
    have hc : tx.pc.calm = true := by rw [hpc]; rfl
    refine hs.quiet ha (hw.calm hc) hreg rfl (hok.moves (Pc.calm_releasing hc) rfl ?_ ?_) <;>
      cases c <;> exact fun _ _ => Pc.noConfusion
  | mark c v hop _ hpc =>
    obtain ⟨hh, hwd⟩ := hw.step hop
    rw [hpc] at hh hwd
    exact hs.mark ha hpc hh hwd hreg (hmark hop v (by rw [hpc]; rfl))
  | wound c v hop hpc =>
    obtain ⟨hh, hwd⟩ := hw.step hop
    rw [hpc] at hh hwd
    have hv := hok.wound c v hpc
    exact hs.abort ha hh hwd (hs.wounded v hv)
      (fun hmem => (hs.appended v hmem).2.2 hv) (.inl hv)
      (fun x _ hx => hreg ▸ hx) (by rw [hreg]; simp) (fun hne => hne)
      (hreg ▸ hok.moves (by rw [hpc]; simp) rfl (fun _ _ => Pc.noConfusion)
        fun _ _ => Pc.noConfusion)
  | start how h hst =>
    exact hs.quiet ha (hw.calm h.calm) hreg rfl (.releases rfl hst (hstart how h hst))
  | release r rs how hop hst hpc =>
    obtain ⟨hh, hwd⟩ := hw.step hop
    rw [hpc] at hh hwd
    exact hs.quiet ha ⟨hh, hwd⟩ hreg rfl (.releases rfl hst (hok.ending hpc))
  | finish how hop hpc hst hidle =>
    obtain ⟨hh, hwd⟩ := hw.step hop
    rw [hpc] at hh hwd
    have hne : tx'.status ≠ .active := by rw [hst]; split <;> simp
    have hmem : tx'.status = .committed → t ∈ s.appended := fun h => by
      rw [hst] at h
      split at h
      · next heq => exact (hok.ending hpc).mp heq
      · cases h
    by_cases hcom : how = .commit
    · subst hcom
      rw [if_pos rfl] at hreg
      exact hs.commit ha hh hwd ((hok.ending hpc).mp rfl) hreg (fun _ => hne)
        (.ends hidle hne hmem)
    · rw [if_neg hcom] at hreg
      have hh : s'.history = s.history.step (.abort t) := by
        rw [hh]; cases how <;> first | rfl | exact absurd rfl hcom
      refine hs.abort ha hh hwd (hs.issued.lt ha.before)
        (hok.aborting _ _ hpc hcom) (.inr ⟨rfl, hne⟩) (fun x hx hmem => ?_)
        (fun x hx => ?_) (fun _ => hne) (.ends hidle hne hmem)
      · rw [hreg]; exact (mem_erase_of_ne hx).mpr hmem
      · rw [hreg] at hx; exact mem_of_mem_erase hx

end Access

/-! ## Every run -/

theorem SysOk.begin {s : TxSystem} (hs : SysOk s) (level : IsolationLevel) :
    SysOk (s.step (.begin level)) := by
  have htxs : (s.step (.begin level)).manager.txs = Function.update
      s.manager.txs s.manager.nextTxid (some (Transaction.begin level)) := rfl
  have hlt : ∀ {x}, x < s.manager.nextTxid →
      x < (s.step (.begin level)).manager.nextTxid := Nat.lt_succ_of_lt
  refine ⟨hs.issued.begin level, hs.history.begin, congrArg (· + 1) hs.next,
    fun u txu hu => ?_, fun u hu => ?_, hs.committed,
    fun u hu => hlt (hs.wounded u hu), hs.registry, fun u hu => ?_⟩
  · rw [htxs] at hu
    by_cases heq : u = s.manager.nextTxid
    · subst heq
      rw [Function.update_self] at hu
      cases hu
      refine ⟨fun _ _ h => ?_, fun _ _ h => ?_, fun h => ?_, fun hmem => ?_⟩
      · cases h
      · cases h
      · rcases h with ⟨rs, h⟩ | h <;> cases h
      · exact absurd (hs.wounded _ hmem) (Nat.lt_irrefl _)
    · rw [Function.update_of_ne heq] at hu
      exact hs.txs u txu hu
  · exact ⟨hlt (hs.appended u hu).1, (hs.appended u hu).2⟩
  · rcases hs.aborted u hu with hu | ⟨txu, hu, hne⟩
    · exact .inl hu
    · refine .inr ⟨txu, ?_, hne⟩
      rw [htxs, Function.update_of_ne (Nat.ne_of_lt (hs.issued.lt hu))]
      exact hu

/-- A call, or a step of one, that the manager makes without a new commit
record. -/
theorem SysOk.manager {s s' : TxSystem} (hs : SysOk s) (op : TxOp)
    (hop : ∀ level, op ≠ .begin level)
    (hm : s'.manager = txStep s.manager op) (happ : s'.appended = s.appended)
    (hw : ∀ t tx, op.caller = some t → s.manager.txs t = some tx → Writes s s' op t tx)
    (hsame : txStep s.manager op = s.manager →
      (∀ t tx, op = .step t → s.manager.txs t = some tx → tx.pc = .idle) →
      SysOk s')
    (hmark : ∀ t tx, op = .step t → s.manager.txs t = some tx → ∀ v ∈ tx.pc.victim, v ∉ s.appended)
    (hstart : ∀ t tx how, s.manager.txs t = some tx →
      Starts s.manager t tx op how → tx.status = .active →
      (how = .commit ↔ t ∈ s.appended)) : SysOk s' := by
  rcases txStep_acted hs.issued.idle op with
    ⟨h, hidle⟩ | ⟨level, h, -⟩ | ⟨t, tx, hcall, htx, tx', hact, hnext, htxs⟩
  · exact hsame h hidle
  · exact absurd h (hop level)
  · rw [← hm] at hact hnext htxs
    exact hs.acted ⟨htx, hm ▸ hs.issued.step op, hnext, htxs, happ⟩ hact
      (hw t tx hcall htx) (fun h => hmark t tx h htx) (fun how => hstart t tx how htx)

theorem SysOk.logged {s : TxSystem} (hs : SysOk s) {t : TxId}
    {o : WalOutcome} (hreg : t ∉ s.manager.abortRegistry) :
    SysOk (s.logged t o) ∧ (s.logged t o).manager = s.manager := by
  rw [TxSystem.logged]
  split
  · next hr => exact ⟨hs.logCommit hr hreg o, (logCommit_eq s t o).1⟩
  · exact ⟨hs, rfl⟩

theorem SysOk.step {s : TxSystem} (hs : SysOk s) {op : SysOp}
    (hp : s.Prudent op) : SysOk (s.step op) := by
  cases op with
  | begin level => exact hs.begin level
  | flush =>
    have happ : ∀ x, x ∈ s.flushWal.appended ↔ x ∈ s.appended := fun x => by
      simp [TxSystem.flushWal, TxSystem.appended, or_comm]
    refine ⟨hs.issued, hs.history, hs.next, fun u txu hu => ?_,
      fun u hu => hs.appended u ((happ u).mp hu),
      fun u hu => (happ u).mpr (hs.committed hu), hs.wounded, hs.registry,
      hs.aborted⟩
    have hok := hs.txs u txu hu
    exact ⟨hok.wound, fun rs how hpc hne hmem =>
        hok.aborting rs how hpc hne ((happ u).mp hmem),
      fun h => (happ u).mpr (hok.committing h), hok.marked⟩
  | lock t c =>
    refine hs.manager (.lock t c) (by simp) rfl rfl
      (fun _ _ _ _ => .inr ⟨by simp, rfl, rfl⟩) (fun h _ => ?_)
      (fun _ _ h => by cases h) fun _ _ _ _ h => by cases h
    rw [TxSystem.step, h]
    exact hs
  | rollback t =>
    refine hs.manager (.rollback t) (by simp) rfl rfl
      (fun _ _ _ _ => .inr ⟨by simp, rfl, rfl⟩) (fun h _ => ?_)
      (fun _ _ h => by cases h) fun _ _ _ _ h _ => ?_
    · rw [TxSystem.step, h]
      exact hs
    · cases h
      exact ⟨nofun, fun hmem => absurd hmem hp⟩
  | commit t o =>
    obtain ⟨hlogged, hm⟩ := hs.logged (o := o) hp.1
    refine hlogged.manager (.commit t (o == .flushed)) (by simp)
      (by rw [hm]; rfl) rfl (fun _ _ _ _ => .inr ⟨by simp, rfl, rfl⟩)
      (fun h _ => ?_) (fun _ _ h => by cases h) fun t' tx how htx h hst => ?_
    · rw [TxSystem.step, ← hm, h]
      exact hlogged
    · rw [hm] at htx h
      generalize hw : (o == .flushed) = w at h
      cases h with
      | commit hpc hd =>
        have hr : TxSystem.reachesWal s.manager t = true := by
          simp [TxSystem.reachesWal, htx, hpc, hd, Transaction.isActive, hst]
        have ho : o ≠ .appendFailed := by
          rintro rfl
          cases hw
        rw [TxSystem.logged, if_pos hr]
        exact ⟨fun _ => mem_appended_logCommit.mpr (.inr ⟨ho, rfl⟩), fun _ => rfl⟩
      | conflict _ hpc hd =>
        have hr : ¬ TxSystem.reachesWal s.manager t = true := by
          simp [TxSystem.reachesWal, htx, hd]
        rw [TxSystem.logged, if_neg hr]
        exact ⟨nofun, fun hmem => absurd hmem (hp.2 tx htx hd)⟩
  | step t =>
    rw [TxSystem.step]
    split
    · next tx htx =>
        refine hs.manager (.step t) (by simp) rfl rfl
          (fun t' tx' heq htx' => ?_) (fun h hidle => ?_)
          (fun t' tx' heq htx' v hv => ?_) fun t' tx' how htx' h _ => ?_
        · cases heq
          rw [htx] at htx'
          cases htx'
          exact .inl ⟨rfl, rfl, rfl⟩
        · rw [h, hidle t tx rfl htx]
          exact hs
        · cases heq
          exact hp tx' htx' v hv
        · cases h with
          | wounded _ hab =>
            have hmem : t ∈ s.manager.abortRegistry := by
              simpa [TransactionManager.isAborted] using hab
            exact ⟨nofun, fun hx => absurd (hs.registry hmem) (hs.appended t hx).2.2⟩
    · exact hs

/-- In every state of a prudent run, no transaction is both in the abort log
and committed on disk, and no transaction that was wounded has committed. -/
theorem wounded_never_commits (ops : List SysOp)
    (hp : Guarded TxSystem.step TxSystem.Prudent .new ops) (n : Nat) :
    (run TxSystem.step .new (ops.take n)).LogsAgree :=
  (run_inv_take (fun _ _ hs h => hs.step h) sysOk_new hp n).logsAgree

/-- Transaction 2 holds resource 5, and the older transaction 1 wounds it over
that. -/
def sampleWound : List SysOp :=
  [.begin .repeatableRead, .begin .repeatableRead,
    .lock 2 (.acquireLock 5 .exclusive), .step 2, .step 2,
    .lock 1 (.acquireLock 5 .exclusive), .step 1, .step 1, .step 1, .step 1,
    .step 1, .step 1]

/-- The victim finds out in its next lock call and aborts; it is refused when
it tries to commit, and the other one commits. -/
def sampleVictim : List SysOp :=
  [.lock 2 (.acquireLock 6 .shared), .step 2, .step 2, .step 2,
    .commit 2 .flushed, .commit 1 .flushed, .step 1]

theorem wounded_never_commits_victim_aborts :
    (run TxSystem.step .new
      ((sampleWound ++ sampleVictim).take 19)).LogsAgree :=
  wounded_never_commits _ (by decide) 19

/-- The victim commits. -/
theorem wounded_commits : ¬ ∀ ops : List SysOp, (run TxSystem.step .new ops).LogsAgree :=
  fun h => (h (sampleWound ++ [.commit 2 .flushed, .step 2, .step 2])).1 2
    (by decide)

end RGraph.Txn
