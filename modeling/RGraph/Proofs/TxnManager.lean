import RGraph.Proofs.LockTable
import RGraph.Proofs.TxnStep

/-!
# What a finished transaction leaves in the lock table

Nothing of a finished transaction may be left in the lock table: no record,
which would block others for good, and no queued request, which a later
release would turn into a record. `OnlyHolds` says this relative to a list of
resources still to be released, so that one invariant covers the release loop
and the time after it.

The two lock-table operations keep `OnlyHolds` of every transaction but the
one that asks for a lock: `tryAcquire` writes for its caller only, and
`release` makes a holder of nobody who is not in a queue. So the invariant of
the whole system needs one thing from outside: that a transaction which starts
to release its locks waits nowhere and has tracked what it holds. The code
does not ensure it: a request that is denied stays in
the queue when the call returns with an error, and the release that a wound
makes can grant the lock to the transaction whose call is about to fail.
-/

namespace RGraph.Txn

open RGraph.Lib List Function

/-! ## The lock table -/

namespace LockTable

/-- No entry has two records of one transaction. -/
def Unique (t : LockTable) : Prop := ∀ r, (t.entry r).Unique

variable {t : LockTable}

theorem unique_tryAcquire (hu : t.Unique) (r : ResourceId) (x : TxId)
    (m : LockMode) : (t.tryAcquire r x m).1.Unique := by
  intro r'
  rcases entry_tryAcquire t r r' x m with h | ⟨rfl, -, h⟩ | ⟨rfl, -, h⟩ <;> rw [h]
  · exact hu r'
  · exact LockEntry.unique_addHolder (hu r')
  · exact hu r'

theorem unique_release (hu : t.Unique) (r : ResourceId) (x : TxId) : (t.release r x).1.Unique := by
  intro r'
  by_cases hr : r' = r
  · subst hr
    exact (release_wakes t r' x).unique (LockEntry.unique_removeHolder (hu r'))
  · rw [entry_release_ne t x hr]
    exact hu r'

/-- `x` is in no queue and holds nothing outside `rs`. -/
structure OnlyHolds (t : LockTable) (x : TxId) (rs : List ResourceId) :
    Prop where
  waiters : ∀ r, ∀ w ∈ (t.entry r).waiters, w.txid ≠ x
  holders : ∀ r, ∀ h ∈ (t.entry r).holders, h.txid = x → r ∈ rs

variable {x : TxId}

theorem OnlyHolds.not_mem_holders (hx : t.OnlyHolds x []) (r : ResourceId)
    (m : LockMode) : (x, m) ∉ t.holders r := by
  intro hmem
  unfold LockTable.holders at hmem
  split at hmem
  · exact not_mem_nil hmem
  · next e he =>
      obtain ⟨h, hh, heq⟩ := mem_map.mp hmem
      have hent : t.entry r = e := by simp [LockTable.entry, he]
      exact not_mem_nil (hx.holders r h (hent ▸ hh) (congrArg Prod.fst heq))

variable {rs : List ResourceId}

/-- A request writes for its own transaction only. -/
theorem OnlyHolds.tryAcquire {y : TxId} (hx : t.OnlyHolds x rs) (hne : y ≠ x)
    (r : ResourceId) (m : LockMode) : (t.tryAcquire r y m).1.OnlyHolds x rs := by
  constructor <;> intro r' <;>
    rcases entry_tryAcquire t r r' y m with h | ⟨rfl, -, h⟩ | ⟨rfl, -, h⟩ <;>
    rw [h]
  · exact hx.waiters r'
  · rw [LockEntry.waiters_addHolder]
    exact hx.waiters r'
  · intro w hw
    rcases mem_append.mp hw with hw | hw
    · exact hx.waiters r' w hw
    · rw [mem_singleton.mp hw]
      exact hne
  · exact hx.holders r'
  · intro h hh heq
    rcases LockEntry.mem_addHolder.mp hh with hh | ⟨-, rfl⟩
    · exact hx.holders r' h hh heq
    · exact absurd heq hne
  · exact hx.holders r'

/-- A release, of whosever lock, wakes only those who are in the queue. -/
theorem OnlyHolds.release (hu : t.Unique) (hx : t.OnlyHolds x rs)
    (r : ResourceId) (y : TxId) : (t.release r y).1.OnlyHolds x rs := by
  refine ⟨fun r' w hw => hx.waiters r' w (waiters_release hw), fun r' h hh heq => ?_⟩
  by_cases hr : r' = r
  · subst hr
    have hwoken := release_wakes t r' y
    rcases hwoken.added h hh with hh | ⟨w, hw, rfl⟩
    · exact hx.holders r' h ((LockEntry.mem_removeHolder (hu r')).mp hh).1 heq
    · exact absurd heq (hx.waiters r' w (hwoken.of_woken hw))
  · rw [entry_release_ne t y hr] at hh
    exact hx.holders r' h hh heq

/-- Releasing one's own lock takes its resource off the list. -/
theorem OnlyHolds.release_self (hu : t.Unique) {r : ResourceId}
    (hx : t.OnlyHolds x (r :: rs)) : (t.release r x).1.OnlyHolds x rs := by
  have hrel := hx.release hu r x
  refine ⟨hrel.waiters, fun r' h hh heq => ?_⟩
  rcases mem_cons.mp (hrel.holders r' h hh heq) with rfl | hmem
  · have hwoken := release_wakes t r' x
    rcases hwoken.added h hh with hh | ⟨w, hw, rfl⟩
    · exact absurd heq ((LockEntry.mem_removeHolder (hu r')).mp hh).2
    · exact absurd heq (hx.waiters r' w (hwoken.of_woken hw))
  · exact hmem

end LockTable

/-! ## One step of the manager -/

namespace TransactionManager

/-- Ended: the status is set where `commit` or `rollback` returns, and where a
lock call returns the transaction's own wound. -/
def Finished (s : TransactionManager) (t : TxId) : Prop :=
  ∃ tx, s.txs t = some tx ∧ tx.status ≠ .active

end TransactionManager

open TransactionManager

variable {s : TransactionManager} {t : TxId} {tx : Transaction}

theorem Starts.finishing {op : TxOp} {how : Ending} (h : Starts s t tx op how)
    (htx : s.txs t = some tx) (ha : tx.status = .active) : s.finishing op = some t := by
  have hact : tx.isActive = true := beq_iff_eq.mpr ha
  cases h with
  | commit hpc hd => simp [TransactionManager.finishing, htx, hpc, hact]
  | conflict w hpc hd => simp [TransactionManager.finishing, htx, hpc, hact, hd]
  | rollback hpc => simp [TransactionManager.finishing, htx, hpc, hact]
  | wounded hpc hab => simp [TransactionManager.finishing, htx, hpc, hab]

/-! ## Transactions that have not begun -/

/-- Nothing is recorded of ids that have not been issued, and an ended
transaction is in no call. Every step keeps this. -/
structure Issued (s : TransactionManager) : Prop where
  unique : s.lockTable.Unique
  idle : ∀ t tx, s.txs t = some tx → tx.status ≠ .active → tx.pc = .idle
  fresh : ∀ t, s.nextTxid ≤ t → s.txs t = none
  table : ∀ t, s.nextTxid ≤ t → s.lockTable.OnlyHolds t []
  victims : ∀ t tx c v, s.txs t = some tx →
    (tx.pc = .mark c v ∨ tx.pc = .wound c v) → v < s.nextTxid

theorem issued_new : Issued TransactionManager.new where
  unique _ := nodup_nil
  idle := by simp [TransactionManager.new]
  fresh _ _ := rfl
  table t _ := ⟨fun r => by simp [TransactionManager.new, LockTable.entry,
    LockEntry.new], fun r => by simp [TransactionManager.new, LockTable.entry, LockEntry.new]⟩
  victims := by simp [TransactionManager.new]

/-- Recorded as a holder, so issued. -/
theorem Issued.holder_lt (hs : Issued s) {r : ResourceId} {m : LockMode}
    (h : (t, m) ∈ s.lockTable.holders r) : t < s.nextTxid := by
  by_contra hge
  exact (hs.table t (Nat.not_lt.mp hge)).not_mem_holders r m h

theorem Issued.lt (hs : Issued s) (htx : s.txs t = some tx) : t < s.nextTxid := by
  by_contra hge
  rw [hs.fresh t (Nat.not_lt.mp hge)] at htx
  cases htx

theorem Issued.begin (hs : Issued s) (level : IsolationLevel) :
    Issued (s.beginWithIsolation level) := by
  refine ⟨hs.unique, fun t tx htx hne => ?_, fun t ht => ?_,
    fun t ht => hs.table t (Nat.le_of_succ_le ht), fun t tx c v htx hpc => ?_⟩
  · rcases of_update htx with ⟨-, rfl⟩ | ⟨-, htx⟩
    · rfl
    · exact hs.idle t tx htx hne
  · exact (update_of_ne (Nat.ne_of_gt ht) ..).trans (hs.fresh t (Nat.le_of_lt ht))
  · rcases of_update htx with ⟨-, rfl⟩ | ⟨-, htx⟩
    · rcases hpc with hpc | hpc <;> cases hpc
    · exact Nat.lt_succ_of_lt (hs.victims t tx c v htx hpc)

/-- An access of a transaction with an id that has been issued. -/
theorem Act.issued {op : TxOp} {tx' : Transaction} {table : LockTable}
    {sent : List Chan} {registry active : List TxId} (hs : Issued s) (htx : s.txs t = some tx)
    (h : Act s op t tx table sent registry active tx') :
    table.Unique ∧ (tx'.status ≠ .active → tx'.pc = .idle) ∧
      (∀ x, s.nextTxid ≤ x → table.OnlyHolds x []) ∧
      ∀ c v, tx'.pc = .mark c v ∨ tx'.pc = .wound c v → v < s.nextTxid := by
  have hne : ∀ {x}, s.nextTxid ≤ x → t ≠ x := fun hx heq => Nat.not_le.mpr (hs.lt htx) (heq ▸ hx)
  have hacq : ∀ r m, (s.lockTable.tryAcquire r t m).1.Unique ∧
      ∀ x, s.nextTxid ≤ x → (s.lockTable.tryAcquire r t m).1.OnlyHolds x [] :=
    fun r m => ⟨LockTable.unique_tryAcquire hs.unique r t m,
      fun x hx => (hs.table x hx).tryAcquire (hne hx) r m⟩
  have hrel : ∀ r y, (s.lockTable.release r y).1.Unique ∧
      ∀ x, s.nextTxid ≤ x → (s.lockTable.release r y).1.OnlyHolds x [] :=
    fun r y => ⟨LockTable.unique_release hs.unique r y,
      fun x hx => (hs.table x hx).release hs.unique r y⟩
  cases h with
  | quiet h =>
    refine ⟨hs.unique, fun hst => ?_, hs.table, fun c v hpc => ?_⟩
    · rw [h.status] at hst
      exact h.idle.resolve_left hst
    · rcases hpc with hpc | hpc
      · obtain ⟨m, hm⟩ := h.mark c v hpc
        exact hs.holder_lt hm
      · exact absurd hpc (h.wound c v)
  | told c => exact ⟨hs.unique, fun _ => rfl, hs.table, by
      simp [Transaction.answer]⟩
  | granted c => exact ⟨(hacq _ _).1, fun _ => rfl, (hacq _ _).2, by
      simp [Transaction.answer]⟩
  | denied c ha =>
    refine ⟨(hacq _ _).1, fun hst => absurd ha hst, (hacq _ _).2, ?_⟩
    cases c <;> simp [Transaction.goto, callDenied]
  | mark c v _ ha hpc =>
    refine ⟨hs.unique, fun hst => absurd ha hst, hs.table, fun c' v' h => ?_⟩
    rcases h with h | h <;> cases h
    exact hs.victims t tx c v htx (.inl hpc)
  | wound c v _ hpc => exact ⟨(hrel _ _).1, fun _ => rfl, (hrel _ _).2, by
      simp [Transaction.answer]⟩
  | start how h ha => exact ⟨hs.unique, fun hst => absurd ha hst, hs.table, by
      simp [Transaction.startRelease]⟩
  | release r rs how _ ha hpc =>
    exact ⟨(hrel _ _).1, fun hst => absurd ha hst, (hrel _ _).2, by
      simp [Transaction.goto]⟩
  | finish how _ hpc hst hidle =>
    refine ⟨hs.unique, fun _ => hidle, hs.table, fun c v h => ?_⟩
    rw [hidle] at h
    rcases h with h | h <;> cases h

theorem Issued.step (hs : Issued s) (op : TxOp) : Issued (txStep s op) := by
  rcases txStep_acted hs.idle op with
    ⟨h, -⟩ | ⟨level, -, h⟩ | ⟨t, tx, -, htx, tx', hact, hnext, htxs⟩
  · rw [h]; exact hs
  · rw [h]; exact hs.begin level
  · obtain ⟨hu, hidle, htable, hvic⟩ := hact.issued hs htx
    refine ⟨hu, fun x txx hx hne => ?_, fun x hx => ?_, fun x hx => ?_,
      fun x txx c v hx hpc => ?_⟩
    · rcases of_update (htxs ▸ hx) with ⟨-, rfl⟩ | ⟨-, hx⟩
      · exact hidle hne
      · exact hs.idle x txx hx hne
    · rw [hnext] at hx
      have hne : x ≠ t := fun heq => Nat.not_le.mpr (hs.lt htx) (heq ▸ hx)
      rw [htxs, update_of_ne hne]
      exact hs.fresh x hx
    · exact htable x (hnext ▸ hx)
    · rw [hnext]
      rcases of_update (htxs ▸ hx) with ⟨-, rfl⟩ | ⟨-, hx⟩
      · exact hvic c v hpc
      · exact hs.victims x txx c v hx hpc

/-! ## Every run -/

/-- What the table may hold of one transaction: nothing once it has ended, and
while it releases its locks only those that are still to come. -/
structure TxOk (table : LockTable) (t : TxId) (tx : Transaction) : Prop where
  finished : tx.status ≠ .active → table.OnlyHolds t []
  releasing : ∀ rs how, tx.pc = .releasing rs how → table.OnlyHolds t rs

structure ManagerOk (s : TransactionManager) : Prop extends Issued s where
  txs : ∀ t tx, s.txs t = some tx → TxOk s.lockTable t tx

/-- Whoever starts to release its locks is in no queue, and has tracked every
lock it holds. -/
def FinishClean (s : TransactionManager) (op : TxOp) : Prop :=
  ∀ t tx, s.finishing op = some t → s.txs t = some tx →
    s.lockTable.OnlyHolds t (tx.heldLocks ++ tx.readRanges)

theorem managerOk_new : ManagerOk TransactionManager.new :=
  ⟨issued_new, by simp [TransactionManager.new]⟩

section Act

variable {s : TransactionManager} {op : TxOp} {t : TxId}
  {tx tx' : Transaction} {table : LockTable} {sent : List Chan}
  {registry active : List TxId}

/-- What an access leaves of the lock table: nothing new of the other
transactions, and of its own what `TxOk` allows. -/
theorem Act.ok (hs : ManagerOk s) (hc : FinishClean s op) (htx : s.txs t = some tx)
    (h : Act s op t tx table sent registry active tx') : TxOk table t tx' ∧
      ∀ x rs, x ≠ t → s.lockTable.OnlyHolds x rs → table.OnlyHolds x rs := by
  have hok := hs.txs t tx htx
  have hacq : ∀ r m x rs, x ≠ t → s.lockTable.OnlyHolds x rs →
      (s.lockTable.tryAcquire r t m).1.OnlyHolds x rs :=
    fun r m x rs hne h => h.tryAcquire (Ne.symm hne) r m
  have hrel : ∀ r y x rs, x ≠ t → s.lockTable.OnlyHolds x rs →
      (s.lockTable.release r y).1.OnlyHolds x rs :=
    fun r y x rs _ h => h.release hs.unique r y
  have htrack : tx.status = .active → ∀ (table : LockTable) c,
      TxOk table t ((tx.track c).answer (.ok ())) := fun ha table c =>
    ⟨fun hne => absurd (by cases c <;> exact ha) hne, nofun⟩
  cases h with
  | quiet h =>
    exact ⟨⟨fun hne => hok.finished (h.status ▸ hne),
      fun rs how hpc => absurd hpc (h.pc rs how)⟩, fun _ _ _ h => h⟩
  | told c _ ha _ => exact ⟨htrack ha _ c, fun _ _ _ h => h⟩
  | granted c _ ha _ _ => exact ⟨htrack ha _ c, hacq _ _⟩
  | denied c ha _ _ =>
    refine ⟨⟨fun hne => absurd ha hne, ?_⟩, hacq _ _⟩
    cases c <;> exact nofun
  | mark c v _ ha _ => exact ⟨⟨fun hne => absurd ha hne, nofun⟩, fun _ _ _ h => h⟩
  | wound c v _ _ =>
    exact ⟨⟨fun hne => (hok.finished hne).release hs.unique _ v, nofun⟩, hrel _ v⟩
  | start how h ha =>
    refine ⟨⟨fun hne => absurd ha hne, ?_⟩, fun _ _ _ h => h⟩
    rintro rs how' ⟨⟩
    exact hc t tx (h.finishing htx ha) htx
  | release r rs how _ ha hpc =>
    refine ⟨⟨fun hne => absurd ha hne, ?_⟩, hrel r t⟩
    rintro rs' how' ⟨⟩
    exact (hok.releasing _ _ hpc).release_self hs.unique
  | finish how _ hpc _ hidle =>
    refine ⟨⟨fun _ => hok.releasing _ _ hpc, fun rs how' hrel => ?_⟩, fun _ _ _ h => h⟩
    rw [hidle] at hrel
    cases hrel

theorem Act.ended (h : Act s op t tx table sent registry active tx')
    (hne : tx.status ≠ .active) : tx'.status ≠ .active := by
  cases h with
  | quiet h => rw [h.status]; exact hne
  | told _ _ ha => exact absurd ha hne
  | granted _ _ ha => exact absurd ha hne
  | denied _ ha => exact absurd ha hne
  | mark _ _ _ ha => exact absurd ha hne
  | wound => exact hne
  | start _ _ ha => exact absurd ha hne
  | release _ _ _ _ ha => exact absurd ha hne
  | finish _ _ _ hst _ =>
    rw [hst]
    split <;> simp

end Act

/-- A clean step keeps the invariant. -/
theorem txStep_ok (s : TransactionManager) (op : TxOp) (hs : ManagerOk s)
    (hc : FinishClean s op) : ManagerOk (txStep s op) := by
  refine ⟨hs.toIssued.step op, fun x txx hx => ?_⟩
  rcases txStep_acted hs.idle op with
    ⟨h, -⟩ | ⟨level, -, h⟩ | ⟨t, tx, -, htx, tx', hact, -, htxs⟩
  · rw [h] at hx ⊢
    exact hs.txs x txx hx
  · rw [h] at hx ⊢
    rcases of_update hx with ⟨-, rfl⟩ | ⟨-, hx⟩
    · exact ⟨fun hne => absurd rfl hne, nofun⟩
    · exact hs.txs x txx hx
  · obtain ⟨hself, hothers⟩ := hact.ok hs hc htx
    rcases of_update (htxs ▸ hx) with ⟨rfl, rfl⟩ | ⟨hne, hx⟩
    · exact hself
    · have hok := hs.txs x txx hx
      exact ⟨fun hst => hothers x [] hne (hok.finished hst),
        fun rs how hpc => hothers x rs hne (hok.releasing rs how hpc)⟩

/-- A transaction that has ended stays ended. -/
theorem finished_txStep (hs : ManagerOk s) (hf : s.Finished t) (op : TxOp) :
    (txStep s op).Finished t := by
  obtain ⟨tx, htx, hne⟩ := hf
  rcases txStep_acted hs.idle op with
    ⟨h, -⟩ | ⟨level, -, h⟩ | ⟨t', tx', -, htx', txx, hact, -, htxs⟩
  · rw [h]; exact ⟨tx, htx, hne⟩
  · rw [h]
    have hlt := hs.toIssued.lt htx
    exact ⟨tx, (update_of_ne (Nat.ne_of_lt hlt) ..).trans htx, hne⟩
  · by_cases heq : t = t'
    · subst heq
      rw [htx] at htx'
      cases htx'
      exact ⟨txx, by rw [htxs, update_self], hact.ended hne⟩
    · exact ⟨tx, by rw [htxs, update_of_ne heq]; exact htx, hne⟩

/-- An ended transaction has no record anywhere. -/
theorem ManagerOk.not_holder (hs : ManagerOk s) (hf : s.Finished t)
    (r : ResourceId) (m : LockMode) : (t, m) ∉ s.lockTable.holders r := by
  obtain ⟨tx, htx, hne⟩ := hf
  exact ((hs.txs t tx htx).finished hne).not_mem_holders r m

/-- In every run in which whoever starts to release its locks is in no queue
and has tracked what it holds: a transaction that has ended after `n` steps
holds no lock then, nor at any later point of the run. -/
theorem finished_never_holds (ops : List TxOp) (hclean : Guarded txStep FinishClean .new ops)
    (n k : Nat) (t : TxId) (hf : (run txStep .new (ops.take n)).Finished t)
    (r : ResourceId) (m : LockMode) :
    (t, m) ∉ (run txStep .new
      (ops.take (n + k))).lockTable.holders r := by
  have hok := run_inv_take txStep_ok managerOk_new hclean
  refine (hok (n + k)).not_holder ?_ r m
  rw [take_add, run_append]
  -- the rest of the run, from the state where `t` has ended
  have hrest := hclean.take (n + k)
  rw [take_add, guarded_append] at hrest
  have hstep : ∀ s op, ManagerOk s ∧ s.Finished t → FinishClean s op →
      ManagerOk (txStep s op) ∧ (txStep s op).Finished t := fun s op hs hc =>
    ⟨txStep_ok s op hs.1 hc, finished_txStep hs.1 hs.2 op⟩
  exact (run_inv hstep ⟨hok n, hf⟩ hrest.2).2

/-! ## Two transactions on one resource -/

/-- A run in which nobody starts to release its locks. -/
theorem guarded_of_none {ops : List TxOp}
    (h : Guarded txStep (fun s op => s.finishing op = none) s ops) :
    Guarded txStep FinishClean s ops := by
  refine h.mono fun s op hnone t tx hf => ?_
  rw [hnone] at hf
  cases hf

/-- Transaction 1 holds resource 5, and transaction 2 sleeps until it can have
it. -/
def sampleWait : List TxOp :=
  [.begin .repeatableRead, .begin .repeatableRead,
    .lock 1 (.acquireLock 5 .exclusive), .step 1, .step 1,
    .lock 2 (.acquireLock 5 .exclusive), .step 2, .step 2, .step 2, .step 2]

/-- Transaction 1 is done and transaction 2 is woken. -/
def sampleWake : List TxOp := [.step 1, .step 1, .step 2, .step 2]

theorem sampleWait_onlyHolds : (run txStep .new sampleWait).lockTable.OnlyHolds 1 [5] := by
  have htable : (run txStep .new sampleWait).lockTable =
      { (LockTable.new.put 5 (some ⟨[⟨1, .exclusive⟩], []⟩)).put 5
          (some ⟨[⟨1, .exclusive⟩], [⟨2, .exclusive, 0⟩]⟩) with
        channels := 1 } := rfl
  rw [htable]
  constructor <;> intro r
  · by_cases hr : r = 5
    · subst hr
      rw [LockTable.entry_setChannels, entry_put_self]
      simp
    · rw [LockTable.entry_setChannels, entry_put_ne _ _ hr, entry_put_ne _ _ hr]
      simp [LockTable.entry, LockEntry.new]
  · by_cases hr : r = 5
    · simp [hr]
    · rw [LockTable.entry_setChannels, entry_put_ne _ _ hr, entry_put_ne _ _ hr]
      simp [LockTable.entry, LockEntry.new]

/-- The waiter gets the lock of the transaction that has committed, which no
longer has it. -/
theorem finished_never_holds_handed_over :
    (run txStep .new
      (sampleWait ++ .commit 1 true :: sampleWake)).lockTable.holders 5 =
        [(2, .exclusive)] ∧
    ∀ r m, (1, m) ∉ (run txStep .new
      (sampleWait ++ .commit 1 true :: sampleWake)).lockTable.holders r := by
  refine ⟨by decide, fun r m => ?_⟩
  refine finished_never_holds (sampleWait ++ .commit 1 true :: sampleWake) ?_
    15 0 1 ⟨_, rfl, by decide⟩ r m
  rw [guarded_append, guarded_cons]
  refine ⟨guarded_of_none (by decide), ?_, guarded_of_none (by decide)⟩
  intro t tx hf htx
  cases hf
  cases htx
  exact sampleWait_onlyHolds

/-- The older transaction 1 asks for what transaction 2 holds. Its request is
queued, it wounds the holder, and the release that goes with the wound grants
the lock to transaction 1, whose call returns `WoundWait(2)` without tracking
it. Transaction 1 commits, and holds resource 5 from then on. -/
theorem wounder_keeps_lock : ¬ ∀ (ops : List TxOp) (t : TxId) (r : ResourceId) (m : LockMode),
      (run txStep .new ops).Finished t → (t, m) ∉ (run txStep .new ops).lockTable.holders r := by
  intro h
  exact h
    [.begin .repeatableRead, .begin .repeatableRead,
      .lock 2 (.acquireLock 5 .exclusive), .step 2, .step 2,
      .lock 1 (.acquireLock 5 .exclusive), .step 1, .step 1, .step 1, .step 1,
      .step 1, .step 1, .commit 1 true, .step 1]
    1 5 .exclusive ⟨_, rfl, by decide⟩ (by decide)

/-! ## No request is lost -/

/-- The first request of the queue conflicts with a holder. -/
def LockEntry.HeadBlocked (e : LockEntry) : Prop :=
  ∀ w ∈ e.waiters.head?, e.compatibleWithHolders w.txid w.mode = false

theorem headBlocked_grantLoop : ∀ (ws : List Waiter) (e : LockEntry),
    (e.grantLoop ws).1.HeadBlocked := by
  intro ws
  induction ws with
  | nil => simp [LockEntry.grantLoop, LockEntry.HeadBlocked]
  | cons w ws ih =>
    intro e
    rw [LockEntry.grantLoop]
    split
    · exact ih _
    · next hc =>
      intro w' hw'
      cases hw'
      exact Bool.eq_false_iff.mpr hc

theorem LockEntry.HeadBlocked.addHolder {e : LockEntry} (h : e.HeadBlocked)
    (x : TxId) (m : LockMode) : (e.addHolder x m).HeadBlocked := by
  rw [LockEntry.addHolder]
  split
  · exact h
  · intro w hw
    have := h w hw
    rw [LockEntry.compatibleWithHolders] at this ⊢
    rw [all_append, this, Bool.false_and]

/-- In every queue. -/
def LockTable.NoneLost (t : LockTable) : Prop := ∀ r, (t.entry r).HeadBlocked

namespace LockTable.NoneLost

variable {t : LockTable} (h : t.NoneLost)
include h

theorem put {r : ResourceId} {e : LockEntry} (he : e.HeadBlocked) :
    (t.put r (some e)).NoneLost := by
  intro r'
  by_cases hr : r' = r
  · rw [hr, entry_put_self]
    exact he
  · rw [entry_put_ne _ _ hr]
    exact h r'

theorem tryAcquire (r : ResourceId) (x : TxId) (m : LockMode) :
    (t.tryAcquire r x m).1.NoneLost := by
  rcases tryAcquire_cases t r x m with ⟨-, heq⟩ | ⟨-, heq⟩ | ⟨-, -, heq⟩ |
    ⟨hc, -, -, heq⟩ <;> rw [heq]
  · exact h.put (h r)
  · exact h.put ((h r).addHolder x m)
  · exact h.put (h r)
  · intro r'
    rw [entry_setChannels]
    refine h.put (fun w hw => ?_) r'
    rw [head?_append] at hw
    cases hq : (t.entry r).waiters.head? with
    | none => rw [hq] at hw; cases hw; exact hc
    | some _ => rw [hq] at hw; exact h r w (hq.trans hw)

theorem release (r : ResourceId) (x : TxId) : (t.release r x).1.NoneLost := by
  intro r'
  by_cases hr : r' = r
  · rw [hr, (entry_release_self t r x).1]
    exact headBlocked_grantLoop _ _
  · rw [entry_release_ne t x hr]
    exact h r'

end LockTable.NoneLost

theorem Act.noneLost {s : TransactionManager} {op : TxOp} {t : TxId}
    {tx tx' : Transaction} {table : LockTable} {sent : List Chan}
    {registry active : List TxId} (hs : s.lockTable.NoneLost)
    (h : Act s op t tx table sent registry active tx') : table.NoneLost := by
  cases h with
  | granted | denied => exact hs.tryAcquire _ _ _
  | wound | release => exact hs.release _ _
  | _ => exact hs

/-- In every interleaving, a request at the head of a queue conflicts with a
transaction that holds the resource. -/
theorem no_request_lost (ops : List TxOp) : (run txStep .new ops).lockTable.NoneLost := by
  have hstep : ∀ s op, Issued s ∧ s.lockTable.NoneLost → True →
      Issued (txStep s op) ∧ (txStep s op).lockTable.NoneLost := by
    rintro s op ⟨hs, h⟩ -
    refine ⟨hs.step op, ?_⟩
    rcases txStep_acted hs.idle op with
      ⟨heq, -⟩ | ⟨level, -, heq⟩ | ⟨t, tx, -, -, tx', hact, -⟩
    · rwa [heq]
    · rw [heq]; exact h
    · exact hact.noneLost h
  exact (run_inv hstep ⟨issued_new, fun _ _ hw => by cases hw⟩
    (.of_forall (fun _ _ => trivial) _ ops)).2

end RGraph.Txn
