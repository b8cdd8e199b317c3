import RGraph.Txn.IndexCommit

/-!
# What a failed commit leaves in the indexes

The mutations are applied first and nothing takes them back: neither the
rollback after SSI validation, which only discards what is still staged, nor
the return after a failed append or flush.
-/

namespace RGraph.Index

theorem TreeCall.search_effect_self (c : TreeCall) (s : IndexManager) :
    (c.effect s).search c.tree c.key = c.value := by
  rw [IndexManager.search, effect]
  dsimp only
  rw [Function.update_self]
  cases c.value with
  | none => exact Std.ExtTreeMap.getElem?_erase_self
  | some v => exact Std.ExtTreeMap.getElem?_insert_self

theorem IndexManager.SameAnswers.refl (s : IndexManager) : s.SameAnswers s :=
  ⟨fun _ _ => rfl, fun _ _ => rfl, fun _ _ _ => rfl⟩

end RGraph.Index

namespace RGraph.Txn

open RGraph.Lib RGraph.Index List

section Calls

variable {m : TransactionManager} {t : TxId} {tx : Transaction}

theorem txs_setTx (m : TransactionManager) (t : TxId) (tx : Transaction) :
    (m.setTx t tx).txs t = some tx :=
  Function.update_self ..

theorem step_setTx (m : TransactionManager) (t : TxId) (tx : Transaction) :
    txStep (m.setTx t tx) (.step t) = (m.setTx t tx).stepTx t tx := by
  rw [txStep, txs_setTx]

/-- What a call returns that ends in this way. -/
def Ending.result (t : TxId) : Ending → Except TxError Unit
  | .commit => .ok ()
  | .rollback => .ok ()
  | .phantomConflict => .error (.phantomConflict t)
  | .wounded => .error (.woundWait t)

theorem txs_finish (m : TransactionManager) (t : TxId) (tx : Transaction) (how : Ending) :
    ∃ tx', (m.finish t tx how).txs t = some tx' ∧ tx'.result = how.result t := by
  cases how <;> exact ⟨_, txs_setTx .., rfl⟩

/-- Releasing takes one access for each lock and one to end. -/
theorem run_releasing (rs : List ResourceId) (how : Ending)
    (m : TransactionManager) (tx : Transaction) :
    ∃ tx', (run txStep (m.setTx t (tx.goto (.releasing rs how)))
        (List.replicate (rs.length + 1) (.step t))).txs t = some tx' ∧
      tx'.result = how.result t := by
  induction rs generalizing m tx with
  | nil =>
    rw [length_nil, Nat.zero_add, replicate_one, run_cons, run_nil, step_setTx]
    exact txs_finish _ _ _ _
  | cons r rs ih =>
    rw [length_cons, replicate_succ, run_cons, step_setTx]
    exact ih _ _

/-- Nothing happens to a transaction that is in no call. -/
theorem run_idle (htx : m.txs t = some tx) (hidle : tx.pc = .idle) (n : Nat) :
    run txStep m (List.replicate n (.step t)) = m := by
  induction n with
  | zero => rfl
  | succ n ih =>
    rw [replicate_succ, run_cons, txStep, htx]
    dsimp only
    rw [TransactionManager.stepTx, hidle]
    exact ih

theorem returned_of (htx : m.txs t = some tx) :
    IndexedSystem.returned m t = tx.result.mapError .tx := by
  rw [IndexedSystem.returned, htx]

theorem returned_releasing (how : Ending) : IndexedSystem.returned (IndexedSystem.toEnd
      (m.setTx t (tx.startRelease how)) t tx) t = (how.result t).mapError .tx := by
  obtain ⟨tx', htx', hres⟩ := run_releasing (t := t) (tx.heldLocks ++ tx.readRanges) how m
    { tx with heldLocks := [], readRanges := [] }
  rw [length_append] at htx'
  rw [← hres]
  exact returned_of htx'

/-- `commit` on an active transaction fails unless it gets past SSI validation
and its record is flushed. -/
theorem returned_commit (htx : m.txs t = some tx) (hidle : tx.pc = .idle)
    (hactive : tx.isActive) (walOk : Bool) : IndexedSystem.returned (IndexedSystem.toEnd
      (txStep m (.commit t walOk)) t tx) t =
      if m.isDoomed t tx then .error (.tx (.phantomConflict t))
      else if walOk then .ok () else .error (.tx .walFlush) := by
  rw [txStep, htx]
  dsimp only
  rw [if_pos hidle, TransactionManager.commit, if_pos hactive]
  split
  · exact returned_releasing .phantomConflict
  · split
    · exact returned_releasing .commit
    · rw [IndexedSystem.toEnd, run_idle (txs_setTx ..) rfl, returned_of (txs_setTx ..)]
      rfl

end Calls

theorem failed_commit_keeps_indexes_iff (s : IndexedSystem) (t : TxId)
    (tx : Transaction) (batch : Option BTreeError) (outcome : WalOutcome)
    (htx : s.manager.txs t = some tx) (hidle : tx.pc = .idle) :
    (∀ e, (s.commitWithIndexes t tx batch outcome).1 = .error e →
      s.indexes.SameAnswers
        (s.commitWithIndexes t tx batch outcome).2.indexes) ↔
      tx.isActive = false ∨ batch.isSome ∨ (s.manager.isDoomed t tx = false ∧ outcome = .flushed) ∨
        s.indexes.SameAnswers (s.applied t) := by
  have hrefl := IndexManager.SameAnswers.refl s.indexes
  rw [IndexedSystem.commitWithIndexes.eq_def]
  by_cases hactive : tx.isActive
  · rw [if_pos hactive]
    cases batch with
    | some e => exact ⟨fun _ => by simp, fun _ _ _ => hrefl⟩
    | none =>
      dsimp only
      rw [returned_commit htx hidle hactive]
      by_cases hdoomed : s.manager.isDoomed t tx
      · rw [if_pos hdoomed]
        simp [hactive, hdoomed]
      · rw [if_neg hdoomed]
        cases outcome <;> simp [hactive, hdoomed]
  · rw [if_neg hactive]
    exact ⟨fun _ => Or.inl (by simpa using hactive), fun _ _ _ => hrefl⟩

/-- Transaction 1 has begun and has staged these mutations. -/
def sampleStaged (indexes : IndexManager) (staged : List IndexMutation) : IndexedSystem :=
  staged.foldl (fun s m => (s.stageIndexMutation 1 m).2)
    { IndexedSystem.new with manager := txStep .new (.begin .repeatableRead), indexes }

/-- The batch cannot be applied, and none of its entries is in an index. Or the
flush fails, and what was staged only deletes what is not there. -/
theorem failed_commit_keeps_indexes_refused :
    let tx := Transaction.begin .repeatableRead
    let s := sampleStaged .new [.insertNode 7 (.new 10 5), .insertLabel 3 7 (.new 10 5),
      .insertRdf ⟨1, 2, 3⟩ (.new 10 6) none]
    let r := s.commitWithIndexes 1 tx (some .missingRoot) .flushed
    let s' := sampleStaged .new [.deleteNode 7, .deleteLabel 3 7]
    let r' := s'.commitWithIndexes 1 tx none .flushFailed
    (r.1 = .error (.indexMutation .missingRoot) ∧ s.indexes.SameAnswers r.2.indexes) ∧
      r'.1 = .error (.tx .walFlush) ∧ s'.indexes.SameAnswers r'.2.indexes := by
  intro tx s r s' r'
  have happlied : s'.applied 1 = s'.indexes := by
    refine congrArg IndexManager.mk (funext fun i => ?_)
    cases i <;> rfl
  have hsame : s'.indexes.SameAnswers (s'.applied 1) := happlied ▸ .refl _
  exact ⟨⟨rfl, (failed_commit_keeps_indexes_iff s 1 tx (some .missingRoot) .flushed rfl rfl).mpr
      (.inr (.inl rfl)) _ rfl⟩,
    rfl, (failed_commit_keeps_indexes_iff s' 1 tx none .flushFailed rfl rfl).mpr
      (.inr (.inr (.inr hsame))) _ rfl⟩

/-- The flush fails. The call returns the error, and node 7, which no committed
transaction has written, is found in the index. -/
theorem unflushed_commit_stays_in_index : ¬ ∀ (s : IndexedSystem) (t : TxId) (tx : Transaction)
      (batch : Option BTreeError) (outcome : WalOutcome) (e : CommitError),
      s.manager.txs t = some tx → tx.pc = .idle →
      (s.commitWithIndexes t tx batch outcome).1 = .error e → s.indexes.SameAnswers
        (s.commitWithIndexes t tx batch outcome).2.indexes := by
  intro h
  let s := sampleStaged .new [.insertNode 7 (.new 10 5)]
  have hsame := (h s 1 (.begin .repeatableRead) none .flushFailed
    (.tx .walFlush) rfl rfl rfl).search .node (nodeIdKey 7)
  have hnew := TreeCall.search_effect_self
    (TreeCall.mk .node (nodeIdKey 7) (some (.new 10 5))) IndexManager.new
  exact absurd (hnew.symm.trans hsame) nofun

end RGraph.Txn
