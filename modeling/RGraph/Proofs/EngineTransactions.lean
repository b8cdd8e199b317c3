import RGraph.Proofs.EngineFailure

/-!
# The transactions of single calls

A call that changes nodes or edges begins a transaction of its own, which
takes one lock. Most of its steps are followed by a rollback when they fail.
The error of `commit` is returned as it is, and so is that of a record that
cannot be read in `delete_node` and `delete_edge`: no one ends the transaction
then, and no one can, since its handle is gone.
-/

namespace RGraph.Graph

open RGraph.Lib RGraph.Storage RGraph.Wal RGraph.Index Call List

/-! ## An open transaction -/

/-- Nothing has happened to the transactions. -/
structure SameTx (e e' : GraphStorageEngine) : Prop where
  nextTxid : e'.nextTxid = e.nextTxid
  active : e'.active = e.active
  locks : e'.locks = e.locks

instance : IsPreorder _ SameTx where
  refl _ := ⟨rfl, rfl, rfl⟩
  trans _ _ _ h h' := ⟨h'.nextTxid.trans h.nextTxid, h'.active.trans h.active,
    h'.locks.trans h.locks⟩

/-- The id of the next transaction is not in use. -/
structure NextUnused (e : GraphStorageEngine) : Prop where
  active : ∀ txid ∈ e.active, txid < e.nextTxid
  locks : ∀ l ∈ e.locks, l.2 < e.nextTxid

/-- The transaction is not active and holds no lock. -/
def TxEnded (e : GraphStorageEngine) (txid : Nat) : Prop :=
  txid ∉ e.active ∧ ∀ l ∈ e.locks, l.2 ≠ txid

/-- After `begin` in the state `e₀`, and before the transaction ends. -/
structure TxOpened (e₀ e : GraphStorageEngine) : Prop where
  nextTxid : e.nextTxid = e₀.nextTxid + 1
  active : e.active = e₀.active ++ [e₀.nextTxid]
  locks : ∃ held : List UInt64, e.locks = e₀.locks ++ held.map (·, e₀.nextTxid)

/-- The transaction that was begun in the state `e₀` has ended. -/
structure TxClosed (e₀ e : GraphStorageEngine) : Prop where
  nextTxid : e.nextTxid = e₀.nextTxid + 1
  active : e.active = e₀.active
  locks : e.locks = e₀.locks

section Scope

variable {e₀ e e' : GraphStorageEngine} {f : Faults} {α β : Type}

theorem TxOpened.same (h : TxOpened e₀ e) (hs : SameTx e e') : TxOpened e₀ e' := by
  refine ⟨hs.nextTxid.trans h.nextTxid, hs.active.trans h.active, ?_⟩
  rw [hs.locks]
  exact h.locks

theorem TxClosed.same (h : TxClosed e₀ e) (hs : SameTx e e') : TxClosed e₀ e' :=
  ⟨hs.nextTxid.trans h.nextTxid, hs.active.trans h.active, hs.locks.trans h.locks⟩

theorem TxOpened.holdLock (h : TxOpened e₀ e) (r : UInt64) :
    TxOpened e₀ (e.holdLock e₀.nextTxid r) := by
  obtain ⟨held, hlocks⟩ := h.locks
  refine ⟨h.nextTxid, h.active, held ++ [r], ?_⟩
  rw [GraphStorageEngine.holdLock, hlocks, map_append, append_assoc]
  rfl

theorem TxOpened.endTx (h : TxOpened e₀ e) (hf : NextUnused e₀) :
    TxClosed e₀ (e.endTx e₀.nextTxid) := by
  obtain ⟨held, hlocks⟩ := h.locks
  refine ⟨h.nextTxid, ?_, ?_⟩
  · show e.active.filter _ = _
    rw [h.active, filter_append, filter_eq_self.mpr fun t ht => bne_iff_ne.mpr (hf.active t ht).ne]
    simp
  · show e.locks.filter _ = _
    rw [hlocks, filter_append, filter_eq_self.mpr fun l hl => bne_iff_ne.mpr (hf.locks l hl).ne]
    simp

theorem NextUnused.ended (hf : NextUnused e) : TxEnded e e.nextTxid :=
  ⟨fun h => (hf.active _ h).ne rfl, fun l hl => (hf.locks l hl).ne⟩

theorem TxClosed.ended (h : TxClosed e₀ e) (hf : NextUnused e₀) : TxEnded e e₀.nextTxid := by
  rw [TxEnded, h.active, h.locks]
  exact hf.ended

end Scope

/-! ## Whole calls -/

section Calls

variable {f : Faults} {e e' : GraphStorageEngine} {α : Type}
  {r : Except StorageError α}

end Calls

/-! ## Every call -/

end RGraph.Graph
