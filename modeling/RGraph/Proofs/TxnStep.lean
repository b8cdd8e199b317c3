import RGraph.Txn.Manager

/-!
# What a step of the transaction manager can do

`Act` says once what the next access of a transaction can be: which of the
shared structures it touches, and where the call stands after it. Everything
the manager's proofs need of a step is read off its cases, so none of them
unfolds the step function again.

A call that was denied a lock listens on the channel of its queued request
until it is told of the grant or times out; `Pc.listens` is that channel, with
the call it belongs to.
-/

namespace RGraph.Txn

open TransactionManager Function

namespace Pc

/-- The call in progress. -/
def call : Pc → Option LockCall
  | .entry c => some c
  | .snapshot c => some c
  | .readers c _ => some c
  | .attempt c => some c
  | .denied c _ => some c
  | .inspect c _ => some c
  | .mark c _ => some c
  | .wound c _ => some c
  | .wait c _ => some c
  | .notified c => some c
  | .timedOut c => some c
  | .idle => none
  | .releasing _ _ => none

/-- The channel of the call's queued request. -/
def listens : Pc → Option (LockCall × Chan)
  | .denied c (some rx) => some (c, rx)
  | .inspect c (some rx) => some (c, rx)
  | .wait c rx => some (c, rx)
  | _ => none

/-- The next access is not one that ends a transaction, another's or its own. -/
def calm : Pc → Bool
  | .mark _ _ => false
  | .wound _ _ => false
  | .releasing _ _ => false
  | _ => true

/-- The places where a lock call looks its transaction up in the abort
registry. -/
def looksUp : Pc → Bool
  | .entry _ => true
  | .denied _ _ => true
  | .notified _ => true
  | .timedOut _ => true
  | _ => false

theorem calm_of_listens {pc : Pc} {c : LockCall} {rx : Chan}
    (h : pc.listens = some (c, rx)) : pc.calm = true := by
  cases pc <;> first | rfl | cases h

theorem calm_releasing {pc : Pc} (hc : pc.calm = true)
    (rs : List ResourceId) (how : Ending) : pc ≠ .releasing rs how := by
  rintro rfl
  cases hc

end Pc

namespace TransactionManager

/-- The transaction that goes on to release its locks in this step: its commit
passes the log, it is rolled back, or it finds itself in the abort registry in
the middle of a lock call. -/
def finishing (s : TransactionManager) : TxOp → Option TxId
  | .begin _ => none
  | .lock _ _ => none
  | .commit t walOk =>
    match s.txs t with
    | some tx =>
      if tx.pc = .idle ∧ tx.isActive ∧ (s.isDoomed t tx ∨ walOk) then some t
      else none
    | none => none
  | .rollback t =>
    match s.txs t with
    | some tx => if tx.pc = .idle ∧ tx.isActive then some t else none
    | none => none
  | .step t =>
    match s.txs t with
    | some tx => if tx.pc.looksUp ∧ s.isAborted t then some t else none
    | none => none

end TransactionManager

/-- The transaction whose call or step an operation is. -/
def TxOp.caller : TxOp → Option TxId
  | .begin _ => none
  | .lock t _ => some t
  | .commit t _ => some t
  | .rollback t => some t
  | .step t => some t

/-- How a transaction starts to end: by its own call, or because it found
itself wounded. -/
inductive Starts (s : TransactionManager) (t : TxId) (tx : Transaction) :
    TxOp → Ending → Prop where
  | commit (hpc : tx.pc = .idle) (hd : s.isDoomed t tx = false) :
      Starts s t tx (.commit t true) .commit
  | conflict (walOk : Bool) (hpc : tx.pc = .idle)
      (hd : s.isDoomed t tx = true) :
      Starts s t tx (.commit t walOk) .phantomConflict
  | rollback (hpc : tx.pc = .idle) : Starts s t tx (.rollback t) .rollback
  | wounded (hpc : tx.pc.looksUp = true) (hab : s.isAborted t = true) :
      Starts s t tx (.step t) .wounded

/-- A call goes on without a look at the lock table or a loss of its channel. -/
structure Pc.Moves (s : TransactionManager) (p p' : Pc) : Prop where
  calm : p.calm = true
  pc : ∀ rs how, p' ≠ .releasing rs how
  returns : p' = .idle → p = .idle
  listens : ∀ c rx, p'.listens = some (c, rx) → p.listens = some (c, rx)
  notified : ∀ c, p' = .notified c → ∃ rx, p.listens = some (c, rx) ∧ rx ∈ s.sent
  mark : ∀ c v, p' = .mark c v → ∃ m, (v, m) ∈ s.lockTable.holders c.resource
  wound : ∀ c v, p' ≠ .wound c v

/-- A step that leaves the shared structures alone and tracks nothing. -/
structure Quiet (s : TransactionManager) (tx tx' : Transaction) : Prop
    extends Pc.Moves s tx.pc tx'.pc where
  status : tx'.status = tx.status
  heldLocks : tx'.heldLocks = tx.heldLocks
  readRanges : tx'.readRanges = tx.readRanges
  idle : tx.status = .active ∨ tx'.pc = .idle

/-- The next access of `t`: what becomes of the lock table, of the channels
sent to, of the abort registry, of the active set and of the record `tx`. -/
inductive Act (s : TransactionManager) (op : TxOp) (t : TxId)
    (tx : Transaction) :
    LockTable → List Chan → List TxId → List TxId → Transaction → Prop where
  | quiet {tx' : Transaction} (h : Quiet s tx tx') :
      Act s op t tx s.lockTable s.sent s.abortRegistry s.active tx'
  | told (c : LockCall) (hop : op = .step t) (ha : tx.status = .active)
      (h : tx.pc = .notified c ∨ ∃ rx, tx.pc.listens = some (c, rx) ∧ rx ∈ s.sent) :
      Act s op t tx s.lockTable s.sent s.abortRegistry s.active ((tx.track c).answer (.ok ()))
  | granted (c : LockCall) (hop : op = .step t) (ha : tx.status = .active)
      (hpc : tx.pc = .attempt c)
      (h : (s.lockTable.tryAcquire c.resource t c.mode).2.1 = .granted) :
      Act s op t tx (s.lockTable.tryAcquire c.resource t c.mode).1 s.sent
        s.abortRegistry s.active ((tx.track c).answer (.ok ()))
  | denied (c : LockCall) (ha : tx.status = .active)
      (hpc : tx.pc = .attempt c)
      (h : (s.lockTable.tryAcquire c.resource t c.mode).2.1 = .denied) :
      Act s op t tx (s.lockTable.tryAcquire c.resource t c.mode).1 s.sent
        s.abortRegistry s.active
        (tx.goto (callDenied (s.lockTable.tryAcquire c.resource t c.mode).2.2 c))
  | mark (c : LockCall) (v : TxId) (hop : op = .step t)
      (ha : tx.status = .active) (hpc : tx.pc = .mark c v) :
      Act s op t tx s.lockTable s.sent (s.abortRegistry.insert v) s.active
        (tx.goto (.wound c v))
  | wound (c : LockCall) (v : TxId) (hop : op = .step t)
      (hpc : tx.pc = .wound c v) :
      Act s op t tx (s.release c.resource v).lockTable
        (s.release c.resource v).sent s.abortRegistry (s.active.erase v)
        (tx.answer (.error (.woundWait v)))
  | start (how : Ending) (h : Starts s t tx op how)
      (ha : tx.status = .active) :
      Act s op t tx s.lockTable s.sent s.abortRegistry s.active (tx.startRelease how)
  | release (r : ResourceId) (rs : List ResourceId) (how : Ending)
      (hop : op = .step t) (ha : tx.status = .active)
      (hpc : tx.pc = .releasing (r :: rs) how) :
      Act s op t tx (s.release r t).lockTable (s.release r t).sent
        s.abortRegistry s.active (tx.goto (.releasing rs how))
  | finish (how : Ending) (hop : op = .step t)
      (hpc : tx.pc = .releasing [] how) {tx' : Transaction}
      (hst : tx'.status = if how = .commit then .committed else .aborted)
      (hidle : tx'.pc = .idle) :
      Act s op t tx s.lockTable s.sent
        (if how = .commit then s.abortRegistry else s.abortRegistry.erase t)
        (s.active.erase t) tx'

/-- A step of `t` turns `s` into `s'`, and changes no other record. -/
def Acted (s : TransactionManager) (op : TxOp) (t : TxId) (tx : Transaction)
    (s' : TransactionManager) : Prop :=
  ∃ tx', Act s op t tx s'.lockTable s'.sent s'.abortRegistry s'.active tx' ∧
    s'.nextTxid = s.nextTxid ∧ s'.txs = update s.txs t (some tx')

section Inversion

variable {s : TransactionManager} {t : TxId} {tx : Transaction}

/-- The record of a transaction after one was written. -/
theorem of_update {txs : TxId → Option Transaction} {u : TxId}
    {tx' txu : Transaction} (h : update txs t (some tx') u = some txu) :
    u = t ∧ txu = tx' ∨ u ≠ t ∧ txs u = some txu := by
  by_cases hu : u = t
  · rw [hu, update_self] at h
    exact .inl ⟨hu, (Option.some.inj h).symm⟩
  · rw [update_of_ne hu] at h
    exact .inr ⟨hu, h⟩

theorem quiet_goto {pc : Pc} (hm : Pc.Moves s tx.pc pc)
    (ha : tx.status = .active) : Quiet s tx (tx.goto pc) :=
  ⟨hm, rfl, rfl, rfl, .inl ha⟩

/-- A call that is refused at once. -/
theorem quiet_answer (hpc : tx.pc = .idle) (res : Except TxError Unit) :
    Quiet s tx (tx.answer res) where
  toMoves := by
    constructor <;> simp [Transaction.answer, hpc, Pc.calm, Pc.listens]
  status := rfl
  heldLocks := rfl
  readRanges := rfl
  idle := .inr rfl

/-- The look at the holders. -/
theorem moves_inspect {c : LockCall} {rx : Option Chan} (hpc : tx.pc = .inspect c rx) :
    Pc.Moves s tx.pc (s.callInspect t c rx) := by
  unfold callInspect
  dsimp only
  split
  · next v hv =>
      have hmem := List.mem_of_find?_eq_some hv
      obtain ⟨h, hh, rfl⟩ := List.mem_map.mp (List.mem_of_mem_filter hmem)
      constructor
      case mark => rintro _ _ ⟨⟩; exact ⟨h.2, hh⟩
      all_goals simp [hpc, Pc.calm, Pc.listens]
  · split <;> constructor <;> simp [hpc, Pc.calm, Pc.listens]

/-- One access of a thread in a call. -/
theorem stepTx_acted (hpc : tx.pc ≠ .idle) (ha : tx.status = .active) :
    Acted s (.step t) t tx (s.stepTx t tx) := by
  have hstart : tx.pc.looksUp = true → s.isAborted t = true →
      Acted s (.step t) t tx (s.setTx t (tx.startRelease .wounded)) :=
    fun hl hab => ⟨_, .start _ (.wounded hl hab) ha, rfl, rfl⟩
  have hgoto : ∀ {pc}, Pc.Moves s tx.pc pc →
      Acted s (.step t) t tx (s.setTx t (tx.goto pc)) :=
    fun hm => ⟨_, .quiet (quiet_goto hm ha), rfl, rfl⟩
  unfold stepTx
  split
  · next h => exact absurd h hpc
  · next c h =>
      split
      · next hab => exact hstart (by rw [h]; rfl) hab
      · exact hgoto (by constructor <;> simp [h, Pc.calm, Pc.listens])
  · next c h => exact hgoto (by constructor <;> simp [h, Pc.calm, Pc.listens])
  · next c snap h =>
      -- the conflict flag is set; the call moves as any other
      have hm : Pc.Moves s tx.pc (.attempt c) := by
        constructor <;> simp [h, Pc.calm, Pc.listens]
      refine ⟨_, .quiet ?_, rfl, rfl⟩
      exact ⟨hm, rfl, rfl, rfl, .inl ha⟩
  · next c h =>
      split
      · next table rx heq =>
          have hact : Act s (.step t) t tx _ _ _ _ _ := .granted c rfl ha h (by rw [heq])
          rw [heq] at hact
          exact ⟨_, hact, rfl, rfl⟩
      · next table rx heq =>
          have hact : Act s (.step t) t tx _ _ _ _ _ := .denied c ha h (by rw [heq])
          rw [heq] at hact
          exact ⟨_, hact, rfl, rfl⟩
  · next c rx h =>
      split
      · next hab => exact hstart (by rw [h]; rfl) hab
      · exact hgoto (by cases rx <;> constructor <;> simp [h, Pc.calm, Pc.listens])
  · next c rx h => exact hgoto (moves_inspect h)
  · next c v h => exact ⟨_, .mark c v rfl ha h, rfl, rfl⟩
  · next c v h => exact ⟨_, .wound c v rfl h, rfl, rfl⟩
  · next c rx h =>
      split
      · next hsent =>
          have hl : tx.pc.listens = some (c, rx) ∧ rx ∈ s.sent :=
            ⟨by rw [h]; rfl, by simpa using hsent⟩
          cases c with
          | acquireLock r m =>
            refine hgoto ?_
            constructor
            case notified => rintro _ ⟨⟩; exact ⟨rx, hl⟩
            all_goals simp [h, Pc.calm, Pc.listens]
          | acquireRangeLock r => exact ⟨_, .told _ rfl ha (.inr ⟨rx, hl⟩), rfl, rfl⟩
          | recordPhantomWrite r => exact ⟨_, .told _ rfl ha (.inr ⟨rx, hl⟩), rfl, rfl⟩
      · exact hgoto (by constructor <;> simp [h, Pc.calm, Pc.listens])
  · next c h =>
      split
      · next hab => exact hstart (by rw [h]; rfl) hab
      · exact ⟨_, .told c rfl ha (.inl h), rfl, rfl⟩
  · next c h =>
      split
      · next hab => exact hstart (by rw [h]; rfl) hab
      · exact hgoto (by constructor <;> simp [h, Pc.calm, Pc.listens])
  · next how h => cases how <;> exact ⟨_, .finish _ rfl h rfl rfl, rfl, rfl⟩
  · next r rs how h => exact ⟨_, .release r rs how rfl ha h, rfl, rfl⟩

theorem callLock_acted (hpc : tx.pc = .idle) (c : LockCall) :
    Acted s (.lock t c) t tx (s.callLock t tx c) := by
  unfold callLock
  split
  · next hact =>
      have hm : Pc.Moves s tx.pc (callStart c) := by
        cases c <;> constructor <;> simp [hpc, callStart, Pc.calm, Pc.listens]
      exact ⟨_, .quiet (quiet_goto hm (beq_iff_eq.mp hact)), rfl, rfl⟩
  · exact ⟨_, .quiet (quiet_answer hpc _), rfl, rfl⟩

theorem commit_acted (hpc : tx.pc = .idle) (walOk : Bool) :
    Acted s (.commit t walOk) t tx (s.commit t tx walOk) := by
  unfold TransactionManager.commit
  split
  · next hact =>
      have ha := beq_iff_eq.mp hact
      split
      · next hd => exact ⟨_, .start _ (.conflict _ hpc hd) ha, rfl, rfl⟩
      · next hd =>
          split
          · next hw =>
              subst hw
              exact ⟨_, .start _ (.commit hpc (by simpa using hd)) ha, rfl, rfl⟩
          · exact ⟨_, .quiet (quiet_answer hpc _), rfl, rfl⟩
  · exact ⟨_, .quiet (quiet_answer hpc _), rfl, rfl⟩

theorem rollback_acted (hpc : tx.pc = .idle) : Acted s (.rollback t) t tx (s.rollback t tx) := by
  unfold TransactionManager.rollback
  split
  · next hact => exact ⟨_, .start _ (.rollback hpc) (beq_iff_eq.mp hact), rfl, rfl⟩
  · exact ⟨_, .quiet (quiet_answer hpc _), rfl, rfl⟩

/-- A call starts only on a transaction that is in none. -/
theorem call_acted {op : TxOp} {f : Transaction → TransactionManager}
    (hcaller : op.caller = some t) (hne : ∀ u, op ≠ .step u)
    (hf : ∀ tx, tx.pc = .idle → Acted s op t tx (f tx))
    (heq : txStep s op = match s.txs t with
      | some tx => if tx.pc = .idle then f tx else s
      | none => s) :
    (txStep s op = s ∧ ∀ t tx, op = .step t → s.txs t = some tx → tx.pc = .idle) ∨
    ∃ t tx, op.caller = some t ∧ s.txs t = some tx ∧ Acted s op t tx (txStep s op) := by
  have hstay : ∀ t tx, op = .step t → s.txs t = some tx → tx.pc = .idle :=
    fun u _ h => absurd h (hne u)
  cases htx : s.txs t with
  | none =>
    rw [htx] at heq
    exact .inl ⟨heq, hstay⟩
  | some tx =>
    simp only [htx] at heq
    split at heq
    · next hpc => exact .inr ⟨t, tx, hcaller, htx, heq ▸ hf tx hpc⟩
    · exact .inl ⟨heq, hstay⟩

/-- What a step of the manager can do: nothing, begin a transaction under a
new id, or an access of one transaction. -/
theorem txStep_acted (hidle : ∀ t tx, s.txs t = some tx → tx.status ≠ .active → tx.pc = .idle)
    (op : TxOp) : (txStep s op = s ∧ ∀ t tx, op = .step t → s.txs t = some tx → tx.pc = .idle) ∨
    (∃ level, op = .begin level ∧ txStep s op = s.beginWithIsolation level) ∨
    ∃ t tx, op.caller = some t ∧ s.txs t = some tx ∧ Acted s op t tx (txStep s op) := by
  cases op with
  | begin level => exact .inr (.inl ⟨level, rfl, rfl⟩)
  | lock t c =>
    exact (call_acted rfl (by simp) (fun _ h => callLock_acted h c) rfl).imp_right .inr
  | commit t walOk =>
    exact (call_acted rfl (by simp) (fun _ h => commit_acted h walOk) rfl).imp_right .inr
  | rollback t =>
    exact (call_acted rfl (by simp) (fun _ h => rollback_acted h) rfl).imp_right .inr
  | step t =>
    rw [txStep]
    split
    · next tx htx =>
        by_cases hpc : tx.pc = .idle
        · left
          refine ⟨by unfold stepTx; rw [hpc], fun t' tx' heq htx' => ?_⟩
          cases heq
          rw [htx] at htx'
          cases htx'
          exact hpc
        · have ha : tx.status = .active := by
            by_contra hne
            exact hpc (hidle t tx htx hne)
          exact .inr (.inr ⟨t, tx, rfl, htx, stepTx_acted hpc ha⟩)
    · next htx =>
        refine .inl ⟨rfl, fun t' tx' heq htx' => ?_⟩
        cases heq
        rw [htx] at htx'
        cases htx'

end Inversion

end RGraph.Txn
