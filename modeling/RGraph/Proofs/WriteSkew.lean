import RGraph.Proofs.HeldLocks

/-!
# Write skew

Two transactions that read both ranges, and then each write one of them, must
not both commit. The lock table alone prevents it: the writer needs the range
for itself, so it has to outlast the reader, and each is the reader of what
the other writes. The exception is a reader that was wounded. It has lost its
lock, and it may commit all the same, because neither
`record_phantom_write` nor `commit` looks at the abort registry; the SSI flags
that would have stopped it are cleared by the wound.

So the argument is about the order in which the two would have to start to
commit, and needs one thing from outside: that no wounded transaction commits.
-/

namespace RGraph.Txn

open RGraph.Lib List Function

/-- Nobody commits who is in the abort registry. -/
def CommitUnwounded (s : TransactionManager) : TxOp → Prop
  | .commit t _ => t ∉ s.abortRegistry
  | _ => True

instance (s : TransactionManager) (op : TxOp) :
    Decidable (CommitUnwounded s op) := by
  cases op <;> dsimp only [CommitUnwounded] <;> infer_instance

/-- The write that returns `Ok` in this step, if there is one. -/
def completedWrite (s : TransactionManager) (op : TxOp) : List (TxId × ResourceId) :=
  match op with
  | .step t =>
    match s.txs t, (txStep s (.step t)).txs t with
    | some tx, some tx' =>
      match tx.pc.call with
      | some (.recordPhantomWrite r) =>
        if tx'.pc = .idle ∧ tx'.result.toBool then [(t, r)] else []
      | _ => []
    | _, _ => []
  | _ => []

/-- The manager, and the range writes that have returned `Ok`. -/
structure Watched where
  manager : TransactionManager
  writes : List (TxId × ResourceId)

def Watched.step (s : Watched) (op : TxOp) : Watched :=
  ⟨txStep s.manager op, s.writes ++ completedWrite s.manager op⟩

/-- Serializable and active, has taken the range locks on both ranges, and is
not writing. -/
def ReadsBoth (s : TransactionManager) (t : TxId) (r₁ r₂ : ResourceId) : Prop :=
  ∃ tx, s.txs t = some tx ∧ tx.isolationLevel = .serializable ∧
    tx.status = .active ∧ r₁ ∈ tx.readRanges ∧ r₂ ∈ tx.readRanges ∧
    ∀ r, tx.pc.call ≠ some (.recordPhantomWrite r)

/-- `commit` has returned `Ok`. -/
def Committed (s : TransactionManager) (t : TxId) : Prop :=
  ∃ tx, s.txs t = some tx ∧ tx.status = .committed

/-! ## What a step does to the two -/

section Act

variable {s : TransactionManager} {op : TxOp} {t : TxId}
  {tx tx' : Transaction} {table : LockTable} {sent : List Chan}
  {registry active : List TxId}

variable {c : LockCall} {rx : Chan}

theorem Pc.call_of_listens {pc : Pc} (h : pc.listens = some (c, rx)) : pc.call = some c := by
  cases pc with
  | denied c' o => cases o <;> cases h; rfl
  | inspect c' o => cases o <;> cases h; rfl
  | wait c' rx' => cases h; rfl
  | _ => cases h

/-- A call that returns `Ok` was told of its grant, or granted at once. -/
theorem Act.completes (h : Act s op t tx table sent registry active tx')
    (hcall : tx.pc.call = some c) (hidle : tx'.pc = .idle) (hok : tx'.result.toBool = true) :
    tx.pc = .notified c ∨ (∃ rx, tx.pc.listens = some (c, rx) ∧ rx ∈ s.sent) ∨
      (s.lockTable.tryAcquire c.resource t c.mode).2.1 = .granted := by
  cases h with
  | quiet h => rw [h.returns hidle] at hcall; cases hcall
  | told c' _ _ h =>
    rcases h with h | ⟨rx, h, hmem⟩
    · rw [h] at hcall
      cases hcall
      exact .inl h
    · rw [Pc.call_of_listens h] at hcall
      cases hcall
      exact .inr (.inl ⟨rx, h, hmem⟩)
  | granted c' _ _ hpc h =>
    rw [hpc] at hcall
    cases hcall
    exact .inr (.inr h)
  | denied c' => cases c' <;> cases hidle
  | mark => cases hidle
  | wound => cases hok
  | start => cases hidle
  | release => cases hidle
  | finish _ _ hpc => rw [hpc] at hcall; cases hcall

/-- A caller that has a message on its channel had it before. -/
theorem Act.listened (hs : Tracked s) (h : Act s op t tx table sent registry active tx')
    (hl : tx'.pc.listens = some (c, rx)) (hrx : rx ∈ sent) :
    tx.pc.listens = some (c, rx) ∧ rx ∈ s.sent := by
  cases h with
  | quiet h => exact ⟨h.listens c rx hl, hrx⟩
  | denied c' =>
    -- the channel is new, so nothing has been sent on it
    have hnew : (s.lockTable.tryAcquire c'.resource t c'.mode).2.2 = some rx := by
      generalize (s.lockTable.tryAcquire c'.resource t c'.mode).2.2 = o at hl
      cases o <;> cases c' <;> cases hl <;> rfl
    obtain ⟨rfl, -⟩ := LockTable.queued_of_denied hnew
    exact absurd (hs.queues.told _ hrx) (Nat.lt_irrefl _)
  | finish _ _ _ _ hidle => rw [hidle] at hl; cases hl
  | _ => cases hl

/-- A caller that has been told was listening. -/
theorem Act.was_told (h : Act s op t tx table sent registry active tx')
    (hpc : tx'.pc = .notified c) : ∃ rx, tx.pc.listens = some (c, rx) ∧ rx ∈ s.sent := by
  cases h with
  | quiet h => exact h.notified c hpc
  | denied c' => cases c' <;> cases hpc
  | finish _ _ _ _ hidle => rw [hidle] at hpc; cases hpc
  | _ => cases hpc

/-- The ranges of an intact transaction stay on its list. -/
theorem Act.ranges (h : Act s op t tx table sent registry active tx')
    (hi : Intact registry t tx') : tx.readRanges ⊆ tx'.readRanges := by
  have htrack : ∀ c, tx.readRanges ⊆ (tx.track c).readRanges := by
    intro c
    cases c with
    | acquireLock r m => exact List.Subset.refl _
    | acquireRangeLock r =>
      intro x hx
      simp only [Transaction.track, Transaction.pushNew]
      split
      · exact hx
      · exact mem_append_left _ hx
    | recordPhantomWrite r => exact List.Subset.refl _
  cases h with
  | quiet h => rw [h.readRanges]; exact List.Subset.refl _
  | told c => exact htrack c
  | granted c => exact htrack c
  | start => exact absurd rfl (hi.pc _ _)
  | release => exact absurd rfl (hi.pc _ _)
  | finish _ _ _ hst =>
    have := hi.status
    rw [hst] at this
    split at this <;> cases this
  | _ => exact List.Subset.refl _

/-- A request that is granted over its channel was not exclusive, or no other
intact transaction held the resource. -/
theorem Act.newly_sent (hs : Tracked s) (htx : s.txs t = some tx)
    (h : Act s op t tx table sent registry active tx') (hnew : rx ∈ sent)
    (hold : rx ∉ s.sent) {a : TxId} {r : ResourceId}
    (hw : ⟨a, .exclusive, rx⟩ ∈ (s.lockTable.entry r).waiters) {u : TxId}
    {txu : Transaction} (hu : s.txs u = some txu)
    (hi : Intact s.abortRegistry u txu) (hne : u ≠ a) : ¬ s.lockTable.Holds u r := by
  -- a release of somebody else's lock that wakes the request
  have hrel : ∀ r' y, u ≠ y → rx ∈ (s.release r' y).sent → ¬ s.lockTable.Holds u r := by
    rintro r' y hy hmem ⟨k, hk, rfl⟩
    rcases mem_append.mp hmem with hmem | hmem
    · exact hold hmem
    · obtain ⟨w, hwoken, heq⟩ := mem_map.mp hmem
      have hspec := LockTable.release_wakes s.lockTable r' y
      have hin : w ∈ (s.lockTable.entry r').waiters := hspec.queue ▸ mem_append_left _ hwoken
      obtain rfl := hs.queues.apart r' r w hin _ hw heq
      obtain rfl := inj_on_of_nodup_map (hs.queues.nodup r') hin hw heq
      have hmem := (LockEntry.mem_removeHolder (hs.queues.unique r')).mpr ⟨hk, hy⟩
      have hc := hspec.allowed _ hwoken k hmem hne
      revert hc
      cases k.mode <;> simp [LockMode.compatibleWith]
  cases h with
  | wound c v _ hpc =>
    refine hrel _ _ ?_ hnew
    rintro rfl
    exact hs.wounds t tx c u txu htx hpc hu hi
  | release r' rs how _ _ hpc =>
    refine hrel _ _ ?_ hnew
    rintro rfl
    rw [htx] at hu
    cases hu
    exact hi.pc _ _ hpc
  | _ => exact absurd hnew hold

end Act

variable {a : TxId} {op : TxOp} {r : ResourceId} {s : TransactionManager}

theorem mem_completedWrite (h : (a, r) ∈ completedWrite s op) :
    ∃ tx tx', op = .step a ∧ s.txs a = some tx ∧ (txStep s op).txs a = some tx' ∧
      tx.pc.call = some (.recordPhantomWrite r) ∧ tx'.pc = .idle ∧ tx'.result.toBool = true := by
  unfold completedWrite at h
  split at h
  · next t =>
      split at h
      · next tx tx' htx htx' =>
          split at h
          · next r' hcall =>
              split at h
              · next hret =>
                  cases mem_singleton.mp h
                  exact ⟨tx, tx', rfl, htx, htx', hcall, hret⟩
              · cases h
          · cases h
      · cases h
  · cases h

/-! ## One reader and one writer -/

/-- There is such a transaction, and it is not intact. -/
def Broken (s : TransactionManager) (b : TxId) : Prop :=
  ∃ tx, s.txs b = some tx ∧ ¬ Intact s.abortRegistry b tx

/-- `b` has read the range `r`; once `a` has been granted its write of the
range, `b` is broken. -/
structure Guards (s : Watched) (a : TxId) (r : ResourceId) (b : TxId) :
    Prop where
  known : ∃ tx, s.manager.txs b = some tx
  reads : ∀ tx, s.manager.txs b = some tx →
    Intact s.manager.abortRegistry b tx → r ∈ tx.readRanges
  wrote : (a, r) ∈ s.writes → Broken s.manager b
  granted : ∀ tx rx, s.manager.txs a = some tx →
    tx.pc.listens = some (.recordPhantomWrite r, rx) → rx ∈ s.manager.sent →
    Broken s.manager b
  notified : ∀ tx, s.manager.txs a = some tx →
    tx.pc = .notified (.recordPhantomWrite r) → Broken s.manager b

/-- A step of a transaction, as it looks from another's record. -/
theorem txs_of_acted {s' : TransactionManager} {t : TxId} {tx' : Transaction}
    (htxs : s'.txs = update s.txs t (some tx')) {u : TxId} {txu : Transaction}
    (hu : s'.txs u = some txu) : u = t ∧ txu = tx' ∨ u ≠ t ∧ s.txs u = some txu := by
  rw [htxs] at hu
  by_cases heq : u = t
  · subst heq
    rw [update_self] at hu
    cases hu
    exact .inl ⟨rfl, rfl⟩
  · rw [update_of_ne heq] at hu
    exact .inr ⟨heq, hu⟩

section Step

variable {s : Watched} {op : TxOp} {t a b : TxId} {r : ResourceId}
  {tx tx' : Transaction}

/-- What is intact after an access was so before, with its ranges. -/
theorem intact_of_acted (htx : s.manager.txs t = some tx)
    (hact : Act s.manager op t tx (txStep s.manager op).lockTable
      (txStep s.manager op).sent (txStep s.manager op).abortRegistry
      (txStep s.manager op).active tx')
    (htxs : (txStep s.manager op).txs = update s.manager.txs t (some tx'))
    {u : TxId} {txu : Transaction} (hu : (txStep s.manager op).txs u = some txu)
    (hi : Intact (txStep s.manager op).abortRegistry u txu) : ∃ txu₀, s.manager.txs u = some txu₀ ∧
      Intact s.manager.abortRegistry u txu₀ ∧ txu₀.readRanges ⊆ txu.readRanges := by
  rcases txs_of_acted htxs hu with ⟨rfl, rfl⟩ | ⟨hne, hu⟩
  · exact ⟨tx, htx, hact.intact hi, hact.ranges hi⟩
  · exact ⟨txu, hu, ⟨hi.status, hi.pc, fun hm =>
      hi.registry (hact.registry_mono hne hm)⟩, List.Subset.refl _⟩

theorem Guards.acted (hs : Tracked s.manager) (hg : Guards s a r b)
    (hab : a ≠ b) (hcall : op.caller = some t) (htx : s.manager.txs t = some tx)
    (hact : Act s.manager op t tx (txStep s.manager op).lockTable
      (txStep s.manager op).sent (txStep s.manager op).abortRegistry
      (txStep s.manager op).active tx')
    (htxs : (txStep s.manager op).txs = update s.manager.txs t (some tx')) :
    Guards (s.step op) a r b := by
  have hknown : ∃ txb, (txStep s.manager op).txs b = some txb := by
    obtain ⟨txb, hb⟩ := hg.known
    rw [htxs]
    by_cases heq : b = t
    · exact ⟨tx', by rw [heq, update_self]⟩
    · exact ⟨txb, by rw [update_of_ne heq]; exact hb⟩
  -- it is enough that the reader was broken before, or held the range
  have hbroken : (∀ txb, s.manager.txs b = some txb →
      Intact s.manager.abortRegistry b txb → s.manager.lockTable.Holds b r →
      False) → Broken (txStep s.manager op) b := by
    intro hno
    obtain ⟨txb, hb⟩ := hknown
    refine ⟨txb, hb, fun hi => ?_⟩
    obtain ⟨txb₀, hb₀, hi₀, -⟩ := intact_of_acted htx hact htxs hb hi
    exact hno txb₀ hb₀ hi₀ ((hs.txs b txb₀ hb₀).held hi₀ r
      (mem_append_right _ (hg.reads txb₀ hb₀ hi₀)))
  have hstays : Broken s.manager b → Broken (txStep s.manager op) b := by
    rintro ⟨txb, hb, hn⟩
    refine hbroken fun txb' hb' hi _ => ?_
    rw [hb] at hb'
    cases hb'
    exact hn hi
  refine ⟨hknown, fun txb hb hi => ?_, fun hw => ?_, fun txa rx ha hl hrx => ?_,
    fun txa ha hpc => ?_⟩
  · obtain ⟨txb₀, hb₀, hi₀, hsub⟩ := intact_of_acted htx hact htxs hb hi
    exact hsub (hg.reads txb₀ hb₀ hi₀)
  · rcases mem_append.mp hw with hw | hw
    · exact hstays (hg.wrote hw)
    · obtain ⟨txa, txa', rfl, ha, ha', hcall', hidle, hok⟩ :=
        mem_completedWrite hw
      cases hcall
      rw [htx] at ha
      cases ha
      rcases txs_of_acted htxs ha' with ⟨-, rfl⟩ | ⟨hne, -⟩
      · rcases hact.completes hcall' hidle hok with h | ⟨rx, h, hmem⟩ | h
        · exact hstays (hg.notified tx htx h)
        · exact hstays (hg.granted tx rx htx h hmem)
        · exact hbroken fun txb hb hi hh => hab
            (LockTable.exclusive_granted (hs.queues.compat r) h hh).symm
      · exact absurd rfl hne
  · rcases txs_of_acted htxs ha with ⟨rfl, rfl⟩ | ⟨hne, ha⟩
    · obtain ⟨hl, hrx⟩ := hact.listened hs hl hrx
      exact hstays (hg.granted tx rx htx hl hrx)
    · by_cases hold : rx ∈ s.manager.sent
      · exact hstays (hg.granted txa rx ha hl hold)
      · have hw := ((hs.txs a txa ha).queued _ rx hl).2 hold
        exact hbroken fun txb hb hi hh => hact.newly_sent hs htx hrx hold hw hb hi (Ne.symm hab) hh
  · rcases txs_of_acted htxs ha with ⟨rfl, rfl⟩ | ⟨hne, ha⟩
    · obtain ⟨rx, hl, hrx⟩ := hact.was_told hpc
      exact hstays (hg.granted tx rx htx hl hrx)
    · exact hstays (hg.notified txa ha hpc)

theorem completedWrite_begin (m : TransactionManager) (level : IsolationLevel) :
    completedWrite m (.begin level) = [] := rfl

/-- A step of the manager keeps reader and writer apart. -/
theorem Guards.step (hs : Tracked s.manager) (hg : Guards s a r b)
    (hab : a ≠ b) : Guards (s.step op) a r b := by
  rcases txStep_acted hs.issued.idle op with
    ⟨h, hidle⟩ | ⟨level, rfl, h⟩ | ⟨t, tx, hcall, htx, tx', hact, -, htxs⟩
  · -- nothing happens, and no call returns
    have hnone : completedWrite s.manager op = [] := by
      refine eq_nil_iff_forall_not_mem.mpr fun x hx => ?_
      obtain ⟨tx, -, hop, htx, -, hcall, -⟩ := mem_completedWrite hx
      rw [hidle _ tx hop htx] at hcall
      cases hcall
    rw [Watched.step, h, hnone, append_nil]
    exact hg
  · have hold : ∀ u txu, s.manager.txs u = some txu →
        (s.manager.beginWithIsolation level).txs u = some txu :=
      fun u txu hu => by
        have hne : u ≠ s.manager.nextTxid := Nat.ne_of_lt (hs.issued.lt hu)
        simpa [TransactionManager.beginWithIsolation, TransactionManager.setTx, hne] using hu
    have hnew : ∀ u txu, (s.manager.beginWithIsolation level).txs u = some txu →
        txu = Transaction.begin level ∨ s.manager.txs u = some txu := by
      intro u txu hu
      rcases txs_of_acted (s := s.manager) rfl hu with ⟨-, rfl⟩ | ⟨-, hu⟩
      · exact .inl rfl
      · exact .inr hu
    have hstays : Broken s.manager b → Broken (s.manager.beginWithIsolation level) b := by
      rintro ⟨txb, hb, hn⟩
      exact ⟨txb, hold b txb hb, hn⟩
    obtain ⟨txb, hb⟩ := hg.known
    rw [Watched.step, h, completedWrite_begin, append_nil]
    refine ⟨⟨txb, hold b txb hb⟩, fun txb' hb' hi => ?_,
      fun hw => hstays (hg.wrote hw), fun txa rx ha hl hrx => ?_,
      fun txa ha hpc => ?_⟩
    · rw [hold b txb hb] at hb'
      cases hb'
      exact hg.reads txb hb hi
    · rcases hnew a txa ha with rfl | ha
      · cases hl
      · exact hstays (hg.granted txa rx ha hl hrx)
    · rcases hnew a txa ha with rfl | ha
      · cases hpc
      · exact hstays (hg.notified txa ha hpc)
  · exact hg.acted hs hab hcall htx hact htxs

end Step

/-! ## Both -/

/-- `commit` has passed its checks and is releasing the locks, or has
returned. -/
def Committing (s : TransactionManager) (t : TxId) : Prop :=
  ∃ tx, s.txs t = some tx ∧ (tx.status = .committed ∨ ∃ rs, tx.pc = .releasing rs .commit)

/-- A transaction is committing because it was, or because it starts to. -/
theorem Act.committing {t : TxId} {tx tx' : Transaction} {table : LockTable}
    {sent : List Chan} {registry active : List TxId}
    (h : Act s op t tx table sent registry active tx')
    (hc : tx'.status = .committed ∨ ∃ rs, tx'.pc = .releasing rs .commit) :
    (tx.status = .committed ∨ ∃ rs, tx.pc = .releasing rs .commit) ∨
      Starts s t tx op .commit ∧ tx.status = .active := by
  have hsame : tx'.status = tx.status → (∀ rs how, tx'.pc ≠ .releasing rs how) →
      tx.status = .committed ∨ ∃ rs, tx.pc = .releasing rs .commit := by
    intro hst hpc
    rcases hc with hc | ⟨rs, hc⟩
    · exact .inl (hst ▸ hc)
    · exact absurd hc (hpc rs _)
  cases h with
  | quiet h => exact .inl (hsame h.status h.pc)
  | told c => exact .inl (hsame (by cases c <;> rfl) fun _ _ => Pc.noConfusion)
  | granted c =>
    exact .inl (hsame (by cases c <;> rfl) fun _ _ => Pc.noConfusion)
  | denied c =>
    refine .inl (hsame rfl ?_)
    cases c <;> exact fun _ _ => Pc.noConfusion
  | mark c v => exact .inl (hsame rfl fun _ _ => Pc.noConfusion)
  | wound c v => exact .inl (hsame rfl fun _ _ => Pc.noConfusion)
  | start how h ha =>
    rcases hc with hc | ⟨rs, hc⟩
    · exact .inl (.inl hc)
    · cases hc
      exact .inr ⟨h, ha⟩
  | release r rs how _ _ hpc =>
    rcases hc with hc | ⟨rs', hc⟩
    · exact .inl (.inl hc)
    · cases hc
      exact .inl (.inr ⟨_, hpc⟩)
  | finish how _ hpc hst hidle =>
    rcases hc with hc | ⟨rs, hc⟩
    · rw [hst] at hc
      split at hc
      · next heq => exact .inl (.inr ⟨[], heq ▸ hpc⟩)
      · cases hc
    · rw [hidle] at hc
      cases hc

/-- Whoever starts to commit was intact. -/
theorem Committing.of_step (hs : Tracked s) (hc : CommitUnwounded s op)
    {u : TxId} (h : Committing (txStep s op) u) : Committing s u ∨ op = .commit u true ∧
      ∃ tx, s.txs u = some tx ∧ Intact s.abortRegistry u tx := by
  obtain ⟨txu, hu, h⟩ := h
  rcases txStep_acted hs.issued.idle op with
    ⟨heq, -⟩ | ⟨level, rfl, heq⟩ | ⟨t, tx, -, htx, tx', hact, -, htxs⟩
  · rw [heq] at hu
    exact .inl ⟨txu, hu, h⟩
  · rw [heq] at hu
    rcases txs_of_acted (s := s) rfl hu with ⟨-, rfl⟩ | ⟨-, hu⟩
    · rcases h with h | ⟨rs, h⟩ <;> cases h
    · exact .inl ⟨txu, hu, h⟩
  · rcases txs_of_acted htxs hu with ⟨rfl, rfl⟩ | ⟨-, hu⟩
    · rcases hact.committing h with h | ⟨h, ha⟩
      · exact .inl ⟨tx, htx, h⟩
      · cases h with
        | commit hpc _ => exact .inr ⟨rfl, tx, htx, ha, by rw [hpc]; simp, hc⟩
    · exact .inl ⟨txu, hu, h⟩

/-- Each guards the range the other writes, and they do not both commit. -/
structure Skewless (s : Watched) (t₁ t₂ : TxId) (r₁ r₂ : ResourceId) :
    Prop where
  tracked : Tracked s.manager
  first : Guards s t₁ r₁ t₂
  second : Guards s t₂ r₂ t₁
  one : (t₁, r₁) ∈ s.writes → (t₂, r₂) ∈ s.writes →
    ¬ (Committing s.manager t₁ ∧ Committing s.manager t₂)

/-- The one that starts to commit second is the broken reader of the range
that the first one has written. -/
theorem Guards.not_committing {s : Watched} {b : TxId} (hs : Tracked s.manager)
    (hg : Guards s a r b) (hc : CommitUnwounded s.manager op)
    (hw : (a, r) ∈ s.writes) (h : Committing (txStep s.manager op) b) : Committing s.manager b := by
  rcases h.of_step hs hc with h | ⟨-, tx, htx, hi⟩
  · exact h
  · obtain ⟨tx', htx', hn⟩ := hg.wrote hw
    rw [htx] at htx'
    cases htx'
    exact absurd hi hn

/-- Nobody commits who is in a call. -/
theorem not_committing_of_call (hs : Tracked s) {tx : Transaction}
    {c : LockCall} (htx : s.txs a = some tx) (hcall : tx.pc.call = some c) : ¬ Committing s a := by
  rintro ⟨tx', htx', h⟩
  rw [htx] at htx'
  cases htx'
  rcases h with h | ⟨rs, h⟩
  · rw [hs.issued.idle a tx htx (by rw [h]; simp)] at hcall
    cases hcall
  · rw [h] at hcall
    cases hcall

theorem Skewless.step {s : Watched} {op : TxOp} {t₁ t₂ : TxId}
    {r₁ r₂ : ResourceId} (hs : Skewless s t₁ t₂ r₁ r₂) (hne : t₁ ≠ t₂)
    (hc : CommitUnwounded s.manager op) : Skewless (s.step op) t₁ t₂ r₁ r₂ := by
  refine ⟨hs.tracked.step op, hs.first.step hs.tracked hne,
    hs.second.step hs.tracked hne.symm, fun hw₁ hw₂ hboth => ?_⟩
  -- a write that returns in this step is of a transaction in a call
  have hnew : ∀ {a r}, (a, r) ∈ completedWrite s.manager op →
      Committing (txStep s.manager op) a → False := by
    intro a r hmem hcom
    obtain ⟨tx, -, rfl, htx, -, hcall, -⟩ := mem_completedWrite hmem
    rcases hcom.of_step hs.tracked hc with h | ⟨h, -⟩
    · exact not_committing_of_call hs.tracked htx hcall h
    · cases h
  rcases mem_append.mp hw₁ with hw₁ | hw₁
  · rcases mem_append.mp hw₂ with hw₂ | hw₂
    · exact hs.one hw₁ hw₂ ⟨hs.second.not_committing hs.tracked hc hw₂ hboth.1,
        hs.first.not_committing hs.tracked hc hw₁ hboth.2⟩
    · exact hnew hw₂ hboth.2
  · exact hnew hw₁ hboth.1

theorem tracked_run (ops : List TxOp) : Tracked (run txStep .new ops) := by
  have hg : Guarded txStep (fun _ _ => True) .new ops :=
    .of_forall (fun _ _ => trivial) _ _
  exact run_inv (fun s op hs _ => hs.step op) tracked_new hg

/-- Before the writes begin. -/
theorem ReadsBoth.guards {b : TxId} {r₁ r₂ : ResourceId}
    (ha : ReadsBoth s a r₁ r₂) (hb : ReadsBoth s b r₁ r₂)
    (hr : r = r₁ ∨ r = r₂) : Guards ⟨s, []⟩ a r b := by
  obtain ⟨txb, hb, -, -, hr₁, hr₂, -⟩ := hb
  obtain ⟨txa, ha, -, -, -, -, hcall⟩ := ha
  refine ⟨⟨txb, hb⟩, fun tx htx _ => ?_, nofun, fun tx rx htx hl => ?_, fun tx htx hpc => ?_⟩
  · rw [hb] at htx
    cases htx
    rcases hr with rfl | rfl
    · exact hr₁
    · exact hr₂
  · rw [ha] at htx
    cases htx
    exact absurd (Pc.call_of_listens hl) (hcall r)
  · rw [ha] at htx
    cases htx
    rw [hpc] at hcall
    exact absurd rfl (hcall r)

/-- In every run in which no wounded transaction commits: of two transactions
that have taken the range locks on both ranges while both were active, and
after that have each written one of the ranges, not both commit. -/
theorem write_skew_prevented (pre rest : List TxOp)
    (hg : Guarded txStep CommitUnwounded .new (pre ++ rest))
    {t₁ t₂ : TxId} {r₁ r₂ : ResourceId} (hne : t₁ ≠ t₂)
    (h₁ : ReadsBoth (run txStep .new pre) t₁ r₁ r₂) (h₂ : ReadsBoth (run txStep .new pre) t₂ r₁ r₂)
    (hw₁ : (t₁, r₁) ∈ (run Watched.step
      ⟨run txStep .new pre, []⟩ rest).writes)
    (hw₂ : (t₂, r₂) ∈ (run Watched.step
      ⟨run txStep .new pre, []⟩ rest).writes) :
    ¬ (Committed (run txStep .new (pre ++ rest)) t₁ ∧
      Committed (run txStep .new (pre ++ rest)) t₂) := by
  have hmap : ∀ (s : Watched) op, (s.step op).manager = txStep s.manager op :=
    fun _ _ => rfl
  have hinit : Skewless ⟨run txStep .new pre, []⟩
      t₁ t₂ r₁ r₂ :=
    ⟨tracked_run pre, h₁.guards h₂ (.inl rfl), h₂.guards h₁ (.inr rfl), nofun⟩
  have hrest := (guarded_map hmap (s := ⟨_, []⟩)).mpr (guarded_append.mp hg).2
  have hstep : ∀ s op, Skewless s t₁ t₂ r₁ r₂ → CommitUnwounded s.manager op →
      Skewless (s.step op) t₁ t₂ r₁ r₂ := fun s op hs hc => hs.step hne hc
  have hend := run_inv hstep hinit hrest
  have hone := hend.one hw₁ hw₂
  rw [run_map hmap] at hone
  rw [run_append]
  rintro ⟨⟨tx₁, htx₁, hst₁⟩, ⟨tx₂, htx₂, hst₂⟩⟩
  exact hone ⟨⟨tx₁, htx₁, .inl hst₁⟩, ⟨tx₂, htx₂, .inl hst₂⟩⟩

/-! ## Two transactions on the ranges 5 and 6 -/

/-- Both read both ranges. -/
def sampleReads : List TxOp :=
  [.begin .serializable, .begin .serializable,
    .lock 1 (.acquireRangeLock 5), .step 1, .lock 1 (.acquireRangeLock 6),
    .step 1, .lock 2 (.acquireRangeLock 5), .step 2,
    .lock 2 (.acquireRangeLock 6), .step 2]

/-- Transaction 1 wounds the other over its range, and writes it at the second
try. -/
def sampleWrite : List TxOp :=
  [.lock 1 (.recordPhantomWrite 5), .step 1, .step 1, .step 1, .step 1,
    .step 1, .step 1, .lock 1 (.recordPhantomWrite 5), .step 1, .step 1,
    .step 1]

/-- Transaction 1 commits, and transaction 2 writes the other range, which is
now free. -/
def sampleCommit : List TxOp :=
  [.commit 1 true, .step 1, .step 1, .step 1, .step 1,
    .lock 2 (.recordPhantomWrite 6), .step 2, .step 2, .step 2]

theorem sampleReads_both (t : TxId) (ht : t = 1 ∨ t = 2) :
    ReadsBoth (run txStep .new sampleReads) t 5 6 := by
  rcases ht with rfl | rfl
  · exact ⟨_, rfl, rfl, by decide, by decide, by decide, nofun⟩
  · exact ⟨_, rfl, rfl, by decide, by decide, by decide, nofun⟩

/-- Both writes return; the wounded transaction 2 does not commit. -/
theorem write_skew_prevented_sample :
    ¬ (Committed (run txStep .new
        (sampleReads ++ (sampleWrite ++ sampleCommit))) 1 ∧
      Committed (run txStep .new
        (sampleReads ++ (sampleWrite ++ sampleCommit))) 2) :=
  write_skew_prevented sampleReads (sampleWrite ++ sampleCommit) (by decide)
    (by decide) (sampleReads_both 1 (.inl rfl)) (sampleReads_both 2 (.inr rfl))
    (by decide) (by decide)

/-- The wounded transaction 2 commits as well. -/
theorem write_skew_after_wound :
    ¬ ∀ (pre rest : List TxOp) (t₁ t₂ : TxId) (r₁ r₂ : ResourceId), t₁ ≠ t₂ →
      ReadsBoth (run txStep .new pre) t₁ r₁ r₂ → ReadsBoth (run txStep .new pre) t₂ r₁ r₂ →
      (t₁, r₁) ∈ (run Watched.step
        ⟨run txStep .new pre, []⟩ rest).writes →
      (t₂, r₂) ∈ (run Watched.step
        ⟨run txStep .new pre, []⟩ rest).writes →
      ¬ (Committed (run txStep .new (pre ++ rest)) t₁ ∧
        Committed (run txStep .new (pre ++ rest)) t₂) := by
  intro h
  refine h sampleReads
    (sampleWrite ++ sampleCommit ++ [.commit 2 true, .step 2, .step 2, .step 2,
      .step 2])
    1 2 5 6 (by decide) (sampleReads_both 1 (.inl rfl))
    (sampleReads_both 2 (.inr rfl)) (by decide) (by decide) ⟨?_, ?_⟩
  · exact ⟨_, rfl, by decide⟩
  · exact ⟨_, rfl, by decide⟩

end RGraph.Txn
