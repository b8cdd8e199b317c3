import RGraph.Proofs.TxnManager

/-!
# A transaction that nobody has wounded holds what it has been granted

A transaction believes what its calls returned: its `held_locks` and
`read_ranges` are the resources it was told it has. `Tracked` says when the
lock table agrees. A record goes away only by a release, a release is made by
the transaction that ends or by the thread that wounds it, and a thread wounds
only whom it has put in the abort registry before. So the lists are right for
as long as the transaction is active and not in the registry.

Two of the three lock calls learn of a grant over a channel. That the message
on the channel is about the call's own request needs the numbering of the
channels: each queued request has its own, which nothing has been sent to yet.
-/

namespace RGraph.Txn

open RGraph.Lib List

/-! ## The lock table -/

namespace LockTable

/-- `x` has a record on `r`. -/
def Holds (t : LockTable) (x : TxId) (r : ResourceId) : Prop :=
  ∃ h ∈ (t.entry r).holders, h.txid = x

section Ask

variable {t : LockTable} {r : ResourceId} {x : TxId} {m : LockMode}

/-- A request takes nothing away. -/
theorem mem_tryAcquire (t : LockTable) (r r' : ResourceId) (x : TxId) (m : LockMode) :
    (∀ h ∈ (t.entry r').holders, h ∈ ((t.tryAcquire r x m).1.entry r').holders) ∧
    ∀ w ∈ (t.entry r').waiters, w ∈ ((t.tryAcquire r x m).1.entry r').waiters := by
  rcases entry_tryAcquire t r r' x m with h | ⟨rfl, -, h⟩ | ⟨rfl, -, h⟩ <;> rw [h]
  · exact ⟨fun h hh => hh, fun w hw => hw⟩
  · rw [LockEntry.waiters_addHolder]
    exact ⟨fun h hh => LockEntry.mem_addHolder.mpr (.inl hh), fun w hw => hw⟩
  · exact ⟨fun h hh => hh, fun w hw => mem_append_left _ hw⟩

theorem Holds.tryAcquire {y : TxId} {r' : ResourceId} (h : t.Holds y r')
    (r : ResourceId) (x : TxId) (m : LockMode) : (t.tryAcquire r x m).1.Holds y r' := by
  obtain ⟨h, hh, heq⟩ := h
  exact ⟨h, (mem_tryAcquire t r r' x m).1 h hh, heq⟩

theorem channels_le_tryAcquire (t : LockTable) (r : ResourceId) (x : TxId)
    (m : LockMode) : t.channels ≤ (t.tryAcquire r x m).1.channels := by
  rcases tryAcquire_cases t r x m with
    ⟨-, h⟩ | ⟨-, h⟩ | ⟨-, -, h⟩ | ⟨-, -, -, h⟩ <;> rw [h]
  · exact Nat.le_refl _
  · exact Nat.le_refl _
  · exact Nat.le_refl _
  · exact Nat.le_succ _

theorem holds_of_granted (h : (t.tryAcquire r x m).2.1 = .granted) :
    (t.tryAcquire r x m).1.Holds x r := by
  rcases tryAcquire_cases t r x m with
    ⟨ha, heq⟩ | ⟨-, heq⟩ | ⟨-, -, heq⟩ | ⟨-, -, -, heq⟩ <;> rw [heq] at h ⊢
  · obtain ⟨h, hh, hx, -⟩ := LockEntry.alreadyHolds_iff.mp ha
    exact ⟨h, by rw [entry_put_self]; exact hh, hx⟩
  · rw [Holds, entry_put_self]
    obtain ⟨h, hh, hx, -⟩ := exists_addHolder (t.entry r) x m
    exact ⟨h, hh, hx⟩
  · cases h
  · cases h

/-- A request with a channel is in the queue, and its channel is new. -/
theorem queued_of_denied {rx : Chan} (h : (t.tryAcquire r x m).2.2 = some rx) :
    rx = t.channels ∧ rx < (t.tryAcquire r x m).1.channels ∧
      ⟨x, m, rx⟩ ∈ ((t.tryAcquire r x m).1.entry r).waiters := by
  rcases tryAcquire_cases t r x m with
    ⟨-, heq⟩ | ⟨-, heq⟩ | ⟨-, -, heq⟩ | ⟨-, -, -, heq⟩ <;> rw [heq] at h ⊢
  · cases h
  · cases h
  · cases h
  · cases h
    refine ⟨rfl, Nat.lt_succ_self _, ?_⟩
    rw [entry_setChannels, entry_put_self]
    simp

/-- An exclusive request is not granted beside another's record. -/
theorem exclusive_granted (hc : (t.entry r).Compat)
    (h : (t.tryAcquire r x .exclusive).2.1 = .granted) {y : TxId} (hy : t.Holds y r) : y = x := by
  have hno : ∀ m, LockMode.compatibleWith .exclusive m = false := by
    intro m; cases m <;> rfl
  obtain ⟨k, hk, rfl⟩ := hy
  by_contra hne
  rcases tryAcquire_cases t r x .exclusive with
    ⟨ha, -⟩ | ⟨ha, -⟩ | ⟨-, -, heq⟩ | ⟨-, -, -, heq⟩
  · obtain ⟨h', hh', rfl, hs⟩ := LockEntry.alreadyHolds_iff.mp ha
    have := hc h' hh' k hk (Ne.symm hne)
    rw [show h'.mode = .exclusive from by
      simpa [modeAtLeastAsStrong] using hs, hno] at this
    cases this
  · have := LockEntry.compatibleWithHolders_iff.mp ha k hk hne
    rw [hno] at this
    cases this
  · rw [heq] at h; cases h
  · rw [heq] at h; cases h

end Ask

/-- A release takes away the one record it is for. -/
theorem Holds.release {t : LockTable} (hu : t.Unique) {y : TxId}
    {r' : ResourceId} (h : t.Holds y r') {r : ResourceId} {x : TxId}
    (hne : r' ≠ r ∨ y ≠ x) : (t.release r x).1.Holds y r' := by
  obtain ⟨h, hh, rfl⟩ := h
  by_cases hr : r' = r
  · subst hr
    refine ⟨h, (release_wakes t r' x).holders h ?_, rfl⟩
    exact (LockEntry.mem_removeHolder (hu r')).mpr ⟨hh, hne.resolve_left (not_not_intro rfl)⟩
  · exact ⟨h, by rw [entry_release_ne t x hr]; exact hh, rfl⟩

end LockTable

/-! ## Queues and channels -/

/-- Each queued request has a channel of its own that nothing has been sent to;
records are compatible. -/
structure Queues (t : LockTable) (sent : List Chan) : Prop where
  unique : t.Unique
  compat : ∀ r, (t.entry r).Compat
  told : ∀ rx ∈ sent, rx < t.channels
  nodup : ∀ r, ((t.entry r).waiters.map Waiter.sender).Nodup
  fresh : ∀ r, ∀ w ∈ (t.entry r).waiters, w.sender < t.channels ∧ w.sender ∉ sent
  apart : ∀ r r', ∀ w ∈ (t.entry r).waiters, ∀ w' ∈ (t.entry r').waiters,
    w.sender = w'.sender → r = r'

theorem queues_new : Queues LockTable.new [] := by
  have hentry : ∀ r, LockTable.new.entry r = LockEntry.new := fun _ => rfl
  refine ⟨fun r => ?_, fun r => ?_, nofun, fun r => ?_, fun r => ?_, fun r r' => ?_⟩
  · exact nodup_nil
  · rw [hentry]; exact nofun
  · exact nodup_nil
  · rw [hentry]; exact nofun
  · rw [hentry]; exact nofun

section Queues

variable {t : LockTable} {sent : List Chan}

theorem Queues.tryAcquire (hq : Queues t sent) (r : ResourceId) (x : TxId)
    (m : LockMode) : Queues (t.tryAcquire r x m).1 sent := by
  have hle := LockTable.channels_le_tryAcquire t r x m
  -- a request that was not there is on the next channel
  have hnew : ∀ r' w, w ∈ ((t.tryAcquire r x m).1.entry r').waiters →
      w ∈ (t.entry r').waiters ∨ r' = r ∧ w.sender = t.channels ∧
        (t.tryAcquire r x m).1.channels = t.channels + 1 := by
    intro r' w hw
    rcases LockTable.entry_tryAcquire t r r' x m with
      h | ⟨rfl, -, h⟩ | ⟨rfl, hch, h⟩ <;> rw [h] at hw
    · exact .inl hw
    · rw [LockEntry.waiters_addHolder] at hw
      exact .inl hw
    · rcases mem_append.mp hw with hw | hw
      · exact .inl hw
      · exact .inr ⟨rfl, by rw [mem_singleton.mp hw], hch⟩
  refine ⟨LockTable.unique_tryAcquire hq.unique r x m, fun r' => ?_,
    fun rx hrx => Nat.lt_of_lt_of_le (hq.told rx hrx) hle, fun r' => ?_,
    fun r' w hw => ?_, fun r₁ r₂ w₁ hw₁ w₂ hw₂ heq => ?_⟩
  · rcases LockTable.entry_tryAcquire t r r' x m with
      h | ⟨rfl, hc, h⟩ | ⟨rfl, -, h⟩ <;> rw [h]
    · exact hq.compat r'
    · exact compat_addHolder (hq.compat r') hc
    · exact hq.compat r'
  · rcases LockTable.entry_tryAcquire t r r' x m with
      h | ⟨rfl, -, h⟩ | ⟨rfl, -, h⟩ <;> rw [h]
    · exact hq.nodup r'
    · rw [LockEntry.waiters_addHolder]
      exact hq.nodup r'
    · dsimp only
      rw [map_append, nodup_append]
      refine ⟨hq.nodup r', by simp, fun a ha b hb => ?_⟩
      obtain ⟨w, hw, rfl⟩ := mem_map.mp ha
      rw [map_singleton, mem_singleton] at hb
      rw [hb]
      exact Nat.ne_of_lt (hq.fresh r' w hw).1
  · rcases hnew r' w hw with hw | ⟨-, hw, hch⟩
    · exact ⟨Nat.lt_of_lt_of_le (hq.fresh r' w hw).1 hle, (hq.fresh r' w hw).2⟩
    · rw [hw, hch]
      exact ⟨Nat.lt_succ_self _, fun hmem => Nat.lt_irrefl _ (hq.told _ hmem)⟩
  · rcases hnew _ _ hw₁ with hw₁ | ⟨hr₁, hs₁, -⟩ <;>
      rcases hnew _ _ hw₂ with hw₂ | ⟨hr₂, hs₂, -⟩
    · exact hq.apart r₁ r₂ w₁ hw₁ w₂ hw₂ heq
    · exact absurd (heq.trans hs₂) (Nat.ne_of_lt (hq.fresh r₁ w₁ hw₁).1)
    · exact absurd (heq.symm.trans hs₁) (Nat.ne_of_lt (hq.fresh r₂ w₂ hw₂).1)
    · rw [hr₁, hr₂]

/-- A release sends on the channels of a front part of one queue. -/
theorem Queues.release (hq : Queues t sent) (r : ResourceId) (x : TxId) : Queues (t.release r x).1
      (sent ++ (t.release r x).2.map Waiter.sender) := by
  have hwoken := LockTable.release_wakes t r x
  have hw : ∀ r', ∀ w ∈ ((t.release r x).1.entry r').waiters,
      w ∈ (t.entry r').waiters := fun _ _ => LockTable.waiters_release
  have hin : ∀ w ∈ (t.release r x).2, w ∈ (t.entry r).waiters := fun _ => hwoken.of_woken
  have hnd := hq.nodup r
  rw [← hwoken.queue, map_append, nodup_append] at hnd
  refine ⟨LockTable.unique_release hq.unique r x, fun r' => ?_,
    fun rx hrx => ?_, fun r' => ?_, fun r' w hmem => ?_,
    fun r₁ r₂ w₁ hw₁ w₂ hw₂ => hq.apart r₁ r₂ w₁ (hw r₁ w₁ hw₁) w₂ (hw r₂ w₂ hw₂)⟩
  · by_cases hr : r' = r
    · subst hr
      refine hwoken.compat fun h hh h' hh' => ?_
      exact hq.compat r' h ((LockEntry.mem_removeHolder (hq.unique r')).mp hh).1
        h' ((LockEntry.mem_removeHolder (hq.unique r')).mp hh').1
    · rw [LockTable.entry_release_ne t x hr]; exact hq.compat r'
  · rw [(LockTable.release_frame t r x).2]
    rcases mem_append.mp hrx with hrx | hrx
    · exact hq.told rx hrx
    · obtain ⟨w, hmem, rfl⟩ := mem_map.mp hrx
      exact (hq.fresh r w (hin w hmem)).1
  · by_cases hr : r' = r
    · subst hr
      exact hnd.2.1
    · rw [LockTable.entry_release_ne t x hr]; exact hq.nodup r'
  · rw [(LockTable.release_frame t r x).2]
    refine ⟨(hq.fresh r' w (hw r' w hmem)).1, fun hx => ?_⟩
    rcases mem_append.mp hx with hx | hx
    · exact (hq.fresh r' w (hw r' w hmem)).2 hx
    · -- a request that is still queued shares no channel with a woken one
      obtain ⟨w', hmem', heq⟩ := mem_map.mp hx
      have hr := hq.apart r r' w' (hin w' hmem') w (hw r' w hmem) heq
      subst hr
      exact hnd.2.2 _ (mem_map_of_mem hmem') _ (mem_map_of_mem hmem) heq

end Queues

/-! ## The lists of a transaction -/

/-- Active, not on the way to its end, and not wounded. -/
structure Intact (registry : List TxId) (t : TxId) (tx : Transaction) :
    Prop where
  status : tx.status = .active
  pc : ∀ rs how, tx.pc ≠ .releasing rs how
  registry : t ∉ registry

/-- While it is intact, a transaction holds what its lists say and what it is
about to be told of. A request it listens for is queued or has been granted. -/
structure TxHeld (table : LockTable) (sent : List Chan) (registry : List TxId)
    (t : TxId) (tx : Transaction) : Prop where
  held : Intact registry t tx → ∀ r ∈ tx.heldLocks ++ tx.readRanges, table.Holds t r
  notified : Intact registry t tx → ∀ c, tx.pc = .notified c → table.Holds t c.resource
  queued : ∀ c rx, tx.pc.listens = some (c, rx) → rx < table.channels ∧
    (rx ∉ sent → ⟨t, c.mode, rx⟩ ∈ (table.entry c.resource).waiters)
  granted : Intact registry t tx → ∀ c rx, tx.pc.listens = some (c, rx) →
    rx ∈ sent → table.Holds t c.resource

structure Tracked (s : TransactionManager) : Prop where
  issued : Issued s
  queues : Queues s.lockTable s.sent
  txs : ∀ t tx, s.txs t = some tx → TxHeld s.lockTable s.sent s.abortRegistry t tx
  wounds : ∀ t tx c v txv, s.txs t = some tx → tx.pc = .wound c v →
    s.txs v = some txv → ¬ Intact s.abortRegistry v txv

theorem tracked_new : Tracked TransactionManager.new where
  issued := issued_new
  queues := queues_new
  txs := by simp [TransactionManager.new]
  wounds := by simp [TransactionManager.new]

/-- The lock table moves on: requests stay queued or are granted. -/
structure Passes (table : LockTable) (sent : List Chan) (table' : LockTable)
    (sent' : List Chan) : Prop where
  queues : Queues table' sent'
  channels : table.channels ≤ table'.channels
  sent : sent ⊆ sent'
  waiters : ∀ r, ∀ w ∈ (table.entry r).waiters, w ∈ (table'.entry r).waiters ∨
      w.sender ∈ sent' ∧ table'.Holds w.txid r

section Pass

variable {table table' : LockTable} {sent sent' : List Chan}

theorem Passes.refl (hq : Queues table sent) : Passes table sent table sent :=
  ⟨hq, Nat.le_refl _, List.Subset.refl _, fun _ _ hw => .inl hw⟩

theorem Passes.tryAcquire (hq : Queues table sent) (r : ResourceId) (x : TxId) (m : LockMode) :
    Passes table sent (table.tryAcquire r x m).1 sent :=
  ⟨hq.tryAcquire r x m, LockTable.channels_le_tryAcquire table r x m, List.Subset.refl _,
    fun r' w hw => .inl ((LockTable.mem_tryAcquire table r r' x m).2 w hw)⟩

theorem Passes.release (hq : Queues table sent) (r : ResourceId) (x : TxId) :
    Passes table sent (table.release r x).1 (sent ++ (table.release r x).2.map Waiter.sender) := by
  refine ⟨hq.release r x, Nat.le_of_eq (LockTable.release_frame table r x).2.symm,
    subset_append_left _ _, fun r' w hw => ?_⟩
  by_cases hr : r' = r
  · subst hr
    have hwoken := LockTable.release_wakes table r' x
    rw [← hwoken.queue] at hw
    rcases mem_append.mp hw with hw | hw
    · exact .inr ⟨mem_append_right _ (mem_map_of_mem hw), hwoken.granted w hw⟩
    · exact .inl hw
  · exact .inl (by rw [LockTable.entry_release_ne table x hr]; exact hw)

/-- What the table's moving on leaves true of a transaction. -/
theorem TxHeld.passes {registry registry' : List TxId} {t : TxId}
    {tx : Transaction} (hp : Passes table sent table' sent')
    (h : TxHeld table sent registry t tx)
    (hi : Intact registry' t tx → Intact registry t tx)
    (hh : Intact registry t tx → ∀ r, table.Holds t r → table'.Holds t r) :
    TxHeld table' sent' registry' t tx where
  held hx r hr := hh (hi hx) r (h.held (hi hx) r hr)
  notified hx c hc := hh (hi hx) _ (h.notified (hi hx) c hc)
  queued c rx hl := by
    obtain ⟨hlt, hw⟩ := h.queued c rx hl
    refine ⟨Nat.lt_of_lt_of_le hlt hp.channels, fun hn => ?_⟩
    rcases hp.waiters _ _ (hw fun hmem => hn (hp.sent hmem)) with hw | hw
    · exact hw
    · exact absurd hw.1 hn
  granted hx c rx hl hmem := by
    by_cases hs : rx ∈ sent
    · exact hh (hi hx) _ (h.granted (hi hx) c rx hl hs)
    · rcases hp.waiters _ _ ((h.queued c rx hl).2 hs) with hw | hw
      · exact absurd hmem (hp.queues.fresh _ _ hw).2
      · exact hw.2

end Pass

section Act

variable {s : TransactionManager} {op : TxOp} {t : TxId}
  {tx tx' : Transaction} {table : LockTable} {sent : List Chan}
  {registry active : List TxId}

/-- A transaction does not become intact. -/
theorem Act.intact (h : Act s op t tx table sent registry active tx')
    (hi : Intact registry t tx') : Intact s.abortRegistry t tx := by
  cases h with
  | quiet h => exact ⟨h.status ▸ hi.status, Pc.calm_releasing h.calm, hi.registry⟩
  | told c _ ha hc =>
    refine ⟨ha, Pc.calm_releasing ?_, hi.registry⟩
    rcases hc with hc | ⟨rx, hc, -⟩
    · rw [hc]; rfl
    · exact Pc.calm_of_listens hc
  | granted c _ ha hpc => exact ⟨ha, by rw [hpc]; simp, hi.registry⟩
  | denied c ha hpc => exact ⟨ha, by rw [hpc]; simp, hi.registry⟩
  | mark c v _ ha hpc =>
    exact ⟨ha, by rw [hpc]; simp, fun hm => hi.registry (mem_insert_of_mem hm)⟩
  | wound c v _ hpc => exact ⟨hi.status, by rw [hpc]; simp, hi.registry⟩
  | start how _ ha => exact absurd rfl (hi.pc _ _)
  | release r rs how _ _ _ => exact absurd rfl (hi.pc _ _)
  | finish how _ _ hst _ =>
    have := hi.status
    rw [hst] at this
    split at this <;> cases this

/-- Nobody else leaves the registry. -/
theorem Act.registry_mono (h : Act s op t tx table sent registry active tx')
    {x : TxId} (hx : x ≠ t) (hm : x ∈ s.abortRegistry) : x ∈ registry := by
  cases h with
  | mark c v => exact mem_insert_of_mem hm
  | finish how =>
    split
    · exact hm
    · exact (mem_erase_of_ne hx).mpr hm
  | _ => exact hm

/-- The lock table moves on, and no intact transaction loses a record. -/
theorem Act.passes (hs : Tracked s) (htx : s.txs t = some tx)
    (h : Act s op t tx table sent registry active tx') : Passes s.lockTable s.sent table sent ∧
      ∀ u txu, s.txs u = some txu → Intact s.abortRegistry u txu →
        ∀ r, s.lockTable.Holds u r → table.Holds u r := by
  have hacq : ∀ r m, Passes s.lockTable s.sent (s.lockTable.tryAcquire r t m).1 s.sent ∧
      ∀ u txu, s.txs u = some txu → Intact s.abortRegistry u txu → ∀ r',
        s.lockTable.Holds u r' → (s.lockTable.tryAcquire r t m).1.Holds u r' :=
    fun r m => ⟨.tryAcquire hs.queues r t m, fun _ _ _ _ _ h => h.tryAcquire r t m⟩
  have hsame : Passes s.lockTable s.sent s.lockTable s.sent ∧
      ∀ u txu, s.txs u = some txu → Intact s.abortRegistry u txu → ∀ r,
        s.lockTable.Holds u r → s.lockTable.Holds u r :=
    ⟨.refl hs.queues, fun _ _ _ _ _ h => h⟩
  cases h with
  | quiet => exact hsame
  | told => exact hsame
  | granted c => exact hacq _ _
  | denied c => exact hacq _ _
  | mark => exact hsame
  | wound c v _ hpc =>
    refine ⟨.release hs.queues _ _, fun u txu hu hi r hr => ?_⟩
    refine hr.release hs.queues.unique (.inr ?_)
    rintro rfl
    exact hs.wounds t tx c u txu htx hpc hu hi
  | start => exact hsame
  | release r rs how _ _ hpc =>
    refine ⟨.release hs.queues _ _, fun u txu hu hi r' hr => ?_⟩
    refine hr.release hs.queues.unique (.inr ?_)
    rintro rfl
    rw [htx] at hu
    cases hu
    exact hi.pc _ _ hpc
  | finish => exact hsame

/-- What a grant adds to the lists. -/
theorem mem_track {c : LockCall} {r : ResourceId}
    (hr : r ∈ (tx.track c).heldLocks ++ (tx.track c).readRanges) :
    r ∈ tx.heldLocks ++ tx.readRanges ∨ r = c.resource := by
  have hpush : ∀ rs x, r ∈ Transaction.pushNew rs x → r ∈ rs ∨ r = x := by
    intro rs x h
    unfold Transaction.pushNew at h
    split at h
    · exact .inl h
    · exact (mem_append.mp h).imp_right mem_singleton.mp
  rw [mem_append] at hr ⊢
  cases c with
  | acquireLock r' m =>
    rcases hr with hr | hr
    · exact (hpush _ _ hr).imp_left .inl
    · exact .inl (.inr hr)
  | acquireRangeLock r' =>
    rcases hr with hr | hr
    · exact .inl (.inl hr)
    · exact (hpush _ _ hr).imp_left .inr
  | recordPhantomWrite r' =>
    rcases hr with hr | hr
    · exact (hpush _ _ hr).imp_left .inl
    · exact .inl (.inr hr)

/-- A record that listens to nothing is right if its lists are. -/
theorem TxHeld.of_held (hl : tx'.pc.listens = none)
    (hn : ∀ c, tx'.pc ≠ .notified c)
    (h : Intact registry t tx' → ∀ r ∈ tx'.heldLocks ++ tx'.readRanges,
      table.Holds t r) : TxHeld table sent registry t tx' where
  held := h
  notified _ c hc := absurd hc (hn c)
  queued c rx h := by rw [hl] at h; cases h
  granted _ c rx h := by rw [hl] at h; cases h

/-- The record of the transaction that makes the access. -/
theorem Act.held (hs : Tracked s) (htx : s.txs t = some tx)
    (h : Act s op t tx table sent registry active tx') : TxHeld table sent registry t tx' := by
  have hok := hs.txs t tx htx
  have hi := h.intact
  obtain ⟨hp, hh⟩ := h.passes hs htx
  have hkeep : Intact registry t tx' → ∀ r ∈ tx.heldLocks ++ tx.readRanges, table.Holds t r :=
    fun hx r hr => hh t tx htx (hi hx) r (hok.held (hi hx) r hr)
  cases h with
  | quiet h =>
    refine ⟨fun hx r hr => ?_, fun hx c hc => ?_,
      fun c rx hl => hok.queued c rx (h.listens c rx hl),
      fun hx c rx hl => hok.granted (hi hx) c rx (h.listens c rx hl)⟩
    · rw [h.heldLocks, h.readRanges] at hr
      exact hkeep hx r hr
    · obtain ⟨rx, hl, hmem⟩ := h.notified c hc
      exact hok.granted (hi hx) c rx hl hmem
  | told c _ _ hc =>
    refine .of_held rfl (fun _ => Pc.noConfusion) fun hx r hr => ?_
    rcases mem_track hr with hr | rfl
    · exact hkeep hx r hr
    · rcases hc with hc | ⟨rx, hl, hmem⟩
      · exact hok.notified (hi hx) c hc
      · exact hok.granted (hi hx) c rx hl hmem
  | granted c _ _ _ hg =>
    refine .of_held rfl (fun _ => Pc.noConfusion) fun hx r hr => ?_
    rcases mem_track hr with hr | rfl
    · exact hkeep hx r hr
    · exact LockTable.holds_of_granted hg
  | denied c _ _ hd =>
    have hl : ∀ c' rx, (TransactionManager.callDenied
        (s.lockTable.tryAcquire c.resource t c.mode).2.2 c).listens = some (c', rx) → c' = c ∧
        (s.lockTable.tryAcquire c.resource t c.mode).2.2 = some rx := by
      intro c' rx h
      generalize (s.lockTable.tryAcquire c.resource t c.mode).2.2 = o at h
      cases o with
      | none => cases c <;> cases h
      | some rx' => cases c <;> cases h <;> exact ⟨rfl, rfl⟩
    refine ⟨hkeep, fun _ c' hc => ?_, fun c' rx h => ?_, fun _ c' rx h hmem => ?_⟩
    · cases c <;> cases hc
    · obtain ⟨rfl, hrx⟩ := hl c' rx h
      obtain ⟨-, hlt, hw⟩ := LockTable.queued_of_denied hrx
      exact ⟨hlt, fun _ => hw⟩
    · obtain ⟨rfl, hrx⟩ := hl c' rx h
      obtain ⟨rfl, -⟩ := LockTable.queued_of_denied hrx
      exact absurd (hs.queues.told _ hmem) (Nat.lt_irrefl _)
  | mark c v => exact .of_held rfl (fun _ => Pc.noConfusion) hkeep
  | wound c v => exact .of_held rfl (fun _ => Pc.noConfusion) hkeep
  | start how _ _ => exact .of_held rfl (fun _ => Pc.noConfusion) fun hx => absurd rfl (hx.pc _ _)
  | release r rs how =>
    exact .of_held rfl (fun _ => Pc.noConfusion) fun hx => absurd rfl (hx.pc _ _)
  | finish how _ _ hst hidle =>
    refine .of_held (by rw [hidle]; rfl) (by rw [hidle]; simp) fun hx => ?_
    have := hx.status
    rw [hst] at this
    split at this <;> cases this

/-- The victim of a pending wound is in the registry, or gone. -/
theorem Act.wounds (h : Act s op t tx table sent registry active tx')
    {c : LockCall} {v : TxId} (hpc : tx'.pc = .wound c v) : v ∈ registry := by
  cases h with
  | quiet h => exact absurd hpc (h.wound c v)
  | told => cases hpc
  | granted => cases hpc
  | denied c' => cases c' <;> cases hpc
  | mark c' v' => cases hpc; exact mem_insert_self
  | wound => cases hpc
  | start => cases hpc
  | release => cases hpc
  | finish _ _ _ _ hidle => rw [hidle] at hpc; cases hpc

end Act

theorem Tracked.begin {s : TransactionManager} (hs : Tracked s)
    (level : IsolationLevel) : Tracked (s.beginWithIsolation level) := by
  refine ⟨hs.issued.begin level, hs.queues, fun u txu hu => ?_,
    fun u txu c v txv hu hpc hv => ?_⟩
  · rcases of_update hu with ⟨-, rfl⟩ | ⟨-, hu⟩
    · exact .of_held rfl (fun _ => Pc.noConfusion) fun _ r hr => by cases hr
    · exact hs.txs u txu hu
  · rcases of_update hu with ⟨-, rfl⟩ | ⟨-, hu⟩
    · cases hpc
    · have hlt := hs.issued.victims u txu c v hu (.inr hpc)
      rcases of_update hv with ⟨rfl, -⟩ | ⟨-, hv⟩
      · exact absurd hlt (Nat.lt_irrefl _)
      · exact hs.wounds u txu c v txv hu hpc hv

theorem Tracked.step {s : TransactionManager} (hs : Tracked s) (op : TxOp) :
    Tracked (txStep s op) := by
  rcases txStep_acted hs.issued.idle op with
    ⟨h, -⟩ | ⟨level, -, h⟩ | ⟨t, tx, -, htx, tx', hact, -, htxs⟩
  · rw [h]; exact hs
  · rw [h]; exact hs.begin level
  · obtain ⟨hp, hh⟩ := hact.passes hs htx
    -- nobody becomes intact
    have hi : ∀ u txu, (txStep s op).txs u = some txu →
        Intact (txStep s op).abortRegistry u txu →
        ∃ txu', s.txs u = some txu' ∧ Intact s.abortRegistry u txu' := by
      intro u txu hu hx
      rcases of_update (htxs ▸ hu) with ⟨rfl, rfl⟩ | ⟨heq, hu⟩
      · exact ⟨tx, htx, hact.intact hx⟩
      · exact ⟨txu, hu, hx.status, hx.pc, fun hm => hx.registry (hact.registry_mono heq hm)⟩
    refine ⟨hs.issued.step op, hp.queues, fun u txu hu => ?_,
      fun u txu c v txv hu hpc hv hx => ?_⟩
    · rcases of_update (htxs ▸ hu) with ⟨rfl, rfl⟩ | ⟨heq, hu⟩
      · exact hact.held hs htx
      · exact (hs.txs u txu hu).passes hp (fun hx => ⟨hx.status, hx.pc,
            fun hm => hx.registry (hact.registry_mono heq hm)⟩) (hh u txu hu)
    · rcases of_update (htxs ▸ hu) with ⟨rfl, rfl⟩ | ⟨heq, hu⟩
      · exact hx.registry (hact.wounds hpc)
      · obtain ⟨txv', hv', hx'⟩ := hi v txv hv hx
        exact hs.wounds u txu c v txv' hu hpc hv' hx'

end RGraph.Txn
