import RGraph.Lib.Run
import RGraph.Proofs.LockTable

/-!
# Modes granted to different transactions are compatible

A caller is told `granted` on three paths: it already holds the resource, the
request is granted on the spot, or it is woken out of the wait queue. The run
below keeps, beside the table, what its callers were told. What they were
told is compatible as long as each record covers what its owner was told, and
a step keeps that unless it grants an upgrade: `addHolder` keeps a record
that is there, so the stronger mode is granted without being written down.
-/

namespace RGraph.Txn

open RGraph.Lib List

/-- A table together with what its callers were told: the modes granted on a
resource to a transaction that has not released it since. -/
structure LockRun where
  table : LockTable
  granted : List (ResourceId × TxId × LockMode)

def LockRun.init : LockRun := ⟨LockTable.new, []⟩

inductive LockOp where
  | tryAcquire (r : ResourceId) (t : TxId) (m : LockMode)
  | release (r : ResourceId) (t : TxId)
  deriving DecidableEq, Repr

/-- One call. A release first takes back what `t` was told about `r`, then
tells the waiters it woke. -/
def lockStep (s : LockRun) : LockOp → LockRun
  | .tryAcquire r t m =>
    let (table, res, _) := s.table.tryAcquire r t m
    ⟨table, if res = .granted then (r, t, m) :: s.granted else s.granted⟩
  | .release r t =>
    let (table, sent) := s.table.release r t
    ⟨table, sent.map (fun w => (r, w.txid, w.mode)) ++
      s.granted.filter fun g => !(g.1 == r && g.2.1 == t)⟩

/-- The call asks for no upgrade: the mode asked for is covered by the
requester's record on the resource, if it has one, and covers the request it
has in the queue, if it has one. -/
def NoUpgrade (s : LockRun) : LockOp → Prop
  | .tryAcquire r t m =>
    (∀ h ∈ (s.table.entry r).holders, h.txid = t → modeAtLeastAsStrong h.mode m = true) ∧
    ∀ w ∈ (s.table.entry r).waiters, w.txid = t → modeAtLeastAsStrong m w.mode = true
  | .release _ _ => True

instance NoUpgrade.decidable : ∀ s o, Decidable (NoUpgrade s o)
  | _, .tryAcquire _ _ _ => inferInstanceAs (Decidable (_ ∧ _))
  | _, .release _ _ => isTrue trivial

/-- Every entry is well formed, and what a caller was told is covered by its
record. -/
structure LockRunOk (s : LockRun) : Prop where
  entries : ∀ r, EntryOk (s.table.entry r)
  told : ∀ g ∈ s.granted, ∃ h ∈ (s.table.entry g.1).holders,
    h.txid = g.2.1 ∧ modeAtLeastAsStrong h.mode g.2.2 = true

theorem lockRunOk_init : LockRunOk LockRun.init := ⟨fun _ => entryOk_new, by simp [LockRun.init]⟩

/-- The entry of `r` changes to a well-formed one that has a record for all
that is told about `r`. -/
theorem LockRunOk.update {s : LockRun} (hs : LockRunOk s) {r : ResourceId}
    {told : List (ResourceId × TxId × LockMode)} {t : LockTable}
    (hne : ∀ r' ≠ r, t.entry r' = s.table.entry r') (he : EntryOk (t.entry r))
    (hother : ∀ g ∈ told, g.1 ≠ r → g ∈ s.granted)
    (hself : ∀ g ∈ told, g.1 = r → ∃ h ∈ (t.entry r).holders,
      h.txid = g.2.1 ∧ modeAtLeastAsStrong h.mode g.2.2 = true) :
    LockRunOk ⟨t, told⟩ := by
  refine ⟨fun r' => ?_, fun g hg => ?_⟩
  · by_cases hr : r' = r
    · subst hr
      exact he
    · show EntryOk (t.entry r')
      rw [hne r' hr]
      exact hs.entries r'
  · by_cases hr : g.1 = r
    · rw [hr]
      exact hself g hg hr
    · show ∃ h ∈ (t.entry g.1).holders, _
      rw [hne g.1 hr]
      exact hs.told g (hother g hg hr)

theorem LockRunOk.tryAcquire {s : LockRun} (hs : LockRunOk s) {r : ResourceId}
    {t : TxId} {m : LockMode} (ho : NoUpgrade s (.tryAcquire r t m)) :
    LockRunOk (lockStep s (.tryAcquire r t m)) := by
  obtain ⟨hup, hwait⟩ := ho
  have he := hs.entries r
  have hne : ∀ o, ∀ r' ≠ r, (s.table.put r o).entry r' = s.table.entry r' :=
    fun o _ h => entry_put_ne _ o h
  have hold : ∀ g ∈ s.granted, g.1 = r → ∃ h ∈ (s.table.entry r).holders, h.txid = g.2.1 ∧
        modeAtLeastAsStrong h.mode g.2.2 = true :=
    fun g hg hr => hr ▸ hs.told g hg
  have hother : ∀ g ∈ (r, t, m) :: s.granted, g.1 ≠ r → g ∈ s.granted := by
    intro g hg hr
    rcases mem_cons.mp hg with rfl | hg
    · exact absurd rfl hr
    · exact hg
  rcases tryAcquire_cases s.table r t m with
    ⟨hah, heq⟩ | ⟨hc, heq⟩ | ⟨-, -, heq⟩ | ⟨-, hnh, hnw, heq⟩ <;>
    simp only [lockStep, heq, if_true, reduceCtorEq, if_false]
  · -- granted on the record there is
    refine hs.update (hne _) (by rwa [entry_put_self]) hother fun g hg hr => ?_
    rw [entry_put_self]
    rcases mem_cons.mp hg with rfl | hg
    · exact LockEntry.alreadyHolds_iff.mp hah
    · exact hold g hg hr
  · -- granted and recorded
    refine hs.update (hne _) ?_ hother fun g hg hr => ?_ <;>
      rw [entry_put_self, Option.getD_some]
    · exact he.addHolder hc hwait
    · rcases mem_cons.mp hg with rfl | hg
      · obtain ⟨h, hh, ht, hm⟩ := exists_addHolder (s.table.entry r) t m
        refine ⟨h, hh, ht, ?_⟩
        rcases hm with hm | hm
        · exact hup h hm ht
        · rw [hm]
          exact strong_refl m
      · obtain ⟨h, hh, ht⟩ := hold g hg hr
        exact ⟨h, LockEntry.mem_addHolder.mpr (.inl hh), ht⟩
  · -- denied, queued already
    refine hs.update (hne _) ?_ (fun g hg _ => hg) ?_ <;> rw [entry_put_self]
    · exact he
    · exact hold
  · -- denied and queued
    refine hs.update (r := r) (fun r' h => (LockTable.entry_setChannels ..).trans
      (hne _ r' h)) ?_ (fun g hg _ => hg) ?_ <;>
      rw [LockTable.entry_setChannels, entry_put_self]
    · refine ⟨he.unique, he.compat, ?_, ?_⟩
      · intro w hw h hh ht
        rcases mem_append.mp hw with hw | hw
        · exact he.covered w hw h hh ht
        · rw [mem_singleton.mp hw] at ht ⊢
          exact hup h hh ht
      · dsimp only [Option.getD_some]
        rw [map_append, nodup_append]
        refine ⟨he.once, by simp, ?_⟩
        rintro a ha b hb rfl
        obtain ⟨w, hw, hwa⟩ := mem_map.mp ha
        exact hnw w hw (hwa.trans (by simpa using hb))
    · exact hold

theorem LockRunOk.release {s : LockRun} (hs : LockRunOk s) (r : ResourceId)
    (t : TxId) : LockRunOk (lockStep s (.release r t)) := by
  have he := hs.entries r
  have hwakes := LockTable.release_wakes s.table r t
  have hrem := he.removeHolder t
  rw [← LockEntry.waiters_removeHolder _ t] at hwakes
  obtain ⟨hok, hwoken⟩ := hrem.woken hwakes
  refine hs.update (LockTable.release_frame s.table r t).1 hok ?_ ?_
  · intro g hg hr
    rcases mem_append.mp hg with hg | hg
    · obtain ⟨w, -, rfl⟩ := mem_map.mp hg
      exact absurd rfl hr
    · exact mem_of_mem_filter hg
  · intro g hg hr
    rcases mem_append.mp hg with hg | hg
    · obtain ⟨w, hw, rfl⟩ := mem_map.mp hg
      exact hwoken w hw
    · -- told before, and not by the transaction that lets go
      obtain ⟨hg, hnot⟩ := mem_filter.mp hg
      obtain ⟨h, hh, ht, hm⟩ := hs.told g hg
      rw [hr] at hh
      have hne : h.txid ≠ t := by
        intro heq
        simp [hr, ← ht, heq] at hnot
      exact ⟨h, hwakes.holders h ((LockEntry.mem_removeHolder he.unique).mpr ⟨hh, hne⟩), ht, hm⟩

theorem lockStep_ok (s : LockRun) (o : LockOp) (hs : LockRunOk s)
    (ho : NoUpgrade s o) : LockRunOk (lockStep s o) := by
  cases o with
  | tryAcquire r t m => exact hs.tryAcquire ho
  | release r t => exact hs.release r t

/-- In a run that asks for no upgrade, at every state it passes through, the
modes granted on one resource to two transactions that have not released it
are compatible. -/
theorem granted_modes_compatible (ops : List LockOp)
    (h : Guarded lockStep NoUpgrade LockRun.init ops) (n : Nat)
    (r : ResourceId) (t₁ t₂ : TxId) (m₁ m₂ : LockMode) (hne : t₁ ≠ t₂)
    (h₁ : (r, t₁, m₁) ∈ (run lockStep LockRun.init (ops.take n)).granted)
    (h₂ : (r, t₂, m₂) ∈ (run lockStep LockRun.init (ops.take n)).granted) :
    m₁.compatibleWith m₂ = true := by
  have hs := run_inv_take lockStep_ok lockRunOk_init h n
  obtain ⟨g₁, hg₁, ht₁, hm₁⟩ := hs.told _ h₁
  obtain ⟨g₂, hg₂, ht₂, hm₂⟩ := hs.told _ h₂
  refine compatibleWith_of_strong hm₁ hm₂ ?_
  exact (hs.entries r).compat g₁ hg₁ g₂ hg₂ (by rw [ht₁, ht₂]; exact hne)

/-- Two readers, one of them twice, and a third that comes when the first has
released. -/
theorem granted_modes_compatible_readers :
    let ops : List LockOp := [.tryAcquire 7 1 .shared, .tryAcquire 7 2 .shared,
      .tryAcquire 7 1 .intentionShared, .release 7 1, .tryAcquire 7 3 .intentionShared]
    Guarded lockStep NoUpgrade LockRun.init ops ∧
      ∀ n t₁ t₂ m₁ m₂, t₁ ≠ t₂ →
        (7, t₁, m₁) ∈ (run lockStep LockRun.init (ops.take n)).granted →
        (7, t₂, m₂) ∈ (run lockStep LockRun.init (ops.take n)).granted →
        m₁.compatibleWith m₂ = true := by
  intro ops
  have hg : Guarded lockStep NoUpgrade LockRun.init ops := by decide
  exact ⟨hg, fun n t₁ t₂ m₁ m₂ => granted_modes_compatible ops hg n 7 t₁ t₂ m₁ m₂⟩

/-- A reader that asks for the exclusive mode is told it has it, its record
stays shared, and the next reader is let in. -/
theorem upgrade_breaks_compatibility :
    ¬ ∀ (ops : List LockOp) (n : Nat) (r : ResourceId) (t₁ t₂ : TxId) (m₁ m₂ : LockMode), t₁ ≠ t₂ →
        (r, t₁, m₁) ∈ (run lockStep LockRun.init (ops.take n)).granted →
        (r, t₂, m₂) ∈ (run lockStep LockRun.init (ops.take n)).granted →
        m₁.compatibleWith m₂ = true := by
  intro h
  exact absurd (h [.tryAcquire 7 1 .shared, .tryAcquire 7 1 .exclusive,
    .tryAcquire 7 2 .shared] 3 7 1 2 .exclusive .shared
    (by decide) (by decide) (by decide)) (by decide)

end RGraph.Txn
