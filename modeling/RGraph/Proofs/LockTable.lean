import Mathlib.Data.List.Nodup
import Mathlib.Data.List.Perm.Basic
import RGraph.Txn.LockTable

/-!
# What one call does to a lock entry

The table keeps one record per transaction and resource, and decides
conflicts against the recorded mode only. `EntryOk` is the invariant of one
entry: one record each, the records compatible, and nobody queued for more
than its own record. The last field is where the queue comes in: a
transaction may hold a resource and wait for it at the same time, and waking
it later must not be an upgrade, because `addHolder` leaves a record that is
there as it is.

`tryAcquire_cases` and `release_wakes` say once what the two operations can
do; the files about runs of the table and of the transaction manager work
from these.
-/

namespace RGraph.Txn

open List

/-! ## One entry -/

theorem swapRemove_perm {α : Type} {xs : List α} {i : Nat} (hi : i < xs.length) :
    (LockEntry.swapRemove xs i).Perm (xs.eraseIdx i) := by
  unfold LockEntry.swapRemove
  split
  · next h => rw [List.getLast?_eq_none_iff.mp h] at hi; simp at hi
  · next l h =>
      obtain ⟨ys, rfl⟩ := List.getLast?_eq_some_iff.mp h
      rcases Nat.lt_or_ge i ys.length with hlt | hge
      · rw [set_append, if_pos hlt, dropLast_concat, eraseIdx_append_of_lt_length hlt]
        exact (set_perm_cons_eraseIdx hlt l).trans (perm_append_singleton l _).symm
      · have hi' : i = ys.length := by simp at hi; omega
        subst hi'
        simp [eraseIdx_append_of_length_le]

namespace LockEntry

/-- The transactions of an entry's records; no transaction has two. -/
def Unique (e : LockEntry) : Prop := (e.holders.map Holder.txid).Nodup

theorem waiters_addHolder (e : LockEntry) (t : TxId) (m : LockMode) :
    (e.addHolder t m).waiters = e.waiters := by
  unfold addHolder; split <;> rfl

theorem waiters_removeHolder (e : LockEntry) (t : TxId) :
    (e.removeHolder t).waiters = e.waiters := by
  unfold removeHolder; split <;> rfl

variable {e : LockEntry} {m : LockMode} {t : TxId}

theorem mem_addHolder {h : Holder} : h ∈ (e.addHolder t m).holders ↔
      h ∈ e.holders ∨ ((∀ h' ∈ e.holders, h'.txid ≠ t) ∧ h = ⟨t, m⟩) := by
  unfold addHolder
  split
  · next hany =>
      obtain ⟨h', hmem, ht⟩ := any_eq_true.mp hany
      constructor
      · exact .inl
      · rintro (hh | ⟨hno, -⟩)
        · exact hh
        · exact absurd (beq_iff_eq.mp ht) (hno h' hmem)
  · next hany =>
      have hno : ∀ h' ∈ e.holders, h'.txid ≠ t := by
        intro h' hmem heq
        exact hany (any_eq_true.mpr ⟨h', hmem, beq_iff_eq.mpr heq⟩)
      rw [mem_append, mem_singleton]
      exact or_congr_right (and_iff_right hno).symm

theorem unique_addHolder (hu : e.Unique) : (e.addHolder t m).Unique := by
  unfold addHolder Unique
  split
  · exact hu
  · next hany =>
      have hno : t ∉ e.holders.map Holder.txid := by
        intro hmem
        obtain ⟨h, hh, ht⟩ := mem_map.mp hmem
        exact hany (any_eq_true.mpr ⟨h, hh, beq_iff_eq.mpr ht⟩)
      rw [map_append, nodup_append]
      refine ⟨hu, by simp, ?_⟩
      rintro a ha b hb rfl
      rw [map_cons, map_nil, mem_singleton] at hb
      exact hno (by rw [hb] at ha; exact ha)

/-- Dropping the record of `t` keeps the records of the others and no record
of `t`. -/
theorem mem_removeHolder (hu : e.Unique) {h : Holder} :
    h ∈ (e.removeHolder t).holders ↔ h ∈ e.holders ∧ h.txid ≠ t := by
  unfold removeHolder
  split
  · next hnone =>
      have hno : ∀ h' ∈ e.holders, h'.txid ≠ t := by
        intro h' hmem heq
        have := List.findIdx?_eq_none_iff.mp hnone h' hmem
        simp [heq] at this
      exact ⟨fun hh => ⟨hh, hno h hh⟩, And.left⟩
  · next pos hpos =>
      obtain ⟨hlt, hat, -⟩ := List.findIdx?_eq_some_iff_getElem.mp hpos
      have hat : (e.holders[pos]).txid = t := beq_iff_eq.mp hat
      -- the record at `pos` is the only one of `t`, so dropping the position
      -- is dropping the transaction
      have hinj : ∀ {i : Nat} (hi : i < e.holders.length),
          (e.holders[i]).txid = t → i = pos := by
        intro i hi hit
        have hi' : i < (e.holders.map Holder.txid).length := by simpa using hi
        have hp' : pos < (e.holders.map Holder.txid).length := by
          simpa using hlt
        have heq : (e.holders.map Holder.txid)[i] =
            (e.holders.map Holder.txid)[pos] := by simp [hit, hat]
        exact List.Nodup.getElem_inj_iff hu |>.mp heq
      dsimp only
      rw [(swapRemove_perm hlt).mem_iff, mem_eraseIdx_iff_getElem]
      constructor
      · rintro ⟨i, hi, hne, rfl⟩
        exact ⟨getElem_mem hi, fun heq => hne (hinj hi heq)⟩
      · rintro ⟨hmem, hne⟩
        obtain ⟨i, hi, rfl⟩ := mem_iff_getElem.mp hmem
        exact ⟨i, hi, fun heq => hne (by subst heq; exact hat), rfl⟩

theorem unique_removeHolder (hu : e.Unique) : (e.removeHolder t).Unique := by
  unfold removeHolder Unique
  split
  · exact hu
  · next pos hpos =>
      obtain ⟨hlt, -, -⟩ := List.findIdx?_eq_some_iff_getElem.mp hpos
      have hp := (swapRemove_perm hlt).map Holder.txid
      exact hp.nodup_iff.mpr (hu.sublist ((eraseIdx_sublist _ pos).map Holder.txid))

theorem alreadyHolds_iff : e.alreadyHolds t m = true ↔
      ∃ h ∈ e.holders, h.txid = t ∧ modeAtLeastAsStrong h.mode m = true := by
  simp [alreadyHolds]

theorem compatibleWithHolders_iff : e.compatibleWithHolders t m = true ↔
      ∀ h ∈ e.holders, h.txid ≠ t → m.compatibleWith h.mode = true := by
  simp only [compatibleWithHolders, all_eq_true, Bool.or_eq_true, beq_iff_eq, ne_eq]
  exact forall₂_congr fun h _ => or_iff_not_imp_left

end LockEntry

/-! ## Modes -/

theorem compatibleWith_comm (a b : LockMode) : a.compatibleWith b = b.compatibleWith a := by
  cases a <;> cases b <;> rfl

theorem strong_refl (m : LockMode) : modeAtLeastAsStrong m m = true := by
  cases m <;> rfl

/-- What two records allow, any two weaker modes allow. -/
theorem compatibleWith_of_strong {a b a' b' : LockMode} (ha : modeAtLeastAsStrong a a' = true)
    (hb : modeAtLeastAsStrong b b' = true)
    (h : a.compatibleWith b = true) : a'.compatibleWith b' = true := by
  revert ha hb h
  cases a <;> cases b <;> cases a' <;> cases b' <;> decide

/-- Records of different transactions have compatible modes. -/
def LockEntry.Compat (e : LockEntry) : Prop :=
  ∀ h ∈ e.holders, ∀ h' ∈ e.holders, h.txid ≠ h'.txid → h.mode.compatibleWith h'.mode = true

variable {e : LockEntry}

theorem compat_addHolder {x : TxId} {m : LockMode} (he : e.Compat)
    (hc : e.compatibleWithHolders x m = true) : (e.addHolder x m).Compat := by
  have hc := LockEntry.compatibleWithHolders_iff.mp hc
  intro h hh h' hh' hne
  rcases LockEntry.mem_addHolder.mp hh with hh | ⟨-, rfl⟩ <;>
    rcases LockEntry.mem_addHolder.mp hh' with hh' | ⟨-, rfl⟩
  · exact he h hh h' hh' hne
  · rw [compatibleWith_comm]; exact hc h hh hne
  · exact hc h' hh' (Ne.symm hne)
  · exact absurd rfl hne

/-- Whoever is added has a record then, the new one or an older one. -/
theorem exists_addHolder (e : LockEntry) (x : TxId) (m : LockMode) :
    ∃ h ∈ (e.addHolder x m).holders, h.txid = x ∧ (h ∈ e.holders ∨ h.mode = m) := by
  by_cases hex : ∃ h ∈ e.holders, h.txid = x
  · obtain ⟨h, hh, hx⟩ := hex
    exact ⟨h, LockEntry.mem_addHolder.mpr (.inl hh), hx, .inl hh⟩
  · exact ⟨⟨x, m⟩, LockEntry.mem_addHolder.mpr
      (.inr ⟨fun h hh hx => hex ⟨h, hh, hx⟩, rfl⟩), rfl, .inr rfl⟩

/-! ## The wake loop -/

/-- What the wake loop does: it takes a front part of the queue, all of whom
become holders, and none of whom conflicts with the others that were holders
before. -/
structure Woken (e : LockEntry) (ws : List Waiter) (e' : LockEntry)
    (woken : List Waiter) : Prop where
  queue : woken ++ e'.waiters = ws
  holders : ∀ h ∈ e.holders, h ∈ e'.holders
  added : ∀ h ∈ e'.holders, h ∈ e.holders ∨ ∃ w ∈ woken, h = ⟨w.txid, w.mode⟩
  granted : ∀ w ∈ woken, ∃ h ∈ e'.holders, h.txid = w.txid
  allowed : ∀ w ∈ woken, ∀ h ∈ e.holders, h.txid ≠ w.txid → w.mode.compatibleWith h.mode = true
  unique : e.Unique → e'.Unique
  compat : e.Compat → e'.Compat

theorem woken_nil (e : LockEntry) (ws : List Waiter) : Woken e ws { e with waiters := ws } [] :=
  ⟨rfl, fun _ hh => hh, fun _ hh => .inl hh, nofun, nofun, fun h => h, fun h => h⟩

theorem woken_grantLoop : ∀ (ws : List Waiter) (e : LockEntry),
    Woken e ws (e.grantLoop ws).1 (e.grantLoop ws).2 := by
  intro ws
  induction ws with
  | nil => exact fun e => woken_nil e []
  | cons w ws ih =>
    intro e
    rw [LockEntry.grantLoop]
    split
    · next hc =>
        have hrest := ih (e.addHolder w.txid w.mode)
        have hold : ∀ h ∈ e.holders, h ∈ (e.addHolder w.txid w.mode).holders :=
          fun h hh => LockEntry.mem_addHolder.mpr (.inl hh)
        refine ⟨congrArg (w :: ·) hrest.queue,
          fun h hh => hrest.holders h (hold h hh), fun h hh => ?_,
          fun w' hw' => ?_, fun w' hw' h hh hne => ?_,
          fun hu => hrest.unique (LockEntry.unique_addHolder hu),
          fun he => hrest.compat (compat_addHolder he hc)⟩
        · rcases hrest.added h hh with hh | ⟨w', hw', heq⟩
          · exact (LockEntry.mem_addHolder.mp hh).imp_right fun hnew => ⟨w, mem_cons_self, hnew.2⟩
          · exact .inr ⟨w', mem_cons_of_mem _ hw', heq⟩
        · rcases mem_cons.mp hw' with rfl | hw'
          · obtain ⟨h, hh, hx, -⟩ := exists_addHolder e w'.txid w'.mode
            exact ⟨h, hrest.holders h hh, hx⟩
          · exact hrest.granted w' hw'
        · rcases mem_cons.mp hw' with rfl | hw'
          · exact LockEntry.compatibleWithHolders_iff.mp hc h hh hne
          · exact hrest.allowed w' hw' h (hold h hh) hne
    · exact woken_nil e _

section Woken

variable {e e' : LockEntry} {ws woken : List Waiter}

theorem Woken.of_woken (h : Woken e ws e' woken) {w : Waiter} (hw : w ∈ woken) : w ∈ ws :=
  h.queue ▸ mem_append_left _ hw

theorem Woken.of_waiters (h : Woken e ws e' woken) {w : Waiter} (hw : w ∈ e'.waiters) : w ∈ ws :=
  h.queue ▸ mem_append_right _ hw

end Woken

/-! ## The invariant of an entry -/

/-- One record per transaction, the records of different transactions
compatible, and no queued request above the requester's own record. -/
structure EntryOk (e : LockEntry) : Prop where
  unique : e.Unique
  compat : e.Compat
  covered : ∀ w ∈ e.waiters, ∀ h ∈ e.holders, h.txid = w.txid →
    modeAtLeastAsStrong h.mode w.mode = true
  once : (e.waiters.map Waiter.txid).Nodup

theorem entryOk_new : EntryOk LockEntry.new :=
  ⟨nodup_nil, fun _ h => absurd h not_mem_nil, by simp [LockEntry.new], nodup_nil⟩

/-- Recording a holder whose mode conflicts with nobody, and who waits for
nothing its mode does not cover, keeps the invariant. -/
theorem EntryOk.addHolder {t : TxId} {m : LockMode} (hok : EntryOk e)
    (hc : e.compatibleWithHolders t m = true)
    (hw : ∀ w ∈ e.waiters, w.txid = t → modeAtLeastAsStrong m w.mode = true) :
    EntryOk (e.addHolder t m) := by
  refine ⟨LockEntry.unique_addHolder hok.unique, compat_addHolder hok.compat hc, ?_, ?_⟩
  · intro w hwm h hh heq
    rw [LockEntry.waiters_addHolder] at hwm
    rw [LockEntry.mem_addHolder] at hh
    rcases hh with hh | ⟨-, rfl⟩
    · exact hok.covered w hwm h hh heq
    · exact hw w hwm heq.symm
  · rw [LockEntry.waiters_addHolder]
    exact hok.once

theorem EntryOk.removeHolder (hok : EntryOk e) (t : TxId) : EntryOk (e.removeHolder t) := by
  have hmem := fun h => LockEntry.mem_removeHolder (t := t) (h := h) hok.unique
  refine ⟨LockEntry.unique_removeHolder hok.unique, ?_, ?_, ?_⟩
  · intro h hh h' hh' hne
    exact hok.compat h ((hmem h).mp hh).1 h' ((hmem h').mp hh').1 hne
  · intro w hw h hh heq
    rw [LockEntry.waiters_removeHolder] at hw
    exact hok.covered w hw h ((hmem h).mp hh).1 heq
  · rw [LockEntry.waiters_removeHolder]
    exact hok.once

/-- The wake loop keeps the invariant, and everyone who is woken has a record
that covers the mode it is told. -/
theorem EntryOk.woken {e e' : LockEntry} {woken : List Waiter}
    (hok : EntryOk e) (h : Woken e e.waiters e' woken) :
    EntryOk e' ∧ ∀ w ∈ woken, ∃ h ∈ e'.holders, h.txid = w.txid ∧
      modeAtLeastAsStrong h.mode w.mode = true := by
  have honce := hok.once
  rw [← h.queue, map_append, nodup_append] at honce
  refine ⟨⟨h.unique hok.unique, h.compat hok.compat, fun w hw k hk heq => ?_,
    honce.2.1⟩, fun w hw => ?_⟩
  · rcases h.added k hk with hk | ⟨w', hw', rfl⟩
    · exact hok.covered w (h.of_waiters hw) k hk heq
    · -- no transaction is in the queue twice
      exact absurd heq (honce.2.2 _ (mem_map_of_mem hw') _ (mem_map_of_mem hw))
  · obtain ⟨k, hk, hx⟩ := h.granted w hw
    refine ⟨k, hk, hx, ?_⟩
    rcases h.added k hk with hk | ⟨w', hw', rfl⟩
    · exact hok.covered w (h.of_woken hw) k hk hx
    · rw [inj_on_of_nodup_map honce.1 hw' hw hx]
      exact strong_refl _

/-! ## The table -/

/-- The entry an operation on `r` works on. -/
def LockTable.entry (t : LockTable) (r : ResourceId) : LockEntry := (t.get r).getD LockEntry.new

@[simp] theorem entry_put_self (t : LockTable) (r : ResourceId)
    (e : Option LockEntry) : (t.put r e).entry r = e.getD LockEntry.new := by
  simp [LockTable.entry]

theorem entry_put_ne (t : LockTable) {r r' : ResourceId} (e : Option LockEntry) (h : r' ≠ r) :
    (t.put r e).entry r' = t.entry r' := by
  simp [LockTable.entry, LockTable.get_put_ne t e h]

/-- Everything `tryAcquire` can do: it is granted on the record there is, it
is granted and recorded, it is denied while its request is queued already, or
it is denied and queued. -/
theorem tryAcquire_cases (t : LockTable) (r : ResourceId) (x : TxId)
    (m : LockMode) :
    ((t.entry r).alreadyHolds x m = true ∧
      t.tryAcquire r x m = (t.put r (some (t.entry r)), .granted, none)) ∨
    ((t.entry r).compatibleWithHolders x m = true ∧ t.tryAcquire r x m =
        (t.put r (some ((t.entry r).addHolder x m)), .granted, none)) ∨
    ((t.entry r).compatibleWithHolders x m = false ∧ (∃ w ∈ (t.entry r).waiters, w.txid = x) ∧
      t.tryAcquire r x m = (t.put r (some (t.entry r)), .denied, none)) ∨
    ((t.entry r).compatibleWithHolders x m = false ∧ (t.entry r).alreadyHolds x m = false ∧
      (∀ w ∈ (t.entry r).waiters, w.txid ≠ x) ∧
      t.tryAcquire r x m =
        ({ t.put r (some { t.entry r with
            waiters := (t.entry r).waiters ++ [⟨x, m, t.channels⟩] }) with
          channels := t.channels + 1 }, .denied, some t.channels)) := by
  unfold LockTable.tryAcquire
  rw [show (t.get r).getD LockEntry.new = t.entry r from rfl]
  dsimp only
  split
  · next h => exact .inl ⟨h, rfl⟩
  · next hah =>
      split
      · next h => exact .inr (.inl ⟨h, rfl⟩)
      · next h =>
          have h := Bool.eq_false_iff.mpr h
          split
          · next hw =>
              refine .inr (.inr (.inl ⟨h, ?_, rfl⟩))
              simpa using hw
          · next hw =>
              refine .inr (.inr (.inr ⟨h, Bool.eq_false_iff.mpr hah, ?_, rfl⟩))
              intro w hmem heq
              exact hw (any_eq_true.mpr ⟨w, hmem, beq_iff_eq.mpr heq⟩)

namespace LockTable

theorem entry_setChannels (t : LockTable) (n : Chan) (r : ResourceId) :
    entry { t with channels := n } r = t.entry r := by
  rw [entry, entry, get_setChannels]

/-- What a request does to the entries: it leaves them, it adds a record that
conflicts with nobody, or it is queued. -/
theorem entry_tryAcquire (t : LockTable) (r r' : ResourceId) (x : TxId) (m : LockMode) :
    (t.tryAcquire r x m).1.entry r' = t.entry r' ∨
    r' = r ∧ (t.entry r).compatibleWithHolders x m = true ∧
      (t.tryAcquire r x m).1.entry r' = (t.entry r).addHolder x m ∨
    r' = r ∧ (t.tryAcquire r x m).1.channels = t.channels + 1 ∧
      (t.tryAcquire r x m).1.entry r' = { t.entry r with
        waiters := (t.entry r).waiters ++ [⟨x, m, t.channels⟩] } := by
  by_cases hr : r' = r
  · subst hr
    rcases tryAcquire_cases t r' x m with
      ⟨-, h⟩ | ⟨hc, h⟩ | ⟨-, -, h⟩ | ⟨-, -, -, h⟩ <;> rw [h]
    · exact .inl (entry_put_self ..)
    · exact .inr (.inl ⟨rfl, hc, entry_put_self ..⟩)
    · exact .inl (entry_put_self ..)
    · exact .inr (.inr ⟨rfl, rfl, (entry_setChannels ..).trans (entry_put_self ..)⟩)
  · left
    rcases tryAcquire_cases t r x m with
      ⟨-, h⟩ | ⟨-, h⟩ | ⟨-, -, h⟩ | ⟨-, -, -, h⟩ <;> rw [h]
    · exact entry_put_ne t _ hr
    · exact entry_put_ne t _ hr
    · exact entry_put_ne t _ hr
    · exact (entry_setChannels ..).trans (entry_put_ne t _ hr)

/-- The entry that a release leaves, whether it is stored or dropped. -/
theorem entry_release_self (t : LockTable) (r : ResourceId) (x : TxId) : (t.release r x).1.entry r =
      ((t.entry r).removeHolder x).grantCompatibleWaiters.1 ∧
    (t.release r x).2 = ((t.entry r).removeHolder x).grantCompatibleWaiters.2 := by
  unfold release
  cases hg : t.get r with
  | none => simp [entry, hg, LockEntry.new, LockEntry.removeHolder,
      LockEntry.grantCompatibleWaiters, LockEntry.grantLoop]
  | some e =>
    simp only [entry, hg, Option.getD_some]
    split
    · next hempty =>
        rw [Bool.and_eq_true, LockEntry.isEmpty, List.isEmpty_iff, List.isEmpty_iff] at hempty
        refine ⟨?_, rfl⟩
        generalize (e.removeHolder x).grantCompatibleWaiters.1 = e' at hempty
        obtain ⟨hs, ws⟩ := e'
        obtain ⟨rfl, rfl⟩ : hs = [] ∧ ws = [] := hempty
        simp [LockEntry.new]
    · simp

/-- A release has no effect on the other entries and opens no channel. -/
theorem release_frame (t : LockTable) (r : ResourceId) (x : TxId) :
    (∀ r' ≠ r, (t.release r x).1.entry r' = t.entry r') ∧
      (t.release r x).1.channels = t.channels := by
  unfold release
  cases t.get r with
  | none => exact ⟨fun _ _ => rfl, rfl⟩
  | some e =>
    dsimp only
    split <;> exact ⟨fun r' hne => entry_put_ne t _ hne, rfl⟩

theorem entry_release_ne (t : LockTable) {r r' : ResourceId} (x : TxId)
    (hne : r' ≠ r) : (t.release r x).1.entry r' = t.entry r' :=
  (release_frame t r x).1 r' hne

/-- A release wakes the front of the queue of its resource. -/
theorem release_wakes (t : LockTable) (r : ResourceId) (x : TxId) :
    Woken ((t.entry r).removeHolder x) (t.entry r).waiters
      ((t.release r x).1.entry r) (t.release r x).2 := by
  have h := woken_grantLoop ((t.entry r).removeHolder x).waiters ((t.entry r).removeHolder x)
  obtain ⟨hentry, hwoken⟩ := entry_release_self t r x
  rw [hentry, hwoken, LockEntry.grantCompatibleWaiters]
  rw [LockEntry.waiters_removeHolder] at h ⊢
  exact h

theorem waiters_release {t : LockTable} {r r' : ResourceId} {x : TxId}
    {w : Waiter} (hw : w ∈ ((t.release r x).1.entry r').waiters) : w ∈ (t.entry r').waiters := by
  by_cases hr : r' = r
  · subst hr
    exact (release_wakes t r' x).of_waiters hw
  · rwa [entry_release_ne t x hr] at hw

end LockTable

end RGraph.Txn
