import RGraph.Txn.State

/-!
# What a snapshot sees

A snapshot infers who had committed when it was taken. The inference is exact
because every id issued by then was active, committed or aborted: the active
ones are on the snapshot's list, and the aborted ones stay in the log, which
only grows. So the hint-free answer depends on the moment of the begin alone
(`isVisible_iff`), at whatever later moment it is asked for.

A commit hint is trusted before the bounds and the list are looked at. That a
transaction has committed by now does not say that it had when the snapshot
was taken, so a truthful hint can change the answer.

The reclaim horizon `global_xmin` is the lowest active id. It passes a
transaction as soon as that one and all older ones have ended, although a
younger transaction that is still active may have it on its list.
-/

namespace RGraph.Txn

open RGraph.Lib
open List hiding after
open TxHistory (after step)

/-! ## The state -/

namespace GlobalTxState

theorem lowestActive_le {active : List TxId} {t : TxId} (ht : t ∈ active)
    (other : TxId) : lowestActive active other ≤ t := by
  rw [lowestActive]
  cases hm : active.min? with
  | none => rw [List.min?_eq_none_iff] at hm; rw [hm] at ht; cases ht
  | some m => exact (List.min?_eq_some_iff.mp hm).2 t ht

/-- Only the horizon tells `advance_xmin` from no call. -/
theorem advanceXmin_eq (s : GlobalTxState) (c : TxId) :
    s.advanceXmin c = { s with globalXmin := max s.globalXmin c } := by
  rw [advanceXmin]
  split
  · next h => rw [max_eq_left h]
  · next h => rw [max_eq_right (not_le.mp h).le]

theorem removeActive_eq (s : GlobalTxState) (t : TxId) :
    s.removeActive t = { s with
      active := s.active.erase t
      globalXmin := max s.globalXmin (lowestActive (s.active.erase t) s.globalXmax) } := by
  rw [removeActive, advanceXmin_eq]

end GlobalTxState

open GlobalTxState (abortTx commitTx lowestActive lowestActive_le removeActive_eq)

/-! ## The invariant -/

/-- Every id from `start` on is active, committed or aborted, and only one of
these; the horizon is at or below every active id. -/
structure HistoryOk (start : TxId) (h : TxHistory) : Prop where
  start_pos : 0 < start
  start_le : start ≤ h.state.nextTxid
  xmax : h.state.globalXmax = h.state.nextTxid
  nodup : h.state.active.Nodup
  active : ∀ t ∈ h.state.active, start ≤ t ∧ t < h.state.nextTxid
  known : ∀ t, start ≤ t → t < h.state.nextTxid →
    t ∈ h.state.active ∨ t ∈ h.committed ∨ t ∈ h.state.aborted
  committed : ∀ t ∈ h.committed, start ≤ t ∧ t < h.state.nextTxid ∧
    t ∉ h.state.active ∧ t ∉ h.state.aborted
  aborted : ∀ t ∈ h.state.aborted, t < h.state.nextTxid ∧ t ∉ h.state.active
  horizon : ∀ t ∈ h.state.active, h.state.globalXmin ≤ t

variable {start : TxId}

theorem HistoryOk.withStart (hs : 0 < start) :
    HistoryOk start (TxHistory.withStart start) where
  start_pos := hs
  start_le := Nat.le_refl _
  xmax := rfl
  nodup := nodup_nil
  active := by simp [TxHistory.withStart, GlobalTxState.withStart]
  known t h1 h2 := absurd h2 (Nat.not_lt.mpr h1)
  committed := by simp [TxHistory.withStart]
  aborted := by simp [TxHistory.withStart, GlobalTxState.withStart]
  horizon := by simp [TxHistory.withStart, GlobalTxState.withStart]

/-- What has been decided about a transaction stays decided. -/
structure Later (h h' : TxHistory) : Prop where
  committed : h.committed ⊆ h'.committed
  aborted : h.state.aborted ⊆ h'.state.aborted

theorem Later.refl (h : TxHistory) : Later h h := ⟨List.Subset.refl _, List.Subset.refl _⟩

theorem Later.trans {h₁ h₂ h₃ : TxHistory} (h : Later h₁ h₂) (h' : Later h₂ h₃) : Later h₁ h₃ :=
  ⟨List.Subset.trans h.committed h'.committed, List.Subset.trans h.aborted h'.aborted⟩

theorem later_step (h : TxHistory) (e : TxEvent) : Later h (h.step e) := by
  cases e with
  | begin => exact ⟨List.Subset.refl _, List.Subset.refl _⟩
  | commit t =>
    constructor
    · intro u hu
      simp only [step]
      split
      · exact mem_insert_of_mem hu
      · exact hu
    · simp [step, commitTx, removeActive_eq]
  | abort t =>
    refine ⟨List.Subset.refl _, fun u hu => ?_⟩
    simp only [step, abortTx, removeActive_eq]
    exact mem_insert_of_mem hu

section Step

variable {start : TxId} {h : TxHistory}

theorem HistoryOk.begin (hok : HistoryOk start h) : HistoryOk start (h.step .begin) := by
  have hfresh : h.state.nextTxid ∉ h.state.active := fun hm => Nat.lt_irrefl _ (hok.active _ hm).2
  have hmem : ∀ t, t ∈ (h.step .begin).state.active ↔
      t = h.state.nextTxid ∨ t ∈ h.state.active := fun t => mem_insert_iff
  have hnext : (h.step .begin).state.nextTxid = h.state.nextTxid + 1 := rfl
  refine ⟨hok.start_pos, Nat.le_succ_of_le hok.start_le, rfl,
    hok.nodup.insert, fun t ht => ?_, fun t h1 h2 => ?_, fun t ht => ?_,
    fun t ht => ?_, fun t ht => ?_⟩
  · rcases (hmem t).mp ht with rfl | ht
    · exact ⟨hok.start_le, Nat.lt_succ_self _⟩
    · exact ⟨(hok.active t ht).1, Nat.lt_succ_of_lt (hok.active t ht).2⟩
  · rw [hnext] at h2
    rcases Nat.lt_succ_iff_lt_or_eq.mp h2 with h2 | rfl
    · exact (hok.known t h1 h2).imp_left fun ht => (hmem t).mpr (.inr ht)
    · exact .inl ((hmem _).mpr (.inl rfl))
  · obtain ⟨h1, h2, h3, h4⟩ := hok.committed t ht
    refine ⟨h1, Nat.lt_succ_of_lt h2, fun hm => ?_, h4⟩
    rcases (hmem t).mp hm with rfl | hm
    · exact Nat.lt_irrefl _ h2
    · exact h3 hm
  · obtain ⟨h1, h2⟩ := hok.aborted t ht
    refine ⟨Nat.lt_succ_of_lt h1, fun hm => ?_⟩
    rcases (hmem t).mp hm with rfl | hm
    · exact Nat.lt_irrefl _ h1
    · exact h2 hm
  · rcases (hmem t).mp ht with rfl | ht
    · exact Nat.min_le_right _ _
    · exact (Nat.min_le_left _ _).trans (lowestActive_le ht _)

/-- A transaction leaves the active set, and is from then on committed or
aborted, but not both. -/
theorem HistoryOk.ending (hok : HistoryOk start h) {h' : TxHistory} {t : TxId} (hstate : h'.state =
      { h.state.removeActive t with aborted := h'.state.aborted })
    (hl : Later h h')
    (hended : t ∈ h.state.active → t ∈ h'.committed ∨ t ∈ h'.state.aborted)
    (hcom : ∀ u ∈ h'.committed, u ∉ h'.state.aborted ∧
      (u ∈ h.committed ∨ u = t ∧ t ∈ h.state.active))
    (hlog : ∀ u ∈ h'.state.aborted, u ∈ h.state.aborted ∨ u = t ∧ t < h.state.nextTxid) :
    HistoryOk start h' := by
  rw [removeActive_eq] at hstate
  have hnext : h'.state.nextTxid = h.state.nextTxid := by rw [hstate]
  have hxmax : h'.state.globalXmax = h.state.globalXmax := by rw [hstate]
  have heq : h'.state.active = h.state.active.erase t := by rw [hstate]
  have hact : ∀ u, u ∈ h'.state.active ↔ u ≠ t ∧ u ∈ h.state.active :=
    fun u => by rw [heq]; exact hok.nodup.mem_erase_iff
  have hxmin : h'.state.globalXmin = max h.state.globalXmin
      (lowestActive (h.state.active.erase t) h.state.globalXmax) := by rw [hstate]
  refine ⟨hok.start_pos, hnext ▸ hok.start_le, by rw [hxmax, hnext, hok.xmax],
    heq ▸ hok.nodup.erase t, fun u hu => ?_, fun u h1 h2 => ?_,
    fun u hu => ?_, fun u hu => ?_, fun u hu => ?_⟩
  · rw [hnext]
    exact hok.active u ((hact u).mp hu).2
  · rw [hnext] at h2
    rcases hok.known u h1 h2 with hu | hu | hu
    · by_cases hut : u = t
      · subst hut
        exact .inr (hended hu)
      · exact .inl ((hact u).mpr ⟨hut, hu⟩)
    · exact .inr (.inl (hl.committed hu))
    · exact .inr (.inr (hl.aborted hu))
  · rw [hnext, hact]
    obtain ⟨hna, hu | ⟨rfl, hu⟩⟩ := hcom u hu
    · obtain ⟨h1, h2, h3, -⟩ := hok.committed u hu
      exact ⟨h1, h2, fun hx => h3 hx.2, hna⟩
    · obtain ⟨h1, h2⟩ := hok.active u hu
      exact ⟨h1, h2, fun hx => hx.1 rfl, hna⟩
  · rw [hnext, hact]
    rcases hlog u hu with hu | ⟨rfl, hlt⟩
    · exact ⟨(hok.aborted u hu).1, fun hx => (hok.aborted u hu).2 hx.2⟩
    · exact ⟨hlt, fun hx => hx.1 rfl⟩
  · rw [hxmin]
    exact max_le (hok.horizon u ((hact u).mp hu).2) (lowestActive_le (heq ▸ hu) _)

theorem HistoryOk.commit (hok : HistoryOk start h) (t : TxId) :
    HistoryOk start (h.step (.commit t)) := by
  have hlog : (h.step (.commit t)).state.aborted = h.state.aborted := by
    simp [step, commitTx, removeActive_eq]
  have hcom : ∀ u, u ∈ (h.step (.commit t)).committed ↔
      u ∈ h.committed ∨ u = t ∧ t ∈ h.state.active := fun u => by
    simp only [step]
    split
    · next ht => simp [ht, or_comm]
    · next ht => simp [ht]
  refine hok.ending (t := t) ?_ (later_step h _) (fun ht => ?_) (fun u hu => ?_)
    (fun u hu => .inl (hlog ▸ hu))
  · simp [step, commitTx, removeActive_eq]
  · exact .inl ((hcom t).mpr (.inr ⟨rfl, ht⟩))
  · have hu := (hcom u).mp hu
    refine ⟨fun hx => ?_, hu⟩
    rw [hlog] at hx
    rcases hu with hu | ⟨rfl, hu⟩
    · exact (hok.committed u hu).2.2.2 hx
    · exact (hok.aborted u hx).2 hu

theorem HistoryOk.abort (hok : HistoryOk start h) {t : TxId}
    (hlaw : h.Lawful (.abort t)) : HistoryOk start (h.step (.abort t)) := by
  have hlog : ∀ u, u ∈ (h.step (.abort t)).state.aborted ↔
      u = t ∨ u ∈ h.state.aborted := fun u => by
    simp [step, abortTx, removeActive_eq]
  refine hok.ending (t := t) ?_ (later_step h _)
    (fun _ => .inr ((hlog t).mpr (.inl rfl))) (fun u hu => ⟨fun hx => ?_, .inl hu⟩)
    (fun u hu => ((hlog u).mp hu).symm.imp_right fun heq => ⟨heq, hlaw.1⟩)
  · simp [step, abortTx, removeActive_eq]
  · rcases (hlog u).mp hx with rfl | hx
    · exact hlaw.2 hu
    · exact (hok.committed u hu).2.2.2 hx

/-- An event keeps the invariant. -/
theorem HistoryOk.step (hok : HistoryOk start h) {e : TxEvent}
    (hlaw : h.Lawful e) : HistoryOk start (h.step e) := by
  cases e with
  | begin => exact hok.begin
  | commit t => exact hok.commit t
  | abort t => exact hok.abort hlaw

end Step

/-! ## What a snapshot infers -/

variable {h : TxHistory}

/-- The invariant and the growth along a run. -/
theorem history_run {es : List TxEvent} (hok : HistoryOk start h)
    (hg : Guarded step TxHistory.Lawful h es) :
    HistoryOk start (run step h es) ∧ Later h (run step h es) := by
  have hstep : ∀ h' e, HistoryOk start h' ∧ Later h h' → h'.Lawful e →
      HistoryOk start (h'.step e) ∧ Later h (h'.step e) :=
    fun h' e hi hlaw => ⟨hi.1.step hlaw, hi.2.trans (later_step h' e)⟩
  exact run_inv hstep ⟨hok, Later.refl h⟩ hg

section Visible

variable {start : TxId} {h h' : TxHistory}

theorem mem_snapshot_active {x : TxId} : h.snapshot.isActive x = true ↔ x ∈ h.state.active := by
  simp [TxHistory.snapshot, GlobalTxState.beginTx, Snapshot.withAborted,
    Snapshot.new, Snapshot.isActive]

/-- Asked later on, with a truthful hint or none, the snapshot finds of every
other transaction whether it had committed, and believes the hint. -/
theorem committedBefore_iff (hok : HistoryOk start h) (hok' : HistoryOk start h')
    (hl : Later h h') {x : TxId} (hstart : start ≤ x) (howner : x ≠ h.owner) {hint : Bool}
    (htrue : hint = true → x ∈ h'.committed) :
    h.snapshot.txidCommittedBeforeSnapshot h'.state.aborted x hint = true ↔
      x ∈ h.committed ∨ hint = true := by
  have hne : x ≠ txIdInvalid := Nat.ne_of_gt (Nat.lt_of_lt_of_le hok.start_pos hstart)
  have hlog : h.snapshot.isAborted h'.state.aborted x = true ↔ x ∈ h'.state.aborted := by
    simp [TxHistory.snapshot, GlobalTxState.beginTx, Snapshot.withAborted, Snapshot.isAborted]
  have hxmin : h.snapshot.xmin =
      lowestActive h.state.active h.state.nextTxid := rfl
  have hxmax : h.snapshot.xmax = h.state.nextTxid + 1 := rfl
  rw [Snapshot.txidCommittedBeforeSnapshot, if_neg hne]
  split
  · next ha =>
      -- in the abort log: it never commits
      have hx : ∀ hc : x ∈ h'.committed, False := fun hc => (hok'.committed x hc).2.2.2 (hlog.mp ha)
      refine ⟨nofun, fun hc => ?_⟩
      rcases hc with hc | hc
      · exact (hx (hl.committed hc)).elim
      · exact (hx (htrue hc)).elim
  · next ha =>
      rw [hlog] at ha
      split
      · next hh => simp [hh]
      · next hh =>
          -- issued before the snapshot and not active then: it had ended
          have hended : x < h.state.nextTxid → x ∉ h.state.active →
              x ∈ h.committed := fun hlt hna => by
            rcases hok.known x hstart hlt with hm | hm | hm
            · exact absurd hm hna
            · exact hm
            · exact absurd (hl.aborted hm) ha
          have hcom : x ∈ h.committed → x < h.state.nextTxid ∧ x ∉ h.state.active := fun hc =>
            ⟨(hok.committed x hc).2.1, (hok.committed x hc).2.2.1⟩
          have hfin : (x ∈ h.committed ∨ hint = true) ↔ x ∈ h.committed := or_iff_left hh
          rw [hfin]
          split
          · next hlt =>
              rw [hxmin] at hlt
              have hna : x ∉ h.state.active := fun hm =>
                Nat.not_lt.mpr (lowestActive_le hm _) hlt
              have hle : lowestActive h.state.active
                  h.state.nextTxid ≤ h.state.nextTxid := by
                cases hm : h.state.active with
                | nil => exact Nat.le_refl _
                | cons t ts =>
                  exact (lowestActive_le mem_cons_self
                    _).trans (hok.active t (by simp [hm])).2.le
              exact ⟨fun _ => hended (Nat.lt_of_lt_of_le hlt hle) hna, fun _ => rfl⟩
          · split
            · next hge =>
                rw [hxmax] at hge
                refine ⟨nofun, fun hc => ?_⟩
                exact absurd ((hcom hc).1.trans (Nat.lt_succ_self _)) (Nat.not_lt.mpr hge)
            · next hge =>
                rw [hxmax] at hge
                rw [Bool.not_eq_true', ← Bool.not_eq_true, mem_snapshot_active]
                exact ⟨hended (lt_of_le_of_ne (Nat.lt_succ_iff.mp (not_le.mp hge)) howner),
                  fun hc => (hcom hc).2⟩

/-- The answer, in terms of who had committed at the begin. -/
theorem isVisible_iff (hok : HistoryOk start h) (hok' : HistoryOk start h')
    (hl : Later h h') {xmin xmax : TxId} (hmin : start ≤ xmin)
    (hmax : xmax = txIdInvalid ∨ start ≤ xmax) {hint₁ hint₂ : Bool}
    (htrue₁ : hint₁ = true → xmin ∈ h'.committed) (htrue₂ : hint₂ = true → xmax ∈ h'.committed) :
    h.snapshot.isVisible h'.state.aborted xmin xmax hint₁ hint₂ = true ↔
      (xmin = h.owner ∨ xmin ∈ h.committed ∨ hint₁ = true) ∧
      (xmax = txIdInvalid ∨ xmax ≠ h.owner ∧ xmax ∉ h.committed ∧ hint₂ = false) := by
  have howner : h.snapshot.ownerTxid = h.owner := rfl
  have hcreated : (!h.snapshot.txidCommittedBeforeSnapshot h'.state.aborted
      xmin hint₁ && xmin != h.snapshot.ownerTxid) = true ↔
      ¬ (xmin = h.owner ∨ xmin ∈ h.committed ∨ hint₁ = true) := by
    by_cases ho : xmin = h.owner
    · simp [ho, howner]
    · have := committedBefore_iff hok hok' hl hmin ho htrue₁
      simp only [Bool.and_eq_true, Bool.not_eq_true', bne_iff_ne, howner, ← Bool.not_eq_true, this]
      tauto
  simp only [Snapshot.isVisible, howner]
  rw [howner] at hcreated
  split
  · next hc =>
      rw [hcreated] at hc
      simp only [Bool.false_eq_true, false_iff, not_and]
      exact fun hx => absurd hx hc
  · next hc =>
      rw [hcreated, not_not] at hc
      split
      · next hx => simp [hc, hx]
      · next hx =>
          split
          · next ho =>
              refine ⟨nofun, fun hv => ?_⟩
              rcases hv.2 with hd | hd
              · exact absurd hd hx
              · exact absurd ho hd.1
          · next ho =>
              have := committedBefore_iff hok hok' hl (hmax.resolve_left hx) ho htrue₂
              rw [Bool.not_eq_true', ← Bool.not_eq_true, this]
              simp [hc, hx, ho]

end Visible

/-! ## Histories with a snapshot in them -/

section Histories

variable {start : TxId} {pre post : List TxEvent}

/-- The history at the begin, and the one in which the snapshot is asked. -/
theorem history_split (hstart : 0 < start)
    (hg : Guarded step TxHistory.Lawful (TxHistory.withStart start)
      (pre ++ .begin :: post)) :
    HistoryOk start (after start pre) ∧ HistoryOk start (after start (pre ++ .begin :: post)) ∧
      Later (after start pre) (after start (pre ++ .begin :: post)) := by
  obtain ⟨hpre, hpost⟩ := guarded_append.mp hg
  have hok := (history_run (HistoryOk.withStart hstart) hpre).1
  have hlater := history_run hok hpost
  rw [← run_append] at hlater
  exact ⟨hok, hlater⟩

/-- Without hints a snapshot answers, for as long as its owner is active, by
who had committed when it was taken. -/
theorem is_visible_exact (hstart : 0 < start)
    (hg : Guarded step TxHistory.Lawful (TxHistory.withStart start)
      (pre ++ .begin :: post))
    (_hactive : (after start pre).owner ∈
      (after start (pre ++ .begin :: post)).state.active)
    {xmin xmax : TxId} (hmin : (after start (pre ++ .begin :: post)).Issued start xmin)
    (hmax : xmax = txIdInvalid ∨
      (after start (pre ++ .begin :: post)).Issued start xmax) :
    (after start pre).snapshot.isVisible (after start (pre ++ .begin :: post)).state.aborted
        xmin xmax false false = true ↔
      (xmin = (after start pre).owner ∨
        xmin ∈ (after start pre).committed) ∧
      (xmax = txIdInvalid ∨ xmax ≠ (after start pre).owner ∧
        xmax ∉ (after start pre).committed) := by
  obtain ⟨hok, hok', hl⟩ := history_split hstart hg
  have := isVisible_iff hok hok' hl hmin.1 (hmax.imp_right And.left)
    (show false = true → _ from nofun) (show false = true → _ from nofun)
  simpa using this

/-- A creator that committed before the begin, a deleter that ran then and
has committed since, and a transaction that aborted. -/
theorem is_visible_exact_concurrent_delete :
    (after 1 [.begin, .commit 1, .begin]).snapshot.isVisible
      (after 1 ([.begin, .commit 1, .begin] ++ .begin ::
        [.commit 2, .begin, .abort 4])).state.aborted 1 2 false false = true :=
  (is_visible_exact (by decide) (by decide) (by decide) (by decide)
    (by decide)).mpr (by decide)

/-- Transaction 1 has committed when 2 takes its snapshot. `abort_tx` does not
refuse a transaction that has ended, and from then on 2 does not see what 1
created. -/
theorem late_abort_hides_committed : ¬ ∀ (pre post : List TxEvent) (xmin : TxId),
      (after 1 pre).owner ∈ (after 1 (pre ++ .begin :: post)).state.active →
      (after 1 (pre ++ .begin :: post)).Issued 1 xmin →
      ((after 1 pre).snapshot.isVisible
          (after 1 (pre ++ .begin :: post)).state.aborted xmin txIdInvalid false false = true ↔
        xmin = (after 1 pre).owner ∨
          xmin ∈ (after 1 pre).committed) := by
  intro h
  have hseen := (h [.begin, .commit 1] [.abort 1] 1 (by decide) (by decide)).mpr (by decide)
  exact absurd hseen (by decide)

/-- When hints change nothing, for a creator and a deleter that may be the
owner (`o`), have committed before (`c`) or be hinted at (`h`). -/
theorem hinted_iff {o₁ c₁ h₁ o₂ c₂ h₂ live : Prop} (ho₁ : h₁ → ¬ o₁)
    (ho₂ : h₂ → ¬ o₂) (hlive : h₂ → ¬ live) : ((o₁ ∨ c₁ ∨ h₁) ∧ (live ∨ ¬ o₂ ∧ ¬ c₂ ∧ ¬ h₂) ↔
        (o₁ ∨ c₁) ∧ (live ∨ ¬ o₂ ∧ ¬ c₂)) ↔
      (h₁ → c₁ ∨ ¬ live ∧ (o₂ ∨ c₂ ∨ h₂)) ∧ (h₂ → c₂ ∨ ¬ (o₁ ∨ c₁)) := by
  by_cases hh₁ : h₁ <;> by_cases hh₂ : h₂
  · simp only [hh₁, hh₂, ho₁ hh₁, ho₂ hh₂, hlive hh₂, or_true,
      not_true_eq_false, and_false, or_false, false_or, true_and, and_true,
      not_false_eq_true, forall_const]
    tauto
  · simp only [hh₁, hh₂, ho₁ hh₁, or_true, or_false, false_or, true_and,
      not_false_eq_true, and_true, forall_const, false_implies]
    tauto
  · simp only [hh₁, hh₂, ho₂ hh₂, hlive hh₂, or_false, false_or,
      not_true_eq_false, and_false, not_false_eq_true, true_and, forall_const,
      false_implies]
    tauto
  · simp only [hh₁, hh₂, or_false, not_false_eq_true, and_true, false_implies]

/-- With truthful hints the answer is still the one at the begin exactly when
each hint is old news, or makes no difference: a creator hinted at had
committed before the snapshot or the version is deleted for it anyway, and a
deleter hinted at had committed before it or the creator is not visible. -/
theorem is_visible_stable_iff (hstart : 0 < start)
    (hg : Guarded step TxHistory.Lawful (TxHistory.withStart start)
      (pre ++ .begin :: post))
    (hactive : (after start pre).owner ∈
      (after start (pre ++ .begin :: post)).state.active)
    {xmin xmax : TxId} (hmin : (after start (pre ++ .begin :: post)).Issued start xmin)
    (hmax : xmax = txIdInvalid ∨
      (after start (pre ++ .begin :: post)).Issued start xmax)
    {hint₁ hint₂ : Bool}
    (htrue₁ : hint₁ = true →
      xmin ∈ (after start (pre ++ .begin :: post)).committed)
    (htrue₂ : hint₂ = true →
      xmax ∈ (after start (pre ++ .begin :: post)).committed) :
    (after start pre).snapshot.isVisible (after start (pre ++ .begin :: post)).state.aborted
        xmin xmax hint₁ hint₂ = (after start pre).snapshot.isVisible
        (after start pre).state.aborted xmin xmax false false ↔
    (hint₁ = true → xmin ∈ (after start pre).committed ∨
      xmax ≠ txIdInvalid ∧ (xmax = (after start pre).owner ∨
        xmax ∈ (after start pre).committed ∨ hint₂ = true)) ∧
    (hint₂ = true → xmax ∈ (after start pre).committed ∨
      ¬ (xmin = (after start pre).owner ∨
        xmin ∈ (after start pre).committed)) := by
  obtain ⟨hok, hok', hl⟩ := history_split hstart hg
  have hnow := isVisible_iff hok hok' hl hmin.1 (hmax.imp_right And.left)
    htrue₁ htrue₂
  have hthen := isVisible_iff hok hok (Later.refl _) hmin.1
    (hmax.imp_right And.left) (show false = true → _ from nofun)
    (show false = true → _ from nofun)
  -- the owner is still active, so no hint is about it
  have howner₁ : hint₁ = true → xmin ≠ (after start pre).owner :=
    fun ht heq => (hok'.committed _ (htrue₁ ht)).2.2.1 (heq ▸ hactive)
  have howner₂ : hint₂ = true → xmax ≠ (after start pre).owner :=
    fun ht heq => (hok'.committed _ (htrue₂ ht)).2.2.1 (heq ▸ hactive)
  have hlive : hint₂ = true → xmax ≠ txIdInvalid := fun ht heq => by
    have := (hok'.committed _ (htrue₂ ht)).1
    rw [heq] at this
    exact Nat.not_lt.mpr this hstart
  rw [Bool.eq_iff_iff, hnow, hthen]
  simp only [Bool.false_eq_true, or_false, and_true, ← Bool.not_eq_true]
  exact hinted_iff howner₁ howner₂ hlive

/-- Both transactions had committed before the begin: the hints are old. -/
theorem is_visible_stable_old_hints :
    (after 1 [.begin, .begin, .commit 1, .commit 2]).snapshot.isVisible
        (after 1 ([.begin, .begin, .commit 1, .commit 2] ++
          .begin :: [.begin, .commit 4])).state.aborted 1 2 true true =
      (after 1 [.begin, .begin, .commit 1, .commit 2]).snapshot.isVisible
        (after 1 [.begin, .begin, .commit 1, .commit 2]).state.aborted 1 2 false false :=
  (is_visible_stable_iff (by decide) (by decide) (by decide) (by decide)
    (by decide) (by decide) (by decide)).mpr (by decide)

/-- Transaction 1 runs when 2 takes its snapshot. Its version is invisible to
2, and becomes visible once 1 has committed and the hint says so. -/
theorem late_hint_flips_answer : ¬ ∀ (pre post : List TxEvent) (xmin : TxId) (hint : Bool),
      (after 1 pre).owner ∈ (after 1 (pre ++ .begin :: post)).state.active →
      (after 1 (pre ++ .begin :: post)).Issued 1 xmin →
      (hint = true →
        xmin ∈ (after 1 (pre ++ .begin :: post)).committed) →
      (after 1 pre).snapshot.isVisible (after 1 (pre ++ .begin :: post)).state.aborted
          xmin txIdInvalid hint false = (after 1 pre).snapshot.isVisible
          (after 1 pre).state.aborted xmin txIdInvalid false false :=
  fun h => absurd (h [.begin] [.commit 1] 1 true (by decide) (by decide) (by decide))
    (by decide)

end Histories

/-! ## The reclaim horizon -/

namespace TxHistory

/-- What is declared safe to reclaim is invisible: a version whose deleter has
committed below the horizon is seen by no active transaction. -/
def HorizonSafe (h : TxHistory) : Prop :=
  ∀ d ∈ h.committed, d < h.state.globalXmin → ∀ u ∈ h.state.active,
    ∀ snap, h.snapshots u = some snap → ∀ xmin hint₁ hint₂,
      snap.isVisible h.state.aborted xmin d hint₁ hint₂ = false

/-- Nobody commits while a transaction that began during its run is active. -/
def QuietCommit (h : TxHistory) : TxEvent → Prop
  | .commit t => ∀ u ∈ h.state.active,
      (h.snapshots u).all (fun snap => !snap.isActive t) = true
  | _ => True

instance (h : TxHistory) : ∀ e, Decidable (h.QuietCommit e)
  | .commit _ => inferInstanceAs (Decidable (∀ u ∈ h.state.active, _))
  | .begin | .abort _ => inferInstanceAs (Decidable True)

end TxHistory

/-- Each active transaction has the snapshot of its begin, and no committed
transaction is on the list of one. -/
structure SnapshotsOk (start : TxId) (h : TxHistory) : Prop where
  history : HistoryOk start h
  taken : ∀ u ∈ h.state.active, ∃ h₀, HistoryOk start h₀ ∧ Later h₀ h ∧
    h₀.owner = u ∧ h.snapshots u = some h₀.snapshot
  quiet : ∀ d ∈ h.committed, ∀ u ∈ h.state.active, ∀ snap,
    h.snapshots u = some snap → snap.isActive d = false

theorem SnapshotsOk.begin (hok : SnapshotsOk start h) : SnapshotsOk start (h.step .begin) := by
  have hmem : ∀ u, u ∈ (h.step .begin).state.active ↔
      u = h.owner ∨ u ∈ h.state.active := fun u => mem_insert_iff
  have hsnap : (h.step .begin).snapshots =
      Function.update h.snapshots h.owner (some h.snapshot) := rfl
  have hold : ∀ u ∈ h.state.active,
      (h.step .begin).snapshots u = h.snapshots u := fun u hu => by
    have hlt : u < h.owner := (hok.history.active u hu).2
    rw [hsnap, Function.update_of_ne (Nat.ne_of_lt hlt)]
  refine ⟨hok.history.begin, fun u hu => ?_, fun d hd u hu snap hs => ?_⟩
  · rcases (hmem u).mp hu with rfl | hu
    · exact ⟨h, hok.history, later_step h .begin, rfl, by simp [hsnap]⟩
    · obtain ⟨h₀, hok₀, hl, ho, hs⟩ := hok.taken u hu
      exact ⟨h₀, hok₀, hl.trans (later_step h .begin), ho, by rw [hold u hu, hs]⟩
  · rcases (hmem u).mp hu with rfl | hu
    · obtain rfl : h.snapshot = snap := by simpa [hsnap] using hs
      rw [← Bool.not_eq_true, mem_snapshot_active]
      exact (hok.history.committed d hd).2.2.1
    · exact hok.quiet d hd u hu snap (hold u hu ▸ hs)

theorem SnapshotsOk.step (hok : SnapshotsOk start h) {e : TxEvent}
    (hlaw : h.Lawful e) (hquiet : h.QuietCommit e) : SnapshotsOk start (h.step e) := by
  cases e with
  | begin => exact hok.begin
  | commit t =>
    have hact : ∀ u ∈ (h.step (.commit t)).state.active, u ∈ h.state.active := fun u hu => by
      simp only [TxHistory.step, commitTx, removeActive_eq] at hu
      exact mem_of_mem_erase hu
    refine ⟨hok.history.commit t, fun u hu => ?_, fun d hd u hu snap hs => ?_⟩
    · obtain ⟨h₀, hok₀, hl, ho, hs⟩ := hok.taken u (hact u hu)
      exact ⟨h₀, hok₀, hl.trans (later_step h _), ho, hs⟩
    · simp only [TxHistory.step] at hd
      split at hd
      · rcases mem_insert_iff.mp hd with rfl | hd
        · have := hquiet u (hact u hu)
          rw [show h.snapshots u = some snap from hs] at this
          simpa using this
        · exact hok.quiet d hd u (hact u hu) snap hs
      · exact hok.quiet d hd u (hact u hu) snap hs
  | abort t =>
    have hact : ∀ u ∈ (h.step (.abort t)).state.active, u ∈ h.state.active := fun u hu => by
      simp only [TxHistory.step, abortTx, removeActive_eq] at hu
      exact mem_of_mem_erase hu
    refine ⟨hok.history.abort hlaw, fun u hu => ?_,
      fun d hd u hu snap hs => hok.quiet d hd u (hact u hu) snap hs⟩
    obtain ⟨h₀, hok₀, hl, ho, hs⟩ := hok.taken u (hact u hu)
    exact ⟨h₀, hok₀, hl.trans (later_step h _), ho, hs⟩

/-- A deleter that counts as committed hides the version. -/
theorem isVisible_deleted {snap : Snapshot} {log : List TxId} {d : TxId}
    {hint₂ : Bool} (hne : d ≠ txIdInvalid)
    (hd : snap.txidCommittedBeforeSnapshot log d hint₂ = true) (xmin : TxId)
    (hint₁ : Bool) : snap.isVisible log xmin d hint₁ hint₂ = false := by
  simp [Snapshot.isVisible, hne, hd]

theorem SnapshotsOk.horizonSafe (hok : SnapshotsOk start h) : h.HorizonSafe := by
  intro d hd hlt u hu snap hs xmin hint₁ hint₂
  obtain ⟨h₀, hok₀, hl, ho, hs₀⟩ := hok.taken u hu
  obtain rfl : h₀.snapshot = snap := by rw [hs₀] at hs; simpa using hs
  obtain ⟨hstart, -, -, hna⟩ := hok.history.committed d hd
  have hdu : d < h₀.owner := by
    rw [ho]; exact Nat.lt_of_lt_of_le hlt (hok.history.horizon u hu)
  -- issued before the snapshot, not on its list and not aborted
  have hcom : d ∈ h₀.committed := by
    rcases hok₀.known d hstart hdu with hm | hm | hm
    · have := hok.quiet d hd u hu _ hs₀
      rw [mem_snapshot_active.mpr hm] at this
      cases this
    · exact hm
    · exact absurd (hl.aborted hm) hna
  refine isVisible_deleted (Nat.ne_of_gt
    (Nat.lt_of_lt_of_le hok.history.start_pos hstart)) ?_ xmin hint₁
  exact (committedBefore_iff hok₀ hok.history hl hstart (Nat.ne_of_lt hdu)
    (fun _ => hd)).mpr (.inl hcom)

/-- The horizon is safe at every moment of a run in which nobody commits while
a transaction that began during its run is active. -/
theorem reclaimable_invisible {start : TxId} (hstart : 0 < start) {es : List TxEvent}
    (hg : Guarded step (fun h e => h.Lawful e ∧ h.QuietCommit e)
      (TxHistory.withStart start) es) (n : Nat) :
    (after start (es.take n)).HorizonSafe := by
  have hinit : SnapshotsOk start (TxHistory.withStart start) :=
    ⟨HistoryOk.withStart hstart,
      by simp [TxHistory.withStart, GlobalTxState.withStart],
      by simp [TxHistory.withStart]⟩
  exact (run_inv_take (fun _ _ hi ho => hi.step ho.1 ho.2) hinit hg
    n).horizonSafe

/-- Transactions one after the other, and one that runs beside an older one
which ends after it. -/
theorem reclaimable_invisible_nested :
    (after 1 ([TxEvent.begin, .commit 1, .begin, .begin, .commit 3,
      .abort 2, .begin].take 7)).HorizonSafe :=
  reclaimable_invisible (by decide) (by decide) 7

/-- Transaction 3 begins while 2 runs. When 2 has committed, the horizon is 3,
but 3 still sees the version that 1 created and 2 deleted. -/
theorem horizon_passes_open_snapshot : ¬ ∀ es : List TxEvent, (after 1 es).HorizonSafe := by
  intro h
  have hbad := h [.begin, .commit 1, .begin, .begin, .commit 2] 2 (by decide)
    (by decide) 3 (by decide) _ rfl 1 false false
  exact absurd hbad (by decide)

end RGraph.Txn
