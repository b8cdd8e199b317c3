import RGraph.Proofs.WalRecord
import RGraph.Wal.Writer

/-!
# Segment files

How the LSN packs its two parts, what probing for the highest segment finds,
and what archiving and reclaiming do to the directory: archiving moves files
and reclaiming deletes archived ones, so neither changes what a segment that
is still there holds.
-/

namespace RGraph.Wal

open RGraph.Lib WalRecord List

/-! ## Log sequence numbers -/

variable {off seg : Nat}

theorem lsnSegmentId_makeLsn (hs : seg < 2 ^ 32) (ho : off < 2 ^ 32) :
    lsnSegmentId (makeLsn seg off) = seg := by
  simp only [lsnSegmentId, makeLsn]; omega

theorem lsnOffset_makeLsn (ho : off < 2 ^ 32) : lsnOffset (makeLsn seg off) = off := by
  simp only [lsnOffset, makeLsn]; omega

theorem makeLsn_eq (hs : seg < 2 ^ 32) (ho : off < 2 ^ 32) :
    makeLsn seg off = seg * 2 ^ 32 + off := by
  simp only [makeLsn]; omega

/-! ## Probing -/

/-- With the ids up to `n` there and `n + 1` missing, the probe ends at `n`. -/
theorem probe_from {present : Nat → Bool} {n : Nat} (hgap : present (n + 1) = false) (k : Nat) :
    ∀ (fuel id : Nat), 0 < id → id + k = n + 1 → k < fuel →
      (∀ i, id ≤ i → i ≤ n → present i = true) → probe present fuel id (id - 1) = n := by
  induction k with
  | zero =>
    intro fuel id hid hk hfuel _
    obtain ⟨fuel, rfl⟩ : ∃ m, fuel = m + 1 := ⟨fuel - 1, by omega⟩
    have hn : id = n + 1 := by omega
    subst hn
    rw [probe, hgap, if_neg (by simp), if_pos (by omega)]
    omega
  | succ k ih =>
    intro fuel id hid hk hfuel hall
    obtain ⟨fuel, rfl⟩ : ∃ m, fuel = m + 1 := ⟨fuel - 1, by omega⟩
    rw [probe, hall id (Nat.le_refl _) (by omega), if_pos rfl]
    exact ih fuel (id + 1) (by omega) (by omega) (by omega) fun i h1 h2 => hall i (by omega) h2

/-- Whether segment 0 is there does not matter. -/
theorem probe_eq {present : Nat → Bool} {n : Nat} (hn : n + 1 < 2 ^ 32)
    (hgap : present (n + 1) = false) (hall : ∀ i, 1 ≤ i → i ≤ n → present i = true) :
    probe present (2 ^ 32) 0 0 = n := by
  have hrest := probe_from hgap n (2 ^ 32 - 1) 1 (by omega) (by omega) (by omega) hall
  rw [show (2 : Nat) ^ 32 = (2 ^ 32 - 1) + 1 by decide, probe]
  split
  · exact hrest
  · rw [if_neg (by omega)]
    exact hrest

/-! ## Files -/

namespace WalDir

@[simp] theorem live_append_self (d : WalDir) (seg : Nat) (bs : Bytes) :
    (d.append seg bs).live seg = some ((d.live seg).getD [] ++ bs) := by
  simp [append, set]

variable {i seg : Nat}

theorem live_append_ne (d : WalDir) (bs : Bytes) (h : i ≠ seg) :
    (d.append seg bs).live i = d.live i := by
  simp [append, set, h]

@[simp] theorem archive_append (d : WalDir) (seg : Nat) (bs : Bytes) :
    (d.append seg bs).archive = d.archive := rfl

@[simp] theorem live_create_self (d : WalDir) (seg : Nat) :
    (d.create seg).live seg = some ((d.live seg).getD []) := by
  simp [create, set]

theorem live_create_ne (d : WalDir) (h : i ≠ seg) : (d.create seg).live i = d.live i := by
  simp [create, set, h]

@[simp] theorem archive_create (d : WalDir) (seg : Nat) : (d.create seg).archive = d.archive := rfl

theorem file_of_live {d : WalDir} {c : Bytes} (h : d.live i = some c) : d.file i = some c := by
  rw [file, h]

theorem file_congr {d d' : WalDir} (hl : d'.live i = d.live i)
    (ha : d'.archive i = d.archive i) : d'.file i = d.file i := by
  rw [file, file, hl, ha]

theorem file_archiveSegment (d : WalDir) (seg i : Nat) :
    (d.archiveSegment seg).file i = d.file i := by
  rw [archiveSegment]
  split
  · next c hc =>
      by_cases hi : i = seg
      · subst hi; simp [file, hc]
      · simp [file, hi]
  · rfl

theorem live_archiveSegment (d : WalDir) (h : i ≠ seg) :
    (d.archiveSegment seg).live i = d.live i := by
  rw [archiveSegment]
  split <;> simp [h]

theorem archive_archiveSegment (d : WalDir) (h : i ≠ seg) :
    (d.archiveSegment seg).archive i = d.archive i := by
  rw [archiveSegment]
  split <;> simp [h]

/-- Archiving the segments below `n` moves files and leaves the rest. -/
theorem archive_range (d : WalDir) (n : Nat) :
    let d' := (List.range n).foldl archiveSegment d
    (∀ i, d'.file i = d.file i) ∧
    ∀ i, n ≤ i → d'.live i = d.live i ∧ d'.archive i = d.archive i := by
  induction n with
  | zero => exact ⟨fun _ => rfl, fun _ _ => ⟨rfl, rfl⟩⟩
  | succ n ih =>
    obtain ⟨hfile, hrest⟩ := ih
    simp only [range_succ, foldl_append, foldl_cons, foldl_nil]
    refine ⟨fun i => ?_, fun i hi => ?_⟩
    · rw [file_archiveSegment, hfile i]
    · obtain ⟨hl, ha⟩ := hrest i (by omega)
      rw [live_archiveSegment _ (by omega), archive_archiveSegment _ (by omega), hl, ha]
      exact ⟨rfl, rfl⟩

end WalDir

theorem archiveOldSegments_spec (d : WalDir) (cur : Nat) :
    (∀ i, (WalWriter.archiveOldSegments d cur).file i = d.file i) ∧ ∀ i, cur ≤ i →
      (WalWriter.archiveOldSegments d cur).live i = d.live i ∧
      (WalWriter.archiveOldSegments d cur).archive i = d.archive i := by
  rw [WalWriter.archiveOldSegments]
  split
  · exact ⟨fun _ => rfl, fun _ _ => ⟨rfl, rfl⟩⟩
  · obtain ⟨h1, h2⟩ := WalDir.archive_range d (cur - (WalWriter.liveSegmentRetention - 1))
    exact ⟨h1, fun i hi => h2 i (by omega)⟩

/-- Reclaiming deletes the archived segments below the checkpoint's. -/
theorem reclaim_spec (d : WalDir) (ckpt : Nat) :
    (WalWriter.reclaimArchivedSegmentsBefore d ckpt).1.live = d.live ∧
    ∀ i, (WalWriter.reclaimArchivedSegmentsBefore d ckpt).1.archive i =
      if i < lsnSegmentId ckpt then none else d.archive i := by
  rw [WalWriter.reclaimArchivedSegmentsBefore]
  generalize lsnSegmentId ckpt = n
  induction n with
  | zero => exact ⟨rfl, fun i => by simp⟩
  | succ n ih =>
    obtain ⟨hl, ha⟩ := ih
    rw [range_succ, foldl_append, foldl_cons, foldl_nil]
    split
    next d' m hr =>
    rw [hr] at hl ha
    split
    · refine ⟨hl, fun i => ?_⟩
      simp only [WalDir.removeArchived]
      by_cases hi : i = n
      · subst hi; simp
      · rw [Function.update_of_ne hi, ha i]
        simp only [Nat.lt_succ_iff_lt_or_eq, hi, or_false]
    · next hnone =>
        refine ⟨hl, fun i => ?_⟩
        dsimp only
        by_cases hi : i = n
        · subst hi
          rw [if_pos (Nat.lt_succ_self _)]
          simpa using hnone
        · rw [ha i]
          simp only [Nat.lt_succ_iff_lt_or_eq, hi, or_false]

end RGraph.Wal
