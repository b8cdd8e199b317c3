import RGraph.Proofs.WalLsn

/-!
# Recovery loads every segment there is

The loader finds the highest segment by probing, live and archived, up to the
first gap above segment 0. As long as reclaiming has deleted no segment but
segment 0 there is no gap, so it reads every file from the checkpoint's
segment on, and what it reads is what was flushed, in LSN order.
-/

namespace RGraph.Wal

open RGraph.Lib WalRecord List

structure LoadOk (h : WalHash) (s : WalRun) : Prop where
  log : LogOk h s
  present : Present 1 s

section Load

variable {h : WalHash} {s : WalRun}

theorem WalRun.acked_sublist_log (s : WalRun) (i : Nat) : (s.acked i).Sublist (s.log i) := by
  rw [WalRun.log]
  split
  · exact sublist_append_left _ _
  · exact List.Sublist.refl _

theorem WalDir.isSome_file (d : WalDir) (i : Nat) :
    (d.file i).isSome = ((d.live i).isSome || (d.archive i).isSome) := by
  rw [WalDir.file]
  cases d.live i <;> rfl

theorem LoadOk.highestSegmentId_eq (hs : LoadOk h s) :
    highestSegmentId s.dir = s.writer.segmentId := by
  refine probe_eq hs.log.lsns.segment_lt ?_ fun i h1 hi => ?_
  · rw [(hs.log.files.beyond _ (Nat.lt_succ_self _)).1, hs.log.files.unarchived _ (Nat.le_succ _)]
    rfl
  · rw [← WalDir.isSome_file]
    exact hs.present.isSome_file hs.log.files h1 hi

/-- The records the loader takes from a segment. -/
theorem LoadOk.segment_sublist (hs : LoadOk h s) {i : Nat}
    (hi : i ≤ s.writer.segmentId) :
    (match s.dir.file i with
      | some raw => loadSingleSegment h raw
      | none => []).Sublist (s.log i) := by
  split
  · next raw hraw =>
      rw [← hs.log.files.load hi hraw]
      exact s.acked_sublist_log i
  · exact nil_sublist _

theorem LoadOk.load_ordered (hs : LoadOk h s) (ckpt : Nat) :
    (loadAllSegments h s.dir ckpt).Pairwise (·.lsn < ·.lsn) := by
  rw [loadAllSegments, hs.highestSegmentId_eq, pairwise_flatMap]
  have hle : ∀ i ∈ List.range' (ckpt / 2 ^ 32)
      (s.writer.segmentId + 1 - ckpt / 2 ^ 32), i ≤ s.writer.segmentId := by
    intro i hi
    rw [mem_range'_1] at hi
    omega
  constructor
  · intro i hi
    exact (hs.log.lsns.log_order i).sublist (hs.segment_sublist (hle i hi))
  · refine List.Pairwise.imp_of_mem ?_ pairwise_lt_range'
    intro i j hi hj hij r hr q hq
    have h1 := hs.log.lsns.log_segment i r ((hs.segment_sublist (hle i hi)).subset hr)
    have h2 := hs.log.lsns.log_segment j q ((hs.segment_sublist (hle j hj)).subset hq)
    have : (i + 1) * 2 ^ 32 ≤ j * 2 ^ 32 := Nat.mul_le_mul_right _ hij
    omega

theorem LoadOk.load_complete (hs : LoadOk h s) {ckpt i : Nat} {c : Bytes}
    (hc : s.dir.file i = some c) {r : WalRecord} (hr : r ∈ s.acked i)
    (hckpt : ckpt ≤ r.lsn) : r ∈ loadAllSegments h s.dir ckpt := by
  have hi : i ≤ s.writer.segmentId := by
    rcases Nat.lt_or_ge s.writer.segmentId i with hlt | hle
    · rw [(hs.log.files.beyond i hlt).2] at hr
      cases hr
    · exact hle
  have hlsn := hs.log.lsns.log_segment i r ((s.acked_sublist_log i).subset hr)
  rw [loadAllSegments, hs.highestSegmentId_eq]
  refine mem_flatMap.mpr ⟨i, ?_, ?_⟩
  · rw [mem_range'_1]
    omega
  · rw [hc]
    dsimp only
    rw [← hs.log.files.load hi hc]
    exact hr

end Load

/-! ## Runs -/

/-- Reclaiming deletes no archived segment but segment 0. -/
def ReclaimSafe (s : WalRun) : WalOp → Prop
  | .reclaim ckpt => ∀ i, i < lsnSegmentId ckpt → 1 ≤ i → s.dir.archive i = none
  | _ => True

instance ReclaimSafe.decidable (s : WalRun) :
    ∀ op, Decidable (ReclaimSafe s op)
  | .reclaim _ => inferInstanceAs (Decidable (∀ i, i < _ → _))
  | .append _ _ | .flush _ | .rotate _ _ | .reopen => isTrue trivial

theorem LoadOk.step {h : WalHash} (s : WalRun) (op : WalOp) (hs : LoadOk h s)
    (hop : ReopenSafe s op ∧ ReclaimSafe s op) : LoadOk h (walStep h s op) := by
  refine ⟨hs.log.step s op hop.1, ?_⟩
  have hflush := hs.present.flush .ok
  cases op with
  | append e o =>
    obtain ⟨⟨rfl, -⟩, -⟩ := hop
    rw [WalRun.append_eq]
    split
    · split
      · exact hflush
      · exact hflush
    · exact hs.present
  | flush o =>
    obtain ⟨rfl, -⟩ := hop
    exact hflush
  | rotate o now =>
    obtain ⟨⟨rfl, -⟩, -⟩ := hop
    rw [WalRun.rotate_eq, flush_ok_succeeds, if_pos rfl]
    exact hflush.advance hs.log.flush.1.files now
  | reclaim ckpt => exact hs.present.reclaim hop.2
  | reopen =>
    obtain ⟨-, hdir, hseg⟩ := hs.log.reopen hop.1.1 hop.1.2
    intro i h1 hi
    rw [hseg] at hi
    rw [hdir]
    exact hs.present i h1 hi

/-- In every state of such a run and for every checkpoint, the loader returns
records in strictly increasing LSN order, each once, and among them every
flushed record from the checkpoint on whose segment file is still there. -/
theorem load_all_segments_complete (h : WalHash) (ops : List WalOp)
    (hops : Guarded (walStep h) (fun s op => ReopenSafe s op ∧ ReclaimSafe s op)
      (WalRun.start h) ops) (n ckpt : Nat) :
    let s := run (walStep h) (WalRun.start h) (ops.take n)
    (loadAllSegments h s.dir ckpt).Pairwise (·.lsn < ·.lsn) ∧
    (loadAllSegments h s.dir ckpt).Nodup ∧
    ∀ i c, s.dir.file i = some c → ∀ r ∈ s.acked i, ckpt ≤ r.lsn →
      r ∈ loadAllSegments h s.dir ckpt := by
  intro s
  have hs : LoadOk h s := run_inv_take LoadOk.step
    ⟨logOk_start h, present_start h 1⟩ hops n
  have hord := hs.load_ordered ckpt
  refine ⟨hord, hord.imp ?_, fun i c hc r hr hckpt =>
    hs.load_complete hc hr hckpt⟩
  intro r q hlt heq
  rw [heq] at hlt
  exact Nat.lt_irrefl _ hlt

/-- Segments 0 and 1 are archived, and segment 0 is reclaimed. -/
theorem load_all_segments_complete_archived :
    let ops : List WalOp :=
      [.append (sampleEntry [1, 2]) .ok, .rotate .ok 0,
        .append (sampleEntry [3]) .ok, .rotate .ok 0, .rotate .ok 0,
        .rotate .ok 0, .append (sampleEntry []) .ok, .flush .ok,
        .reclaim (2 ^ 32)]
    let s := run (walStep WalHash.standard) (WalRun.start WalHash.standard) ops
    s.dir.file 0 = none ∧ s.dir.live 1 = none ∧
      ∀ i c, s.dir.file i = some c → ∀ r ∈ s.acked i, 2 ^ 32 ≤ r.lsn →
        r ∈ loadAllSegments WalHash.standard s.dir (2 ^ 32) := by
  intro ops s
  exact ⟨by decide +kernel, by decide +kernel,
    (load_all_segments_complete WalHash.standard ops (by decide +kernel) 9
      (2 ^ 32)).2.2⟩

/-- With segment 1 reclaimed too, the probe stops there: the loader, started
at the checkpoint, does not return a record flushed to the live segment 4. -/
theorem load_stops_at_reclaimed_segment :
    let ops : List WalOp :=
      [.rotate .ok 0, .rotate .ok 0, .rotate .ok 0, .rotate .ok 0,
        .append (sampleEntry [1]) .ok, .flush .ok, .reclaim (2 * 2 ^ 32)]
    let s := run (walStep WalHash.standard) (WalRun.start WalHash.standard) ops
    (s.dir.live 4).isSome ∧
    (∃ r ∈ s.acked 4, 2 * 2 ^ 32 ≤ r.lsn ∧
      r ∉ loadAllSegments WalHash.standard s.dir (2 * 2 ^ 32)) := by
  decide +kernel

end RGraph.Wal
