import RGraph.Graph.EngineLog
import RGraph.Lib.Replay
import RGraph.Proofs.Tables
import RGraph.Wal.DoubleWrite

/-!
# The phases of recovery on an engine log

On a log of page, commit and abort records in which no transaction id comes
back after its end record, each phase has a simple meaning. Analysis lists the
end records. Redo replays the images of the committed transactions, newest
wins. Undo starts every chain at an abort record, which has no `prev_lsn`, and
so does nothing.
-/

namespace RGraph.Graph

open RGraph.Lib RGraph.Storage RGraph.Wal Aries List

/-! ## Page images -/

/-- The LSN a page carries. -/
def pageLsn (page : Bytes) : Nat := beToNat (readAt page 0 8)

theorem readPageLsn_eq {data : Bytes} (hdiv : pageSize ∣ data.length)
    (p : Nat) : readPageLsn data p = pageLsn (pageAt data p) := by
  rw [readPageLsn, pageLsn, pageAt, readAt_readAt _ (by decide), Nat.add_zero (p * pageSize)]
  split
  · next hlt =>
      -- a file of whole pages does not end inside a page header
      obtain ⟨k, hk⟩ := hdiv
      have hle : k ≤ p := by
        by_contra hlt'
        have := Nat.mul_le_mul_left pageSize (Nat.succ_le_of_lt (Nat.not_le.mp hlt'))
        rw [Nat.mul_succ, Nat.mul_comm] at this
        have : 8 ≤ pageSize := by decide
        omega
      have hend : data.length ≤ p * pageSize := by
        rw [hk, Nat.mul_comm]
        exact Nat.mul_le_mul_right _ hle
      rw [readAt, drop_eq_nil_of_le hend]
      rfl
  · rfl

section Image

variable {crc : Crc32c} {w : PageWrite} {lsn : Nat}

theorem length_stamped (w : PageWrite) (lsn : Nat) :
    (writeAt w.image 0 (natToBE 8 lsn)).length = pageSize := by
  rw [length_writeAt, length_natToBE, w.length_image]
  rfl

theorem length_afterImage (crc : Crc32c) (w : PageWrite) (lsn : Nat) :
    (w.afterImage crc lsn).length = pageSize :=
  length_updateChecksumBytes crc (length_stamped w lsn)

theorem pageLsn_afterImage (h : lsn < 2 ^ 64) : pageLsn (w.afterImage crc lsn) = lsn := by
  have hself := readAt_writeAt_self w.image 0 (natToBE 8 lsn)
  rw [length_natToBE] at hself
  rw [pageLsn, PageWrite.afterImage, updateChecksumBytes,
    readAt_writeAt_ne _ (Or.inl (by decide)), hself]
  exact beToNat_natToBE 8 lsn h

/-- Redo writes the bytes that the engine itself writes after a commit. -/
theorem applyAfterImage_eq (crc : Crc32c) (data : Bytes) (w : PageWrite)
    (lsn : Nat) : applyAfterImage crc data w.pageId w.image lsn =
      writeAt data (w.pageId * pageSize) (w.afterImage crc lsn) := by
  have hmagic : hasValidMagicBytes (writeAt w.image 0 (natToBE 8 lsn)) := by
    have := w.magic
    rw [hasValidMagicBytes, length_stamped, readAt_writeAt_ne _
      (Or.inr (by rw [length_natToBE]; decide)), ← w.length_image]
    exact this
  rw [applyAfterImage, w.length_image, Nat.min_self,
    take_of_length_le (Nat.le_of_eq w.length_image),
    setLen_eq_self w.length_image, if_pos ⟨rfl, hmagic⟩]
  rfl

end Image

/-! ## The records of an engine log -/

def IsPage (w : PageWrite) (r : WalRecord) : Prop :=
  r.recordType = .pageInsert ∧ r.payload = w.payload

def IsEnd (r : WalRecord) : Prop := (r.recordType = .commit ∨ r.recordType = .abort) ∧ r.prevLsn = 0

def EngineRecord (r : WalRecord) : Prop := ((∃ w, IsPage w r) ∨ IsEnd r) ∧ r.lsn < 2 ^ 64

variable {r : WalRecord} {w : PageWrite}

theorem IsPage.extract (hr : IsPage w r) : extractPageAndImage r = some (w.pageId, w.image) := by
  have hlt : w.pageId < 2 ^ 64 := Nat.lt_trans w.pageId_lt (by decide)
  rw [extractPageAndImage, hr.1, hr.2, PageWrite.payload, if_neg (by decide),
    if_neg (by simp), pageIdFromPayload,
    readAt_append_left _ _ (length_natToBE _ _), beToNat_natToBE 8 _ hlt,
    drop_left' (length_natToBE _ _)]

theorem IsPage.pageId_eq (hr : IsPage w r) :
    pageIdFromPayload r.payload = w.pageId ∧ 8 ≤ r.payload.length := by
  have hlt : w.pageId < 2 ^ 64 := Nat.lt_trans w.pageId_lt (by decide)
  rw [hr.2, PageWrite.payload, pageIdFromPayload,
    readAt_append_left _ _ (length_natToBE _ _), beToNat_natToBE 8 _ hlt]
  exact ⟨rfl, by simp⟩

theorem EngineRecord.isEnd (hr : EngineRecord r) (ht : r.recordType ≠ .pageInsert) : IsEnd r := by
  rcases hr.1 with ⟨w, hw⟩ | hend
  · exact absurd hw.1 ht
  · exact hend

theorem EngineRecord.isPage (hr : EngineRecord r)
    (ht : r.recordType = .pageInsert) : ∃ w, IsPage w r := by
  rcases hr.1 with hw | hend
  · exact hw
  · rcases hend.1 with h | h <;> rw [h] at ht <;> cases ht

theorem IsEnd.ne_page (hr : IsEnd r) : r.recordType ≠ .pageInsert := by
  rcases hr.1 with h | h <;> rw [h] <;> decide

/-! ## Analysis -/

section Analysis

variable {att : List AttEntry} {txid : Nat}

theorem touch_of_not_mem (lsn : Nat) (h : ∀ e ∈ att, e.txid ≠ txid) : touch att txid lsn = att := by
  rw [touch]
  refine (map_congr_left fun e he => ?_).trans (map_id att)
  rw [if_neg fun hc => h e he hc.1]
  rfl

theorem setStatus_of_not_mem (status : TxStatus)
    (h : ∀ e ∈ att, e.txid ≠ txid) : setStatus att txid status = att := by
  rw [setStatus]
  refine (map_congr_left fun e he => ?_).trans (map_id att)
  rw [if_neg (h e he)]
  rfl

/-- The first record of a transaction that ends it adds its entry. -/
theorem end_entry {status : TxStatus} {lsn : Nat} (h : ∀ e ∈ att, e.txid ≠ txid) :
    touch (setStatus (orInsert att ⟨txid, status, lsn⟩) txid status) txid lsn =
      att ++ [⟨txid, status, lsn⟩] := by
  have hany : ¬ att.any (·.txid == txid) := by
    simpa using h
  rw [orInsert, if_neg hany, setStatus, map_append, ← setStatus,
    setStatus_of_not_mem status h, touch, map_append, ← touch,
    touch_of_not_mem lsn h]
  simp

end Analysis

/-- What an end record leaves in the transaction table. -/
def attEntry (r : WalRecord) : Option AttEntry :=
  match r.recordType with
  | .commit => some ⟨r.txid, .committed, r.lsn⟩
  | .abort => some ⟨r.txid, .aborted, r.lsn⟩
  | _ => none

/-- No record carries the id of a transaction that has ended. -/
def EndsLast (rs : List WalRecord) : Prop := rs.Pairwise fun r q => IsEnd r → q.txid ≠ r.txid

theorem attEntry_eq_some {e : AttEntry} (h : attEntry r = some e) :
    (r.recordType = .commit ∧ e = ⟨r.txid, .committed, r.lsn⟩) ∨
    (r.recordType = .abort ∧ e = ⟨r.txid, .aborted, r.lsn⟩) := by
  rw [attEntry] at h
  split at h
  · next ht => exact .inl ⟨ht, (Option.some.inj h).symm⟩
  · next ht => exact .inr ⟨ht, (Option.some.inj h).symm⟩
  · cases h

theorem isEnd_of_attEntry {e : AttEntry} (hr : EngineRecord r)
    (h : attEntry r = some e) : IsEnd r := by
  rcases hr.1 with ⟨w, ht, -⟩ | hend
  · rw [attEntry, ht] at h
    cases h
  · exact hend

variable {rs : List WalRecord}

theorem analysis_att (hrs : ∀ r ∈ rs, EngineRecord r) (hends : EndsLast rs) :
    (analysis rs).att = rs.filterMap attEntry := by
  induction rs using List.reverseRecOn with
  | nil => rfl
  | append_singleton rs r ih =>
    rw [EndsLast, pairwise_append] at hends
    obtain ⟨hends, -, hr⟩ := hends
    have ih := ih (fun q hq => hrs q (mem_append_left _ hq)) hends
    have hnew : ∀ e ∈ (analysis rs).att, e.txid ≠ r.txid := by
      rw [ih]
      intro e he
      obtain ⟨q, hq, hqe⟩ := mem_filterMap.mp he
      have hend := isEnd_of_attEntry (hrs q (mem_append_left _ hq)) hqe
      have hne := hr q hq r (mem_singleton_self r) hend
      rcases attEntry_eq_some hqe with ⟨-, rfl⟩ | ⟨-, rfl⟩
      · exact hne.symm
      · exact hne.symm
    rw [analysis_append, filterMap_append, ← ih]
    rcases (hrs r (mem_append_right _ (mem_singleton_self r))).1 with ⟨w, ht, -⟩ | ⟨ht | ht, -⟩
    · simp only [analysisStep, ht, touch_of_not_mem _ hnew, attEntry,
        filterMap_cons, filterMap_nil, append_nil]
    · simp only [analysisStep, ht, end_entry hnew, attEntry, filterMap_cons, filterMap_nil]
    · simp only [analysisStep, ht, end_entry hnew, attEntry, filterMap_cons, filterMap_nil]

/-- The page table covers every page record from its LSN on, and starts at no
LSN that the log does not have. -/
theorem analysis_dpt (hrs : ∀ r ∈ rs, EngineRecord r) (hsorted : rs.Pairwise (·.lsn < ·.lsn)) :
    (∀ r ∈ rs, ∀ w, IsPage w r → ∃ e ∈ (analysis rs).dpt, e.pageId = w.pageId ∧ e.recLsn ≤ r.lsn) ∧
    ∀ e ∈ (analysis rs).dpt, ∃ r ∈ rs, r.lsn = e.recLsn := by
  have hno : ∀ r ∈ rs, r.recordType ≠ .checkpointEnd := by
    intro r hr
    rcases (hrs r hr).1 with ⟨w, ht, -⟩ | ⟨ht | ht, -⟩ <;> rw [ht] <;> decide
  refine ⟨fun r hr w hw => ?_, fun e he => ?_⟩
  · have hseeds : seeds rs w.pageId = [] :=
      flatMap_eq_nil_iff.mpr fun q hq => if_neg (hno q hq)
    have ht : touches w.pageId r = true := touches_iff.mpr
      ⟨by rw [hw.1]; rfl, hw.pageId_eq.2, hw.pageId_eq.1⟩
    obtain ⟨m, hm⟩ := exists_mention hr ht
    have hle := head_mentions_le hsorted hseeds hm hr ht
    rw [← dirtyLsn_analysis] at hm
    obtain ⟨e, he, rfl⟩ := Option.map_eq_some_iff.mp hm
    exact ⟨e, mem_of_find?_eq_some he, by simpa using List.find?_some he, hle⟩
  · obtain ⟨r, hr, hlsn | ⟨ht, -⟩⟩ := analysis_pageSource he
    · exact ⟨r, hr, hlsn.symm⟩
    · exact absurd ht (hno r hr)

/-! ## Redo -/

def recordPage (r : WalRecord) : Nat := pageIdFromPayload r.payload

/-- The after-image of a page record. -/
def recordImage (crc : Crc32c) (r : WalRecord) : Bytes :=
  updateChecksumBytes crc (writeAt (r.payload.drop 8) 0 (natToBE 8 r.lsn))

theorem IsPage.recordImage_eq (hr : IsPage w r) (crc : Crc32c) :
    recordImage crc r = w.afterImage crc r.lsn := by
  rw [recordImage, hr.2, PageWrite.payload, drop_left' (length_natToBE _ _)]
  rfl

/-- What redo writes for a record, if the page is older. -/
def redoWrite (crc : Crc32c) (a : Tables) (minRecLsn : Nat) (r : WalRecord) :
    Option (Nat × Bytes) :=
  if minRecLsn ≤ r.lsn ∧ r.recordType = .pageInsert ∧
      statusOf a.att r.txid = some .committed ∧
      a.dpt.any (·.pageId == recordPage r) then
    some (recordPage r, recordImage crc r)
  else none

section Redo

variable {crc : Crc32c} {a : Tables} {m : Nat}

theorem redoStep_none {r : WalRecord} (hr : EngineRecord r)
    (h : redoWrite crc a m r = none) (acc : Bytes × Nat) : redoStep crc a m acc r = acc := by
  have hno := (ite_eq_right_iff.mp h).mt (by simp)
  rw [redoStep]
  split
  · rfl
  next hm =>
  rcases hr.1 with ⟨w, hw⟩ | hend
  · rw [hw.extract, hw.1]
    dsimp only
    split
    · rfl
    split
    · rfl
    next hst =>
    rw [if_pos ?_]
    intro hany
    refine hno ⟨Nat.not_lt.mp hm, hw.1, ?_, ?_⟩
    · by_contra hne
      exact hst ⟨by decide, hne⟩
    · rw [recordPage, hw.pageId_eq.1]
      exact hany
  · rw [if_pos ?_]
    rcases hend.1 with ht | ht <;> rw [ht] <;> decide

theorem redoStep_some {r : WalRecord} (hr : EngineRecord r) {u : Nat × Bytes}
    (h : redoWrite crc a m r = some u) (acc : Bytes × Nat) :
    (redoStep crc a m acc r).1 = (if r.lsn ≤ readPageLsn acc.1 u.1 then acc.1
      else writeAt acc.1 (u.1 * pageSize) u.2) ∧
    u.2.length = pageSize ∧ pageLsn u.2 = r.lsn := by
  rw [redoWrite] at h
  split at h
  · next hyes =>
      obtain ⟨hm, ht, hst, hany⟩ := hyes
      cases h
      rcases hr.1 with ⟨w, hw⟩ | hend
      · rw [recordPage, hw.pageId_eq.1] at hany
        rw [hw.recordImage_eq, recordPage, hw.pageId_eq.1]
        refine ⟨?_, length_afterImage _ _ _, pageLsn_afterImage hr.2⟩
        rw [redoStep, if_neg (Nat.not_lt.mpr hm), if_neg ?_, if_neg ?_, hw.extract]
        · dsimp only
          rw [if_neg (not_not.mpr hany), applyAfterImage_eq]
          split <;> rfl
        · exact fun hc => hc.2 hst
        · rw [ht]
          decide
      · exact absurd ht hend.ne_page
  · cases h

/-- Redo on the file is a replay on its pages. -/
theorem redo_fold {rs : List WalRecord} (hrs : ∀ r ∈ rs, EngineRecord r)
    (acc : Bytes × Nat) (hdiv : pageSize ∣ acc.1.length) :
    pageSize ∣ (rs.foldl (redoStep crc a m) acc).1.length ∧
    pageAt (rs.foldl (redoStep crc a m) acc).1 =
      replay pageLsn (pageAt acc.1) (rs.filterMap (redoWrite crc a m)) := by
  induction rs generalizing acc with
  | nil => exact ⟨hdiv, rfl⟩
  | cons r rs ih =>
    have hr := hrs r mem_cons_self
    have ih := fun acc => ih (fun q hq => hrs q (mem_cons_of_mem _ hq)) acc
    rw [foldl_cons]
    cases hu : redoWrite crc a m r with
    | none =>
      rw [redoStep_none hr hu, filterMap_cons_none hu]
      exact ih acc hdiv
    | some u =>
      obtain ⟨hstep, hlen, hlsn⟩ := redoStep_some hr hu acc
      rw [filterMap_cons_some hu]
      rw [readPageLsn_eq hdiv, ← hlsn] at hstep
      have hdiv' : pageSize ∣ (redoStep crc a m acc r).1.length := by
        rw [hstep]
        split
        · exact hdiv
        · rw [length_writeAt, hlen, ← Nat.succ_mul]
          rcases Nat.le_total acc.1.length (u.1.succ * pageSize) with h | h
          · rw [Nat.max_eq_right h]
            exact Nat.dvd_mul_left _ _
          · rw [Nat.max_eq_left h]
            exact hdiv
      have hpages : pageAt (redoStep crc a m acc r).1 =
          replayStep pageLsn (pageAt acc.1) u := by
        rw [hstep, replayStep]
        split
        · rfl
        · funext q
          by_cases hq : q = u.1
          · subst hq
            rw [pageAt_writeAt_self hlen, Function.update_self]
          · rw [pageAt_writeAt_ne hlen hq, Function.update_of_ne hq]
      obtain ⟨h1, h2⟩ := ih _ hdiv'
      refine ⟨h1, h2.trans ?_⟩
      rw [hpages]
      rfl

end Redo

/-- The records from the checkpoint on. -/
def since (ckpt : Nat) (rs : List WalRecord) : List WalRecord := rs.filter fun r => r.lsn ≥ ckpt

theorem mem_since {ckpt : Nat} : r ∈ since ckpt rs ↔ r ∈ rs ∧ ckpt ≤ r.lsn := by
  rw [since, mem_filter, decide_eq_true_eq]

/-- A page record whose transaction id has a commit record. -/
def Wins (ckpt : Nat) (rs : List WalRecord) (r : WalRecord) : Prop :=
  r ∈ since ckpt rs ∧ r.recordType = .pageInsert ∧
    ∃ c ∈ since ckpt rs, c.recordType = .commit ∧ c.txid = r.txid

theorem Wins.isPage {ckpt : Nat} (hwin : Wins ckpt rs r)
    (hrs : ∀ r ∈ rs, EngineRecord r) : ∃ w, IsPage w r :=
  (hrs r (mem_since.mp hwin.1).1).isPage hwin.2.1

/-- Two items of a list come in one order or in the other. -/
theorem pairwise_or {α : Type*} {R : α → α → Prop} {l : List α} {a b : α}
    (hl : l.Pairwise R) (ha : a ∈ l) (hb : b ∈ l) (hne : a ≠ b) : R a b ∨ R b a := by
  have hsymm : Std.Symm fun a b => R a b ∨ R b a := ⟨fun _ _ => Or.symm⟩
  have hor : l.Pairwise fun a b => R a b ∨ R b a := hl.imp fun h => Or.inl h
  exact hor.forall ha hb hne

theorem EndsLast.unique (hends : EndsLast rs) {q : WalRecord} (hr : r ∈ rs)
    (hq : q ∈ rs) (hre : IsEnd r) (hqe : IsEnd q) (htx : r.txid = q.txid) : r = q := by
  by_contra hne
  rcases pairwise_or hends hr hq hne with h | h
  · exact h hre htx.symm
  · exact h hqe htx

theorem eq_of_lsn (hsorted : rs.Pairwise (·.lsn < ·.lsn)) {q : WalRecord}
    (hr : r ∈ rs) (hq : q ∈ rs) (hlsn : r.lsn = q.lsn) : r = q := by
  by_contra hne
  rcases pairwise_or hsorted hr hq hne with h | h <;> omega

section Phases

variable {h : WalHash} {crc : Crc32c} {ckpt now : Nat} {rs : List WalRecord}

theorem statusOf_committed (hrs : ∀ r ∈ rs, EngineRecord r) (hends : EndsLast rs) (txid : Nat) :
    statusOf (analysis rs).att txid = some .committed ↔
      ∃ c ∈ rs, c.recordType = .commit ∧ c.txid = txid := by
  rw [statusOf, analysis_att hrs hends]
  constructor
  · intro hst
    obtain ⟨e, he, hcom⟩ := Option.map_eq_some_iff.mp hst
    obtain ⟨c, hc, hce⟩ := mem_filterMap.mp (mem_of_find?_eq_some he)
    have htx : e.txid = txid := by simpa using List.find?_some he
    rcases attEntry_eq_some hce with ⟨ht, rfl⟩ | ⟨-, rfl⟩
    · exact ⟨c, hc, ht, htx⟩
    · cases hcom
  · rintro ⟨c, hc, ht, rfl⟩
    have hentry : attEntry c = some ⟨c.txid, .committed, c.lsn⟩ := by
      rw [attEntry, ht]
    have hsome : ((rs.filterMap attEntry).find? (·.txid == c.txid)).isSome :=
      List.find?_isSome.mpr ⟨_, mem_filterMap.mpr ⟨c, hc, hentry⟩, beq_self_eq_true _⟩
    obtain ⟨e, he⟩ := Option.isSome_iff_exists.mp hsome
    obtain ⟨q, hq, hqe⟩ := mem_filterMap.mp (mem_of_find?_eq_some he)
    have hqc : q = c := by
      refine hends.unique hq hc (isEnd_of_attEntry (hrs q hq) hqe)
        (isEnd_of_attEntry (hrs c hc) hentry) ?_
      have htx : e.txid = c.txid := by simpa using List.find?_some he
      rcases attEntry_eq_some hqe with ⟨-, rfl⟩ | ⟨-, rfl⟩ <;> exact htx
    subst hqc
    rw [hentry] at hqe
    cases hqe
    rw [he]
    rfl

theorem min_recLsn {dpt : List DptEntry} (hne : dpt ≠ []) :
    (∃ e ∈ dpt, e.recLsn = ((dpt.map (·.recLsn)).min?).getD 0) ∧
    ∀ e ∈ dpt, ((dpt.map (·.recLsn)).min?).getD 0 ≤ e.recLsn := by
  obtain ⟨m, hm⟩ : ∃ m, (dpt.map (·.recLsn)).min? = some m :=
    Option.isSome_iff_exists.mp (isSome_min?_of_mem (mem_map_of_mem (head_mem hne)))
  obtain ⟨hmem, hle⟩ := List.min?_eq_some_iff.mp hm
  rw [hm, Option.getD_some]
  refine ⟨mem_map.mp hmem, fun e he => hle _ (mem_map_of_mem he)⟩

variable {r : WalRecord}

theorem redoWrite_iff (hrs : ∀ r ∈ rs, EngineRecord r)
    (hsorted : rs.Pairwise (·.lsn < ·.lsn)) (hends : EndsLast (since ckpt rs))
    (hne : (analysis (since ckpt rs)).dpt ≠ []) (hr : r ∈ rs) {u : Nat × Bytes} :
    redoWrite crc (analysis (since ckpt rs))
      ((((analysis (since ckpt rs)).dpt.map (·.recLsn)).min?).getD 0) r = some u ↔
      Wins ckpt rs r ∧ (recordPage r, recordImage crc r) = u := by
  have hrs' : ∀ q ∈ since ckpt rs, EngineRecord q := fun q hq => hrs q (mem_since.mp hq).1
  obtain ⟨⟨e, he, hmin⟩, hle⟩ := min_recLsn hne
  obtain ⟨hcover, hfrom⟩ := analysis_dpt hrs' (hsorted.sublist filter_sublist)
  rw [redoWrite, Option.ite_none_right_eq_some, Option.some.injEq, statusOf_committed hrs' hends]
  refine and_congr_left fun _ => ⟨?_, ?_⟩
  · rintro ⟨hm, ht, hc, -⟩
    obtain ⟨q, hq, hlsn⟩ := hfrom e he
    have := (mem_since.mp hq).2
    exact ⟨mem_since.mpr ⟨hr, by omega⟩, ht, hc⟩
  · intro hwin
    obtain ⟨w, hw⟩ := hwin.isPage hrs
    obtain ⟨hmem, ht, hc⟩ := hwin
    obtain ⟨x, hx, hid, hlsn⟩ := hcover r hmem w hw
    refine ⟨Nat.le_trans (hle x hx) hlsn, ht, hc, ?_⟩
    rw [any_eq_true]
    exact ⟨x, hx, by rw [recordPage, hw.pageId_eq.1, hid, beq_self_eq_true]⟩

theorem lsnIndex_eq (hsorted : rs.Pairwise (·.lsn < ·.lsn)) (hr : r ∈ rs) :
    lsnIndex rs r.lsn = some r := by
  rw [lsnIndex]
  have hsome : (rs.reverse.find? (·.lsn == r.lsn)).isSome :=
    List.find?_isSome.mpr ⟨r, mem_reverse.mpr hr, beq_self_eq_true _⟩
  obtain ⟨q, hq⟩ := Option.isSome_iff_exists.mp hsome
  have hlsn : q.lsn = r.lsn := by simpa using List.find?_some hq
  rw [hq, eq_of_lsn hsorted (mem_reverse.mp (mem_of_find?_eq_some hq)) hr hlsn]

theorem foldlM_const {α β : Type*} {f : β → α → Option β} {b : β}
    {as : List α} (hf : ∀ a ∈ as, f b a = some b) : as.foldlM f b = some b := by
  induction as with
  | nil => rfl
  | cons a as ih =>
    rw [foldlM_cons, hf a mem_cons_self]
    exact ih fun x hx => hf x (mem_cons_of_mem _ hx)

/-- Every chain starts at an abort record and ends there. -/
theorem undo_eq (hrs : ∀ r ∈ rs, EngineRecord r) (hsorted : rs.Pairwise (·.lsn < ·.lsn))
    (hends : EndsLast (since ckpt rs)) (data : Bytes) :
    undo h now (analysis (since ckpt rs)) rs data = some ⟨data, []⟩ := by
  rw [undo]
  refine foldlM_const fun e he => ?_
  rw [toUndo, mem_insertionSort, mem_filter] at he
  obtain ⟨he, hst⟩ := he
  rw [analysis_att (fun q hq => hrs q (mem_since.mp hq).1) hends] at he
  obtain ⟨r, hr, hre⟩ := mem_filterMap.mp he
  obtain ⟨hmem, -⟩ := mem_since.mp hr
  have hprev := (isEnd_of_attEntry (hrs r hmem) hre).2
  rcases attEntry_eq_some hre with ⟨-, rfl⟩ | ⟨ht, rfl⟩
  · simp at hst
  · rw [undoChain, lsnIndex_eq hsorted hmem]
    dsimp only
    rw [ht, if_neg (by decide), hprev, if_pos rfl, undoRecord, ht, if_neg (by decide)]

/-- Without before-images undo only writes zeros: a page that is zero stays
so. -/
theorem undoRecord_zero {u : Undone} {p : Nat} (hb : extractBeforeImage h r.payload = none)
    (hu : pageAt u.data p = List.replicate pageSize 0) :
    pageAt (undoRecord h now r u).data p = List.replicate pageSize 0 := by
  have hinv : ∀ q, pageAt (applyInverse h u.data r q) p = List.replicate pageSize 0 := by
    intro q
    rw [applyInverse, hb]
    dsimp only
    split
    · have hlen : (List.replicate pageSize (0 : UInt8)).length = pageSize :=
        length_replicate ..
      by_cases hp : p = q
      · rw [hp, pageAt_writeAt_self hlen]
      · rw [pageAt_writeAt_ne hlen hp, hu]
    · exact hu
  rw [undoRecord]
  split
  · split
    · exact hinv _
    · exact hu
  · exact hu

/-- The inverse of a page insert without a before-image is a zero page. -/
theorem undoRecord_page {w : PageWrite} (hr : IsPage w r)
    (hb : extractBeforeImage h r.payload = none) (u : Undone) :
    pageAt (undoRecord h now r u).data w.pageId = List.replicate pageSize 0 := by
  rw [undoRecord, hr.1, if_pos (by decide), hr.extract]
  dsimp only
  rw [applyInverse, hb, hr.1]
  dsimp only
  rw [if_pos (Or.inl rfl)]
  exact pageAt_writeAt_self (length_replicate ..)

/-- What undoing one record keeps, undoing a chain of records keeps. -/
theorem undoChain_inv {P : Undone → Prop} (hrec : ∀ r ∈ rs, ∀ u, P u → P (undoRecord h now r u)) :
    ∀ {fuel lsn : Nat} {u u' : Undone}, P u → undoChain h now rs fuel lsn u = some u' → P u' := by
  intro fuel
  induction fuel with
  | zero => intro lsn u u' _ hchain; cases hchain
  | succ fuel ih =>
    intro lsn u u' hu hchain
    rw [undoChain] at hchain
    split at hchain
    · cases hchain
      exact hu
    · next r hr =>
        have hmem := mem_reverse.mp (mem_of_find?_eq_some hr)
        split at hchain
        · dsimp only at hchain
          split at hchain
          · cases hchain
            exact hu
          · exact ih hu hchain
        · dsimp only at hchain
          split at hchain
          · cases hchain
            exact hrec r hmem u hu
          · exact ih (hrec r hmem u hu) hchain

theorem runAllPhases_eq (hrs : ∀ r ∈ rs, EngineRecord r) (hsorted : rs.Pairwise (·.lsn < ·.lsn))
    (hends : EndsLast (since ckpt rs)) (data : Bytes) : runAllPhases h crc now ckpt rs data = some
      ⟨analysis (since ckpt rs), (redo crc (analysis (since ckpt rs)) rs data).2,
        (redo crc (analysis (since ckpt rs)) rs data).1, []⟩ := by
  rw [runAllPhases, ← since]
  dsimp only
  rw [undo_eq hrs hsorted hends]

/-- Redo replays the images of the winners, in the order of their LSNs. -/
theorem redo_eq_replay (hrs : ∀ r ∈ rs, EngineRecord r) (hsorted : rs.Pairwise (·.lsn < ·.lsn))
    (hends : EndsLast (since ckpt rs)) {data : Bytes} (hdiv : pageSize ∣ data.length) :
    ∃ ws, pageAt (redo crc (analysis (since ckpt rs)) rs data).1 = replay pageLsn (pageAt data) ws ∧
      ws.Pairwise (fun u v => pageLsn u.2 < pageLsn v.2) ∧
      ∀ u, u ∈ ws ↔ ∃ r, Wins ckpt rs r ∧ (recordPage r, recordImage crc r) = u := by
  by_cases hne : (analysis (since ckpt rs)).dpt = []
  · rw [redo, hne]
    refine ⟨[], rfl, List.Pairwise.nil, fun u => ⟨nofun, ?_⟩⟩
    rintro ⟨r, hwin, -⟩
    obtain ⟨w, hw⟩ := hwin.isPage hrs
    obtain ⟨e, he, -⟩ := (analysis_dpt (fun q hq => hrs q (mem_since.mp hq).1)
      (hsorted.sublist filter_sublist)).1 r hwin.1 w hw
    rw [hne] at he
    cases he
  · have hempty : ¬ (analysis (since ckpt rs)).dpt.isEmpty := by
      rwa [List.isEmpty_iff]
    rw [redo, if_neg hempty]
    refine ⟨_, (redo_fold hrs (data, 0) hdiv).2, ?_, fun u => ?_⟩
    · rw [pairwise_filterMap]
      refine hsorted.imp_of_mem fun hr hq hlt u hu v hv => ?_
      rw [(redoStep_some (hrs _ hr) hu (data, 0)).2.2, (redoStep_some (hrs _ hq) hv (data, 0)).2.2]
      exact hlt
    · rw [mem_filterMap]
      constructor
      · rintro ⟨r, hr, hu⟩
        exact ⟨r, (redoWrite_iff hrs hsorted hends hne hr).mp hu⟩
      · rintro ⟨r, hwin, hu⟩
        have hr := (mem_since.mp hwin.1).1
        exact ⟨r, hr, (redoWrite_iff hrs hsorted hends hne hr).mpr ⟨hwin, hu⟩⟩

end Phases

end RGraph.Graph
