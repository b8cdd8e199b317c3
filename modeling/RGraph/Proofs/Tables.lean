import Mathlib.Data.List.Induction
import Mathlib.Data.List.Pairwise
import RGraph.Wal.Aries

/-!
# What the analysis phase puts into its tables

One record changes each table in one way, whatever its type. So an entry of
the dirty page table comes from a page record or from the list of a
`CheckpointEnd`, the first of them in the log for each page, and what is
committed has a commit record.
-/

namespace RGraph.Graph

open RGraph.Lib RGraph.Wal Aries List

theorem analysis_append (rs : List WalRecord) (r : WalRecord) :
    analysis (rs ++ [r]) = analysisStep (analysis rs) r := by
  rw [analysis, foldl_append]
  rfl

theorem analysis_maxLsn (rs : List WalRecord) : (∀ r ∈ rs, r.lsn ≤ (analysis rs).maxLsn) ∧
    ((analysis rs).maxLsn = 0 ∨ ∃ r ∈ rs, r.lsn = (analysis rs).maxLsn) := by
  induction rs using List.reverseRecOn with
  | nil => exact ⟨nofun, Or.inl rfl⟩
  | append_singleton rs r ih =>
    obtain ⟨hle, hmax⟩ := ih
    have hstep : (analysisStep (analysis rs) r).maxLsn = max (analysis rs).maxLsn r.lsn := by
      rw [analysisStep]
      cases r.recordType <;> rfl
    rw [analysis_append, hstep]
    refine ⟨fun q hq => ?_, ?_⟩
    · rcases mem_append.mp hq with hq | hq
      · have := hle q hq
        omega
      · rw [mem_singleton.mp hq]
        omega
    · rcases Nat.le_total r.lsn (analysis rs).maxLsn with h | h
      · rw [Nat.max_eq_left h]
        rcases hmax with h0 | ⟨q, hq, heq⟩
        · exact .inl h0
        · exact .inr ⟨q, mem_append_left _ hq, heq⟩
      · rw [Nat.max_eq_right h]
        exact .inr ⟨r, mem_append_right _ (mem_singleton_self r), rfl⟩

theorem mem_insert_new {α : Type} {c : Prop} [Decidable c] {l : List α}
    {x d : α} (h : d ∈ if c then l else l ++ [x]) : d ∈ l ∨ d = x := by
  split at h
  · exact .inl h
  · simpa using h

/-! ## The dirty page table -/

/-- The dirty pages that the payload of a `CheckpointEnd` lists. -/
def dirtyPages (payload : Bytes) : List DptEntry :=
  let count := beToNat (readAt payload 0 4)
  if payload.length < 4 ∨ payload.length < count * 16 + 4 then []
  else (List.range count).map fun i =>
    ⟨beToNat (readAt payload (4 + i * 16) 8), beToNat (readAt payload (4 + i * 16 + 8) 8)⟩

theorem seedDptFromCheckpoint_eq (payload : Bytes) (dpt : List DptEntry) :
    seedDptFromCheckpoint payload dpt = (dirtyPages payload).foldl orInsertPage dpt := by
  rw [seedDptFromCheckpoint, dirtyPages]
  by_cases h4 : payload.length < 4
  · rw [if_pos h4, if_pos (Or.inl h4)]
    rfl
  · rw [if_neg h4]
    dsimp only
    by_cases hc : payload.length < beToNat (readAt payload 0 4) * 16 + 4
    · rw [if_pos hc, if_pos (Or.inr hc)]
      rfl
    · rw [if_neg hc, if_neg (by omega), foldl_map]

theorem dpt_analysisStep (a : Tables) (r : WalRecord) : (analysisStep a r).dpt =
      if isPageRecord r.recordType then if 8 ≤ r.payload.length then
          orInsertPage a.dpt ⟨pageIdFromPayload r.payload, r.lsn⟩
        else a.dpt
      else if r.recordType = .checkpointEnd then seedDptFromCheckpoint r.payload a.dpt
      else a.dpt := by
  cases ht : r.recordType <;> simp only [analysisStep, ht] <;> rfl

theorem mem_foldl_orInsertPage {d : DptEntry} :
    ∀ {l dpt : List DptEntry}, d ∈ l.foldl orInsertPage dpt → d ∈ dpt ∨ d ∈ l
  | [], _, h => Or.inl h
  | x :: l, dpt, h => by
    rcases mem_foldl_orInsertPage (l := l) h with h | h
    · rcases mem_insert_new h with h | rfl
      · exact .inl h
      · exact .inr mem_cons_self
    · exact .inr (mem_cons_of_mem _ h)

/-- Where an entry of the dirty page table comes from. -/
def PageSource (rs : List WalRecord) (d : DptEntry) : Prop :=
  ∃ r ∈ rs, d.recLsn = r.lsn ∨ (r.recordType = .checkpointEnd ∧ d ∈ dirtyPages r.payload)

variable {rs : List WalRecord}

theorem analysis_pageSource {d : DptEntry} (hd : d ∈ (analysis rs).dpt) : PageSource rs d := by
  induction rs using List.reverseRecOn with
  | nil => cases hd
  | append_singleton rs r ih =>
    have hold : d ∈ (analysis rs).dpt → PageSource (rs ++ [r]) d := by
      intro h
      obtain ⟨q, hq, hsrc⟩ := ih h
      exact ⟨q, mem_append_left _ hq, hsrc⟩
    have hnew := mem_append_right rs (mem_singleton_self r)
    rw [analysis_append, dpt_analysisStep] at hd
    split at hd
    · split at hd
      · rcases mem_insert_new hd with h | rfl
        · exact hold h
        · exact ⟨r, hnew, Or.inl rfl⟩
      · exact hold hd
    · split at hd
      · next ht =>
          rw [seedDptFromCheckpoint_eq] at hd
          rcases mem_foldl_orInsertPage hd with h | h
          · exact hold h
          · exact ⟨r, hnew, Or.inr ⟨ht, h⟩⟩
      · exact hold hd

def dirtyLsn (dpt : List DptEntry) (p : Nat) : Option Nat :=
  (dpt.find? (·.pageId == p)).map DptEntry.recLsn

/-- A page record of the page. -/
def touches (p : Nat) (r : WalRecord) : Bool :=
  isPageRecord r.recordType && decide (8 ≤ r.payload.length) && pageIdFromPayload r.payload == p

/-- The LSNs that a record seeds the page with. -/
def seedsOf (p : Nat) (r : WalRecord) : List Nat :=
  if r.recordType = .checkpointEnd then
    ((dirtyPages r.payload).filter (·.pageId == p)).map DptEntry.recLsn
  else []

def seeds (rs : List WalRecord) (p : Nat) : List Nat := rs.flatMap (seedsOf p)

/-- The LSNs that the log gives for a page, in the order of the log. -/
def mentions (rs : List WalRecord) (p : Nat) : List Nat :=
  rs.flatMap fun r => if touches p r then [r.lsn] else seedsOf p r

/-- Looking up a key in a table that an entry was added to unless its key was
there. -/
theorem find_insert_new {α : Type} (key : α → Nat) (l : List α) (e : α) (k : Nat) :
    (if l.any (key · == key e) then l else l ++ [e]).find? (key · == k) =
      (l.find? (key · == k)).or (if key e = k then some e else none) := by
  split
  · next hany =>
      cases hfind : l.find? (key · == k) with
      | some d => rfl
      | none =>
        rw [if_neg]
        · rfl
        · rintro rfl
          obtain ⟨d, hd, hid⟩ := any_eq_true.mp hany
          exact absurd hid (by simpa using List.find?_eq_none.mp hfind d hd)
  · rw [List.find?_append]
    refine congrArg (Option.or _) ?_
    by_cases h : key e = k <;> simp [h]

theorem dirtyLsn_orInsertPage (dpt : List DptEntry) (e : DptEntry) (p : Nat) :
    dirtyLsn (orInsertPage dpt e) p = (dirtyLsn dpt p).or
      (if e.pageId = p then some e.recLsn else none) := by
  rw [dirtyLsn, orInsertPage, find_insert_new DptEntry.pageId, Option.map_or]
  refine congrArg (Option.or _) ?_
  split <;> rfl

theorem dirtyLsn_seed (l : List DptEntry) (p : Nat) : ∀ dpt : List DptEntry,
    dirtyLsn (l.foldl orInsertPage dpt) p = (dirtyLsn dpt p).or
      ((l.filter (·.pageId == p)).map DptEntry.recLsn).head? := by
  induction l with
  | nil => intro dpt; simp
  | cons e l ih =>
    intro dpt
    rw [foldl_cons, ih, dirtyLsn_orInsertPage, Option.or_assoc]
    refine congrArg (Option.or _) ?_
    by_cases h : e.pageId = p <;> simp [h]

variable {p : Nat} {r : WalRecord}

theorem touches_iff : touches p r = true ↔ isPageRecord r.recordType = true ∧ 8 ≤ r.payload.length ∧
      pageIdFromPayload r.payload = p := by
  simp [touches, and_assoc]

theorem dirtyLsn_analysisStep (a : Tables) (r : WalRecord) (p : Nat) :
    dirtyLsn (analysisStep a r).dpt p = (dirtyLsn a.dpt p).or
      (if touches p r then [r.lsn] else seedsOf p r).head? := by
  rw [dpt_analysisStep]
  by_cases hpage : isPageRecord r.recordType = true
  · have hseeds : seedsOf p r = [] := by
      rw [seedsOf, if_neg (fun h => by rw [h] at hpage; cases hpage)]
    rw [if_pos hpage, hseeds]
    by_cases hlen : 8 ≤ r.payload.length
    · rw [if_pos hlen, dirtyLsn_orInsertPage]
      refine congrArg (Option.or _) ?_
      by_cases hid : pageIdFromPayload r.payload = p
      · rw [if_pos hid, if_pos (touches_iff.mpr ⟨hpage, hlen, hid⟩)]
        rfl
      · rw [if_neg hid, if_neg fun h => hid (touches_iff.mp h).2.2]
        rfl
    · rw [if_neg hlen, if_neg fun h => hlen (touches_iff.mp h).2.1]
      exact (Option.or_none).symm
  · rw [if_neg hpage, if_neg fun h => hpage (touches_iff.mp h).1, seedsOf]
    by_cases hend : r.recordType = .checkpointEnd
    · rw [if_pos hend, if_pos hend, seedDptFromCheckpoint_eq, dirtyLsn_seed]
    · rw [if_neg hend, if_neg hend]
      exact (Option.or_none).symm

/-- What comes first in the log is what the table has. -/
theorem dirtyLsn_analysis (rs : List WalRecord) (p : Nat) :
    dirtyLsn (analysis rs).dpt p = (mentions rs p).head? := by
  induction rs using List.reverseRecOn with
  | nil => rfl
  | append_singleton rs r ih =>
    rw [analysis_append, dirtyLsn_analysisStep, ih, mentions, mentions,
      flatMap_append, List.head?_append]
    simp

theorem mem_mentions {m : Nat} (h : m ∈ mentions rs p) :
    (∃ r ∈ rs, touches p r = true ∧ m = r.lsn) ∨ m ∈ seeds rs p := by
  obtain ⟨r, hr, hm⟩ := mem_flatMap.mp h
  split at hm
  · next ht => exact .inl ⟨r, hr, ht, mem_singleton.mp hm⟩
  · exact .inr (mem_flatMap.mpr ⟨r, hr, hm⟩)

theorem lsn_le_of_find {f : WalRecord → Bool} {q : WalRecord}
    (hsorted : rs.Pairwise (·.lsn < ·.lsn)) (hr : rs.find? f = some r)
    (hq : q ∈ rs) (hf : f q = true) : r.lsn ≤ q.lsn := by
  obtain ⟨-, as, bs, rfl, has⟩ := List.find?_eq_some_iff_append.mp hr
  rcases mem_append.mp hq with hm | hm
  · exact absurd hf (by simpa using has q hm)
  · rcases mem_cons.mp hm with rfl | hm
    · exact Nat.le_refl _
    · have htail := (pairwise_append.mp hsorted).2.1
      exact Nat.le_of_lt ((pairwise_cons.mp htail).1 q hm)

/-- Where no checkpoint lists the page, the first record of it is the one with
the smallest LSN. -/
theorem head_mentions_le {m : Nat} (hsorted : rs.Pairwise (·.lsn < ·.lsn))
    (hseeds : seeds rs p = []) (hm : (mentions rs p).head? = some m)
    (hr : r ∈ rs) (ht : touches p r = true) : m ≤ r.lsn := by
  induction rs with
  | nil => cases hr
  | cons q rs ih =>
    obtain ⟨hq, hrest⟩ := append_eq_nil_iff.mp hseeds
    obtain ⟨hlt, hsorted⟩ := pairwise_cons.mp hsorted
    rw [mentions, flatMap_cons, hq] at hm
    split at hm
    · cases hm
      rcases mem_cons.mp hr with rfl | hr
      · exact Nat.le_refl _
      · exact Nat.le_of_lt (hlt r hr)
    · next hne =>
        rcases mem_cons.mp hr with rfl | hr
        · exact absurd ht hne
        · exact ih hsorted hrest hm hr

theorem exists_mention (hr : r ∈ rs) (ht : touches p r = true) :
    ∃ m, (mentions rs p).head? = some m := by
  rw [← Option.isSome_iff_exists, isSome_head?]
  have hmem : r.lsn ∈ mentions rs p := mem_flatMap.mpr
    ⟨r, hr, by rw [if_pos ht]; exact mem_singleton_self _⟩
  exact ne_nil_of_mem hmem

/-! ## The transaction table -/

/-- The record types that belong to a transaction. -/
def isTxRecord : RecordType → Bool
  | .checkpointBegin | .checkpointEnd | .segmentDescriptor
  | .compactionBegin | .compactionEnd => false
  | _ => true

def endStatus : RecordType → Option TxStatus
  | .commit => some .committed
  | .abort => some .aborted
  | _ => none

theorem att_analysisStep (a : Tables) (r : WalRecord) :
    (analysisStep a r).att = if isTxRecord r.recordType then
        touch (match endStatus r.recordType with
          | some s => setStatus (orInsert a.att ⟨r.txid, s, r.lsn⟩) r.txid s
          | none =>
            if r.recordType = .begin then
              orInsert a.att ⟨r.txid, .active, r.lsn⟩
            else a.att) r.txid r.lsn
      else a.att := by
  cases ht : r.recordType <;> simp only [analysisStep, ht] <;> rfl

variable {e : AttEntry}

theorem mem_touch {att : List AttEntry} {txid lsn : Nat} (h : e ∈ touch att txid lsn) :
    ∃ e' ∈ att, e'.status = e.status ∧ e'.txid = e.txid := by
  obtain ⟨e', he', rfl⟩ := mem_map.mp h
  refine ⟨e', he', ?_⟩
  split <;> exact ⟨rfl, rfl⟩

theorem mem_setStatus {att : List AttEntry} {txid : Nat} {status : TxStatus}
    (h : e ∈ setStatus att txid status) : e ∈ att ∨ (e.txid = txid ∧ e.status = status) := by
  obtain ⟨e', he', rfl⟩ := mem_map.mp h
  split
  · next ht => exact .inr ⟨ht, rfl⟩
  · exact .inl he'

/-- Only a commit record makes a transaction committed. -/
theorem analysis_committed (he : e ∈ (analysis rs).att) (hst : e.status = .committed) :
    ∃ c ∈ rs, c.recordType = .commit ∧ c.txid = e.txid := by
  induction rs using List.reverseRecOn generalizing e with
  | nil => cases he
  | append_singleton rs r ih =>
    have hold : ∀ e' ∈ (analysis rs).att, e'.status = .committed →
        e'.txid = e.txid → ∃ c ∈ rs ++ [r], c.recordType = .commit ∧ c.txid = e.txid := by
      intro e' he' hst' htx
      obtain ⟨c, hc, htype, hctx⟩ := ih he' hst'
      exact ⟨c, mem_append_left _ hc, htype, hctx.trans htx⟩
    have hnew : endStatus r.recordType = some .committed →
        r.txid = e.txid → ∃ c ∈ rs ++ [r], c.recordType = .commit ∧ c.txid = e.txid := by
      intro hend htx
      refine ⟨r, mem_append_right _ (mem_singleton_self r), ?_, htx⟩
      cases ht : r.recordType <;> rw [ht] at hend <;> first | rfl | cases hend
    rw [analysis_append, att_analysisStep] at he
    split at he
    · obtain ⟨e', he', h1, h2⟩ := mem_touch he
      rw [← h1] at hst
      split at he'
      · next hend =>
          rcases mem_setStatus he' with he' | ⟨htx, hs⟩
          · rcases mem_insert_new he' with he' | rfl
            · exact hold e' he' hst h2
            · exact hnew (hst ▸ hend) h2
          · exact hnew (hst ▸ hs ▸ hend) (htx ▸ h2)
      · split at he'
        · rcases mem_insert_new he' with he' | rfl
          · exact hold e' he' hst h2
          · cases hst
        · exact hold e' he' hst h2
    · exact hold e he hst rfl

end RGraph.Graph
