import RGraph.Proofs.Tables

/-!
# The tables of the analysis phase, in closed form

The dirty page table has, for each page, the LSN of the first thing in the log
that names it: a page record, or the list of a `CheckpointEnd`. The smaller of
the two is asked for, and the code says that the oldest LSN wins; it does when
what comes first is also the smallest.

The transaction table has an entry for each transaction with a begin, commit
or abort record. The other records of a transaction raise its last LSN but do
not enter it, so one that began before the first record is missing until it
ends.
-/

namespace RGraph.Graph

open RGraph.Lib RGraph.Wal Aries List

/-! ## The dirty page table -/

/-- Each page with a page record has the smallest of the LSN of the first one
and of those it is seeded with. -/
def DptExact (rs : List WalRecord) : Prop :=
  ∀ p r, rs.find? (touches p) = some r →
    dirtyLsn (analysis rs).dpt p = (r.lsn :: seeds rs p).min?

/-- What names a page first is not above what names it later. -/
def FirstIsLeast (rs : List WalRecord) : Prop :=
  ∀ p r, rs.find? (touches p) = some r →
    ∀ m ∈ (mentions rs p).head?, ∀ l ∈ r.lsn :: seeds rs p, m ≤ l

variable {rs : List WalRecord}

theorem dptExact_iff (hsorted : rs.Pairwise (·.lsn < ·.lsn)) : DptExact rs ↔ FirstIsLeast rs := by
  refine forall_congr' fun p => forall_congr' fun r => forall_congr' fun hr => ?_
  rw [dirtyLsn_analysis]
  obtain ⟨m, hm⟩ := exists_mention (mem_of_find?_eq_some hr) (List.find?_some hr)
  rw [hm, eq_comm, List.min?_eq_some_iff]
  constructor
  · rintro ⟨-, hle⟩ m' hm'
    cases hm'
    exact hle
  · intro h
    have hle := h m rfl
    refine ⟨?_, hle⟩
    rcases mem_mentions (mem_of_mem_head? hm) with ⟨q, hq, ht, rfl⟩ | hs
    · have hge := lsn_le_of_find hsorted hr hq ht
      have heq := Nat.le_antisymm hge (hle _ mem_cons_self)
      exact heq ▸ mem_cons_self
    · exact mem_cons_of_mem _ hs

/-! ## The transaction table -/

def attOf (att : List AttEntry) (t : Nat) : Option AttEntry := att.find? (·.txid == t)

/-- The record types that enter a transaction into the table. -/
def enters : RecordType → Bool
  | .begin | .commit | .abort => true
  | _ => false

def ofTx (t : Nat) (r : WalRecord) : Bool := isTxRecord r.recordType && r.txid == t

/-- The status after the last commit or abort record of a transaction. -/
def lastStatus (rs : List WalRecord) (t : Nat) : TxStatus :=
  ((rs.filter (ofTx t)).reverse.findSome? fun r => endStatus r.recordType).getD .active

theorem attOf_map {att : List AttEntry} {f : AttEntry → AttEntry} (t : Nat)
    (hf : ∀ e, (f e).txid = e.txid) : attOf (att.map f) t = (attOf att t).map f := by
  have hcomp : (fun e : AttEntry => e.txid == t) ∘ f = (·.txid == t) :=
    funext fun e => by rw [Function.comp_apply, hf]
  rw [attOf, List.find?_map, hcomp, attOf]

theorem attOf_orInsert (att : List AttEntry) (e : AttEntry) (t : Nat) : attOf (orInsert att e) t =
      (attOf att t).or (if e.txid = t then some e else none) := by
  rw [attOf, orInsert, find_insert_new AttEntry.txid]
  rfl

theorem attOf_setStatus (att : List AttEntry) (txid : Nat) (s : TxStatus)
    (t : Nat) : attOf (setStatus att txid s) t = (attOf att t).map fun e =>
      if e.txid = txid then { e with status := s } else e :=
  attOf_map t fun e => by split <;> rfl

theorem attOf_touch (att : List AttEntry) (txid lsn t : Nat) :
    attOf (touch att txid lsn) t = (attOf att t).map fun e =>
      if e.txid = txid ∧ lsn > e.lastLsn then { e with lastLsn := lsn }
      else e :=
  attOf_map t fun e => by split <;> rfl

def lastLsn (rs : List WalRecord) (t : Nat) : Nat :=
  ((rs.filter (ofTx t)).getLast?.map WalRecord.lsn).getD 0

def entered (rs : List WalRecord) (t : Nat) : Bool :=
  rs.any fun r => enters r.recordType && r.txid == t

variable {t : Nat}

theorem attOf_txid {att : List AttEntry} {e : AttEntry}
    (h : attOf att t = some e) : e.txid = t := by
  simpa using List.find?_some h

variable {r : WalRecord}

/-- A record of another transaction, or of none, leaves the entry. -/
theorem attOf_step_ne (a : Tables) (h : ¬ ofTx t r = true) :
    attOf (analysisStep a r).att t = attOf a.att t := by
  rw [att_analysisStep]
  split
  · next htx =>
      have hne : t ≠ r.txid := fun he => h (by simp [ofTx, htx, he])
      have hmap {o : Option AttEntry} {f : AttEntry → AttEntry}
          (ho : ∀ e, o = some e → e.txid = t)
          (hf : ∀ e, e.txid = t → f e = e) : o.map f = o := by
        cases o with
        | none => rfl
        | some e => rw [Option.map_some, hf e (ho e rfl)]
      have htouch (att : List AttEntry) :
          attOf (touch att r.txid r.lsn) t = attOf att t := by
        rw [attOf_touch]
        exact hmap (fun e => attOf_txid) fun e he => if_neg fun hc => hne (he ▸ hc.1)
      have hins (e : AttEntry) (he : e.txid = r.txid) :
          attOf (orInsert a.att e) t = attOf a.att t := by
        rw [attOf_orInsert, if_neg (show ¬ e.txid = t from fun hc =>
          hne (hc.symm.trans he)), Option.or_none]
      rw [htouch]
      split
      · rw [attOf_setStatus, hmap (fun e => attOf_txid) fun e he =>
          if_neg fun hc => hne (he ▸ hc), hins _ rfl]
      · split
        · exact hins _ rfl
        · rfl
  · rfl

/-- A record of the transaction gives the entry its LSN. -/
theorem attOf_step {a : Tables} (h : ofTx t r = true)
    (hold : ∀ e, attOf a.att t = some e → e.lastLsn < r.lsn) : attOf (analysisStep a r).att t =
      if enters r.recordType then some ⟨t, (endStatus r.recordType).getD
          (((attOf a.att t).map AttEntry.status).getD .active), r.lsn⟩
      else (attOf a.att t).map fun e => ⟨t, e.status, r.lsn⟩ := by
  obtain ⟨htx, ht⟩ : isTxRecord r.recordType = true ∧ r.txid = t := by
    simpa [ofTx] using h
  subst ht
  rw [att_analysisStep, if_pos htx, attOf_touch]
  cases hend : endStatus r.recordType with
  | some s =>
    have henter : enters r.recordType = true := by
      cases hty : r.recordType <;> rw [hty] at hend <;> first | rfl | cases hend
    dsimp only
    rw [attOf_setStatus, attOf_orInsert, if_pos rfl, if_pos henter]
    cases hatt : attOf a.att r.txid with
    | none => simp
    | some e => simp [attOf_txid hatt, hold e hatt]
  | none =>
    dsimp only
    by_cases hbegin : r.recordType = .begin
    · rw [if_pos hbegin, attOf_orInsert, if_pos rfl, hbegin]
      cases hatt : attOf a.att r.txid with
      | none => simp [enters]
      | some e => simp [enters, attOf_txid hatt, hold e hatt]
    · have henter : ¬ enters r.recordType = true := by
        cases hty : r.recordType <;> rw [hty] at hend hbegin <;>
          first | exact Bool.false_ne_true | exact absurd rfl hbegin | cases hend
      rw [if_neg hbegin, if_neg henter]
      cases hatt : attOf a.att r.txid with
      | none => rfl
      | some e => simp [attOf_txid hatt, hold e hatt]

/-! ## The closed form -/

theorem lastStatus_append (rs : List WalRecord) (h : ofTx t r = true) : lastStatus (rs ++ [r]) t =
      (endStatus r.recordType).getD (lastStatus rs t) := by
  rw [lastStatus, filter_append, filter_singleton, h, lastStatus]
  cases hend : endStatus r.recordType <;> simp [hend]

theorem enters_isTx {ty : RecordType} (h : enters ty = true) : isTxRecord ty = true := by
  cases ty <;> first | rfl | cases h

theorem endStatus_of_not_enters {ty : RecordType} (h : ¬ enters ty = true) :
    endStatus ty = none := by
  cases ty <;> first | rfl | exact absurd rfl h

theorem lastStatus_of_not_entered (h : ¬ entered rs t = true) : lastStatus rs t = .active := by
  have hnone : ((rs.filter (ofTx t)).reverse.findSome? fun r =>
      endStatus r.recordType) = none := by
    refine List.findSome?_eq_none_iff.mpr fun r hr => ?_
    obtain ⟨hmem, htx⟩ := mem_filter.mp (mem_reverse.mp hr)
    refine endStatus_of_not_enters fun he => h ?_
    refine any_eq_true.mpr ⟨r, hmem, ?_⟩
    rw [he, Bool.true_and]
    exact (Bool.and_eq_true_iff.mp htx).2
  rw [lastStatus, hnone]
  rfl

theorem lastLsn_lt {n : Nat} (h : entered rs t = true)
    (hlt : ∀ q ∈ rs, q.lsn < n) : lastLsn rs t < n := by
  obtain ⟨r, hr, he⟩ := any_eq_true.mp h
  obtain ⟨he, hid⟩ := Bool.and_eq_true_iff.mp he
  have hne : rs.filter (ofTx t) ≠ [] := ne_nil_of_mem
    (mem_filter.mpr ⟨hr, by rw [ofTx, enters_isTx he, hid]; rfl⟩)
  rw [lastLsn, List.getLast?_eq_getLast_of_ne_nil hne]
  exact hlt _ (mem_filter.mp (getLast_mem hne)).1

theorem attOf_analysis (hsorted : rs.Pairwise (·.lsn < ·.lsn)) (t : Nat) :
    attOf (analysis rs).att t = if entered rs t then some ⟨t, lastStatus rs t, lastLsn rs t⟩
      else none := by
  induction rs using List.reverseRecOn with
  | nil => rfl
  | append_singleton rs r ih =>
    obtain ⟨hsorted, -, hlast⟩ := pairwise_append.mp hsorted
    have hlt : ∀ q ∈ rs, q.lsn < r.lsn := fun q hq => hlast q hq r (mem_singleton_self r)
    have ih := ih hsorted
    have hent : entered (rs ++ [r]) t =
        (entered rs t || (enters r.recordType && r.txid == t)) := by
      simp [entered]
    rw [analysis_append]
    by_cases h : ofTx t r = true
    · have hid : (r.txid == t) = true := (Bool.and_eq_true_iff.mp h).2
      have hlsn : lastLsn (rs ++ [r]) t = r.lsn := by
        simp [lastLsn, filter_append, h]
      rw [attOf_step h, ih, hent, hid, Bool.and_true, hlsn, lastStatus_append rs h]
      · by_cases he : enters r.recordType = true
        · rw [if_pos he, he, Bool.or_true, if_pos rfl]
          by_cases hold : entered rs t = true
          · rw [if_pos hold]
            rfl
          · rw [if_neg hold, lastStatus_of_not_entered hold]
            rfl
        · rw [if_neg he, endStatus_of_not_enters he, Bool.eq_false_iff.mpr he, Bool.or_false]
          split <;> rfl
      · intro e he
        rw [ih] at he
        split at he
        · next hold =>
            cases he
            exact lastLsn_lt hold hlt
        · cases he
    · have hno : (enters r.recordType && r.txid == t) = false := by
        refine Bool.eq_false_iff.mpr fun hc => h ?_
        obtain ⟨he, hid⟩ := Bool.and_eq_true_iff.mp hc
        rw [ofTx, enters_isTx he, hid]
        rfl
      have hfilter : (rs ++ [r]).filter (ofTx t) = rs.filter (ofTx t) := by
        rw [filter_append, filter_cons_of_neg h, filter_nil, append_nil]
      rw [attOf_step_ne _ h, ih, hent, hno, Bool.or_false, lastStatus,
        lastStatus, lastLsn, lastLsn, hfilter]

/-- The table has the transactions of the log, with their last LSN and the
status of their last commit or abort record. -/
def AttExact (rs : List WalRecord) : Prop :=
  ∀ t, attOf (analysis rs).att t =
    if rs.any (ofTx t) then some ⟨t, lastStatus rs t, lastLsn rs t⟩ else none

/-- Each transaction with a record has a begin, commit or abort record. -/
def AllEntered (rs : List WalRecord) : Prop :=
  ∀ r ∈ rs, isTxRecord r.recordType = true →
    ∃ q ∈ rs, enters q.recordType = true ∧ q.txid = r.txid

theorem attExact_iff (hsorted : rs.Pairwise (·.lsn < ·.lsn)) : AttExact rs ↔ AllEntered rs := by
  have hent {t : Nat} : entered rs t = true ↔
      ∃ q ∈ rs, enters q.recordType = true ∧ q.txid = t := by
    simp [entered]
  constructor
  · intro h r hr htx
    have hany : rs.any (ofTx r.txid) = true := any_eq_true.mpr ⟨r, hr, by simp [ofTx, htx]⟩
    have ht := h r.txid
    rw [attOf_analysis hsorted, if_pos hany] at ht
    refine hent.mp ?_
    by_contra hno
    rw [if_neg hno] at ht
    cases ht
  · intro h t
    rw [attOf_analysis hsorted]
    have hiff : entered rs t = rs.any (ofTx t) := by
      refine Bool.eq_iff_iff.mpr ⟨fun he => ?_, fun ha => ?_⟩
      · obtain ⟨q, hq, he, hid⟩ := hent.mp he
        exact any_eq_true.mpr ⟨q, hq, by simp [ofTx, enters_isTx he, hid]⟩
      · obtain ⟨r, hr, ht⟩ := any_eq_true.mp ha
        obtain ⟨htx, hid⟩ : isTxRecord r.recordType = true ∧ r.txid = t := by
          simpa [ofTx] using ht
        exact hent.mpr (hid ▸ h r hr htx)
    rw [hiff]

/-- On every log with increasing LSNs, the tables are what they should be just
when what names a page first has the smallest LSN and no transaction has
records without a begin, commit or abort record. -/
theorem analysis_exact {rs : List WalRecord} (hsorted : rs.Pairwise (·.lsn < ·.lsn)) :
    DptExact rs ∧ AttExact rs ↔ FirstIsLeast rs ∧ AllEntered rs :=
  and_congr (dptExact_iff hsorted) (attExact_iff hsorted)

/-- A record as far as the analysis reads it. -/
def logRecord (recordType : RecordType) (txid lsn : Nat) (payload : Bytes) : WalRecord :=
  ⟨recordType, txid, lsn, 0, 0, payload, 0, 0⟩

/-- One transaction that updates page 7 and commits. -/
def shortLog : List WalRecord :=
  [logRecord .begin 1 1 [], logRecord .pageUpdate 1 2 (natToBE 8 7), logRecord .commit 1 3 []]

theorem analysis_exact_short : shortLog.Pairwise (·.lsn < ·.lsn) ∧ DptExact shortLog ∧
      AttExact shortLog := by
  have hsorted : shortLog.Pairwise (·.lsn < ·.lsn) := by decide
  have hpage : ∀ q ∈ shortLog,
      isPageRecord q.recordType = true → q.lsn = 2 := by
    decide
  have hleast : FirstIsLeast shortLog := by
    intro p r hr m hm l hl
    have hfirst : r.lsn = 2 := hpage r (mem_of_find?_eq_some hr)
      (touches_iff.mp (List.find?_some hr)).1
    have hseeds : seeds shortLog p = [] := rfl
    rw [hseeds, mem_singleton] at hl
    rcases mem_mentions (mem_of_mem_head? hm) with ⟨q, hq, ht, rfl⟩ | hs
    · rw [hl, hfirst, hpage q hq (touches_iff.mp ht).1]
    · rw [hseeds] at hs
      cases hs
  have hall : AllEntered shortLog := by
    unfold AllEntered
    decide
  exact ⟨hsorted, (analysis_exact hsorted).mpr ⟨hleast, hall⟩⟩

/-- A page record of a transaction that began earlier, and a checkpoint that
lists the page as dirty since LSN 3. -/
def resumedLog : List WalRecord :=
  [logRecord .pageUpdate 9 5 (natToBE 8 7), logRecord .checkpointEnd 0 6
      (natToBE 4 1 ++ (natToBE 8 7 ++ natToBE 8 3))]

theorem resumedLog_misread : resumedLog.Pairwise (·.lsn < ·.lsn) ∧ ¬ DptExact resumedLog ∧
      ¬ AttExact resumedLog := by
  refine ⟨by decide, fun h => ?_, fun h => ?_⟩
  · have h7 := h 7 (logRecord .pageUpdate 9 5 (natToBE 8 7)) (by decide)
    exact absurd h7 (by decide)
  · exact absurd (h 9) (by decide)

end RGraph.Graph
