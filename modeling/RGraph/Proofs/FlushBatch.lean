import RGraph.Buffer.WriteBack
import RGraph.Proofs.DoubleWrite

/-!
# A crash while the flusher writes a batch

The flusher stages the pages of a batch in one call and then writes the batch
extent by extent, with a sync after each. A crash finds the extents before the
current one written and those after it untouched, and leaves every page of the
current one old, new or torn.

Recovery puts back what the staging file holds. That is the batch as far as
the capacity of the file goes, and nothing splits a longer batch: a torn page
behind the first 128 stays torn. Nothing keeps other threads off the file
either: `flush_single_frame` stages its own page over the batch, and empties
the file when it is done.
-/

namespace RGraph.Buffer

open RGraph.Lib RGraph.Storage RGraph.Wal List

variable {crc : Crc32c} {data f : Bytes} {es : List (Nat × Bytes)}
  {pending : List Pending} {image : FrameId → Bytes}

/-! ## The pages of a batch -/

/-- A page with the bytes of its frame. -/
def pageOf (image : FrameId → Bytes) (p : Pending) : Nat × Bytes := (p.pageId, image p.fid)

/-- What `write_batch` is given: the batch in disk order. -/
def batchPages (image : FrameId → Bytes) (pending : List Pending) : List (Nat × Bytes) :=
  (pending.insertionSort (·.pageId ≤ ·.pageId)).map (pageOf image)

/-- Where a page ends in the data file. -/
def pageEnd (pid : Nat) : Nat := pid * pageSize + pageSize

theorem lt_of_pageEnd_le {pid n : Nat} (h : pageEnd pid ≤ n) : pid < n := by
  simp only [pageEnd, pageSize] at h
  omega

/-- The pages are different ones, each of them whole and inside the data
file. -/
structure BatchOk (data : Bytes) (image : FrameId → Bytes)
    (pending : List Pending) : Prop where
  nodup : (pending.map (·.pageId)).Nodup
  whole : ∀ p ∈ pending, (image p.fid).length = pageSize
  inside : ∀ p ∈ pending, pageEnd p.pageId ≤ data.length
  short : data.length < 2 ^ 64

theorem mem_batchPages {e : Nat × Bytes} :
    e ∈ batchPages image pending ↔ ∃ p ∈ pending, pageOf image p = e := by
  simp [batchPages]

theorem BatchOk.entryOk (h : BatchOk data image pending) :
    ∀ e ∈ batchPages image pending, EntryOk e := by
  intro e he
  obtain ⟨p, hp, rfl⟩ := mem_batchPages.mp he
  exact ⟨h.whole p hp, Nat.lt_trans (lt_of_pageEnd_le (h.inside p hp)) h.short⟩

theorem BatchOk.nodup_ids (h : BatchOk data image pending) :
    ((batchPages image pending).map Prod.fst).Nodup := by
  have hperm : ((batchPages image pending).map Prod.fst).Perm (pending.map (·.pageId)) := by
    rw [batchPages, map_map]
    exact (perm_insertionSort _ _).map _
  exact hperm.nodup_iff.mpr h.nodup

/-! ## Recovery, entry by entry -/

variable (crc) in
theorem length_restoreEntry {e : Nat × Bytes} (n : Nat) (hin : pageEnd e.1 ≤ data.length) :
    (restoreEntry crc (data, n) e).1.length = data.length := by
  rw [restoreEntry]
  split
  · show (writeAt data (e.1 * pageSize) (setLen e.2 pageSize)).length = _
    rw [length_writeAt, length_setLen]
    exact Nat.max_eq_left hin
  · rfl

variable (crc) in
theorem pageAt_restoreEntry_ne (acc : Bytes × Nat) {e : Nat × Bytes} {q : Nat} (hq : q ≠ e.1) :
    pageAt (restoreEntry crc acc e).1 q = pageAt acc.1 q := by
  rw [restoreEntry]
  split
  · exact pageAt_writeAt_ne (length_setLen _ _) hq
  · rfl

variable (crc) in
/-- Recovery changes only pages that are staged. -/
theorem pageAt_restore_ne {q : Nat} (acc : Bytes × Nat) (hq : ∀ e ∈ es, q ≠ e.1) :
    pageAt (es.foldl (restoreEntry crc) acc).1 q = pageAt acc.1 q := by
  induction es generalizing acc with
  | nil => rfl
  | cons e es ih =>
    rw [foldl_cons, ih _ fun e' he' => hq e' (mem_cons_of_mem _ he')]
    exact pageAt_restoreEntry_ne crc acc (hq e mem_cons_self)

theorem isTorn_congr {d d' : Bytes} {q : Nat} (hlen : d'.length = d.length)
    (hpage : pageAt d' q = pageAt d q) : isTorn crc d' q = isTorn crc d q := by
  rw [isTorn, isTorn, hlen, hpage]

variable (crc) in
/-- A staged page that is torn gets the staged bytes. -/
theorem pageAt_restore (hnodup : (es.map Prod.fst).Nodup)
    (hes : ∀ e ∈ es, e.2.length = pageSize ∧ pageEnd e.1 ≤ data.length) (n : Nat) :
    ∀ e ∈ es, pageAt (es.foldl (restoreEntry crc) (data, n)).1 e.1 =
      if isTorn crc data e.1 then e.2 else pageAt data e.1 := by
  induction es generalizing data n with
  | nil => exact nofun
  | cons e es ih =>
    obtain ⟨hwhole, hin⟩ := hes e mem_cons_self
    obtain ⟨hnew, hnodup⟩ := nodup_cons.mp hnodup
    have hne : ∀ e' ∈ es, e.1 ≠ e'.1 := fun e' he' heq => hnew (heq ▸ mem_map_of_mem he')
    have hlen := length_restoreEntry crc n hin
    have hrest : ∀ e' ∈ es, e'.2.length = pageSize ∧
        pageEnd e'.1 ≤ (restoreEntry crc (data, n) e).1.length :=
      fun e' he' => hlen ▸ hes e' (mem_cons_of_mem _ he')
    intro e' he'
    rw [foldl_cons]
    rcases mem_cons.mp he' with rfl | he'
    · rw [pageAt_restore_ne crc _ hne, restoreEntry]
      split
      · rw [pageAt_writeAt_self (length_setLen _ _), setLen_eq_self hwhole]
      · rfl
    · have hpage := pageAt_restoreEntry_ne crc (data, n) (hne e' he').symm
      rw [ih hnodup hrest (restoreEntry crc (data, n) e).2 e' he', isTorn_congr hlen hpage, hpage]

/-! ## The crash -/

/-- The data file after a crash in the write of an extent: each of its pages is
old, new or torn, and a torn page fails its checksum. The other pages may have
been written by other threads. -/
structure CrashedIn (crc : Crc32c) (data : Bytes) (image : FrameId → Bytes)
    (current : List Pending) (f : Bytes) : Prop where
  length : data.length ≤ f.length
  torn : ∀ p ∈ current, pageAt f p.pageId = pageAt data p.pageId ∨
    pageAt f p.pageId = image p.fid ∨
    verifyPageChecksum crc (pageAt f p.pageId) = false

/-- A page with neither its old nor its new bytes. -/
def Torn (data : Bytes) (image : FrameId → Bytes) (f : Bytes) (p : Pending) : Prop :=
  pageAt f p.pageId ≠ pageAt data p.pageId ∧ pageAt f p.pageId ≠ image p.fid

/-- The pages that the staging file has room for. -/
def Staged (pending : List Pending) (p : Pending) : Prop :=
  p ∈ (pending.insertionSort (·.pageId ≤ ·.pageId)).take doublewriteCapacity

/-- A call of another thread on the staging file while the pages of the extent
are in flight: `flush_single_frame` passes over a frame that is. -/
def Foreign (current : List Pending) : StagingCall → Prop
  | .writeBatch pages => ∀ e ∈ pages, EntryOk e ∧ ∀ p ∈ current, p.pageId ≠ e.1
  | .clear => True

/-- The staging file at the crash: the batch, and what other threads have done
to the file since. -/
def stagingFile (dw : Bytes) (image : FrameId → Bytes) (pending : List Pending)
    (others : List StagingCall) : Bytes :=
  others.foldl StagingCall.run (writeBatch dw (batchPages image pending))

variable (crc) in
/-- What recovery makes of a staged page when no other thread has written the
staging file. -/
theorem pageAt_recover (hok : BatchOk data image pending) (dw : Bytes)
    (hlen : data.length ≤ f.length) {p : Pending} (hp : Staged pending p) :
    pageAt (recoverTornPages crc f (stagingFile dw image pending [])).1 p.pageId =
      if isTorn crc f p.pageId then image p.fid else pageAt f p.pageId := by
  have hmem : ∀ e ∈ (batchPages image pending).take doublewriteCapacity,
      e.2.length = pageSize ∧ pageEnd e.1 ≤ f.length := by
    intro e he
    obtain ⟨p, hp, rfl⟩ := mem_batchPages.mp (mem_of_mem_take he)
    exact ⟨hok.whole p hp, Nat.le_trans (hok.inside p hp) hlen⟩
  have hnodup : (((batchPages image pending).take doublewriteCapacity).map Prod.fst).Nodup := by
    rw [map_take]
    exact hok.nodup_ids.sublist (take_sublist _ _)
  rw [recoverTornPages, stagingFile, foldl_nil, readEntries_writeBatch dw hok.entryOk]
  refine pageAt_restore crc hnodup hmem 0 (pageOf image p) ?_
  rw [batchPages, ← map_take]
  exact mem_map_of_mem hp

variable {current : List Pending} {others : List StagingCall}

/-- Once another thread has written the staging file, it names no page of the
extent any more. -/
theorem foreign_entries {dw : Bytes} (hothers : ∀ c ∈ others, Foreign current c)
    (hne : others ≠ []) {p : Pending} (hp : p ∈ current) :
    ∀ e ∈ readEntries (others.foldl StagingCall.run dw), p.pageId ≠ e.1 := by
  obtain ⟨before, c, rfl⟩ := (eq_nil_or_concat others).resolve_left hne
  have hc := hothers c (by simp)
  rw [concat_eq_append, foldl_append, foldl_cons, foldl_nil]
  intro e he
  cases c with
  | writeBatch pages =>
    rw [StagingCall.run, readEntries_writeBatch _ fun e he => (hc e he).1] at he
    exact (hc e (mem_of_mem_take he)).2 p hp
  | clear =>
    rw [StagingCall.run, readEntries, Wal.clear, if_pos (by simp)] at he
    cases he

variable (crc f) in
/-- A page that the staging file does not hold stays as the crash left it. -/
theorem pageAt_not_staged (hok : BatchOk data image pending) (dw : Bytes)
    (hsub : ∀ p ∈ current, p ∈ pending) (hothers : ∀ c ∈ others, Foreign current c)
    {p : Pending} (hp : p ∈ current) (hstaged : ¬ (others = [] ∧ Staged pending p)) :
    pageAt (recoverTornPages crc f (stagingFile dw image pending others)).1 p.pageId =
      pageAt f p.pageId := by
  refine pageAt_restore_ne crc (f, 0) ?_
  by_cases hnil : others = []
  · subst hnil
    intro e he heq
    rw [stagingFile, foldl_nil, readEntries_writeBatch dw hok.entryOk, batchPages,
      ← map_take] at he
    obtain ⟨p', hp', rfl⟩ := mem_map.mp he
    have hmem : p' ∈ pending := (perm_insertionSort _ _).mem_iff.mp (mem_of_mem_take hp')
    have hsame : p = p' := inj_on_of_nodup_map hok.nodup (hsub p hp) hmem heq
    exact hstaged ⟨rfl, hsame ▸ hp'⟩
  · exact foreign_entries hothers hnil hp

/-- After a crash in the write of any extent of any batch, recovery makes every
page of the extent complete exactly when each torn one is among those that the
staging file has room for, and no other thread has written that file since the
batch was staged. -/
theorem flush_batch_recovers_iff (crc : Crc32c) (data dw : Bytes)
    (image : FrameId → Bytes) (pending : List Pending)
    (hok : BatchOk data image pending) (done : List (List Pending))
    (current : List Pending) (rest : List (List Pending))
    (hsplit : FlushPc.extents pending = done ++ current :: rest) (f : Bytes)
    (hf : CrashedIn crc data image current f) (others : List StagingCall)
    (hothers : ∀ c ∈ others, Foreign current c) :
    (∀ p ∈ current, ¬ Torn data image
      (recoverTornPages crc f (stagingFile dw image pending others)).1 p) ↔
      ∀ p ∈ current, Torn data image f p → others = [] ∧ Staged pending p := by
  have hsub : ∀ p ∈ current, p ∈ pending := by
    intro p hp
    rw [← (perm_insertionSort (·.pageId ≤ ·.pageId) pending).mem_iff,
      ← FlushPc.flatten_extents, hsplit]
    simp [hp]
  constructor
  · intro hall p hp htorn
    by_contra hstaged
    refine hall p hp ?_
    rw [Torn, pageAt_not_staged crc f hok dw hsub hothers hp hstaged]
    exact htorn
  · intro hall p hp htorn
    by_cases hstaged : others = [] ∧ Staged pending p
    · obtain ⟨rfl, hroom⟩ := hstaged
      have hpage := pageAt_recover crc hok dw hf.length hroom
      split at hpage
      · exact htorn.2 hpage
      · next hgood =>
          -- not torn by the test, so old or new already
          rw [Torn, hpage] at htorn
          rcases hf.torn p hp with h | h | h
          · exact htorn.1 h
          · exact htorn.2 h
          · have hin : ¬ f.length < p.pageId * pageSize + pageSize :=
              Nat.not_lt.mpr (Nat.le_trans (hok.inside p (hsub p hp)) hf.length)
            rw [isTorn, if_neg hin, h] at hgood
            exact hgood rfl
    · rw [Torn, pageAt_not_staged crc f hok dw hsub hothers hp hstaged] at htorn
      exact hstaged (hall p hp htorn)

/-! ## Batches of one page and of one too many -/

/-- A blank page with its checksum. -/
def goodPage : Bytes := updateChecksumBytes Crc32c.castagnoli (List.replicate pageSize 0)

theorem length_tornPage : tornPage.length = pageSize := by
  rw [tornPage, length_cons, length_replicate]; rfl

theorem tornPage_ne_goodPage : tornPage ≠ goodPage := by
  intro h
  have hgood := verify_updateChecksum Crc32c.castagnoli
    (length_replicate (n := pageSize) (a := (0 : UInt8)))
  rw [← goodPage, ← h, tornPage_bad] at hgood
  cases hgood

/-- The frames `0` to `n - 1` with the pages from 3 on. -/
def firstPages (n : Nat) : List Pending := (List.range n).map fun i => ⟨i, i + 3⟩

/-- A file of blank pages that ends after page `n + 2`. -/
def blankFile (n : Nat) : Bytes := List.replicate ((n + 3) * pageSize) 0

theorem batchOk_firstPages {n : Nat} (h : n < 2 ^ 20) :
    BatchOk (blankFile n) (fun _ => goodPage) (firstPages n) where
  nodup := by
    rw [firstPages, map_map]
    exact (nodup_range).map fun a b hab => by simpa using hab
  whole := fun _ _ => length_updateChecksumBytes _ length_replicate
  inside := by
    intro p hp
    obtain ⟨i, hi, rfl⟩ := mem_map.mp hp
    have hi := mem_range.mp hi
    simp only [blankFile, length_replicate, pageEnd, pageSize]
    omega
  short := by
    rw [blankFile, length_replicate, pageSize]
    omega

/-- The file with the page of the last frame torn. -/
def tornLast (n : Nat) : Bytes := writeAt (blankFile (n + 1)) ((n + 3) * pageSize) tornPage

/-- A crash in the only extent that leaves the other pages old. -/
theorem crashedIn_last (n : Nat) :
    CrashedIn Crc32c.castagnoli (blankFile (n + 1)) (fun _ => goodPage)
      (firstPages (n + 1)) (tornLast n) := by
  refine ⟨?_, fun p hp => ?_⟩
  · rw [tornLast, length_writeAt]
    exact Nat.le_max_left _ _
  · by_cases hp3 : p.pageId = n + 3
    · right; right
      rw [hp3, tornLast, pageAt_writeAt_self length_tornPage]
      exact tornPage_bad
    · exact .inl (pageAt_writeAt_ne length_tornPage hp3)

theorem torn_last (n : Nat) :
    Torn (blankFile (n + 1)) (fun _ => goodPage) (tornLast n) ⟨n, n + 3⟩ := by
  have hpage : pageAt (tornLast n) (n + 3) = tornPage := pageAt_writeAt_self length_tornPage
  rw [Torn, hpage]
  refine ⟨fun h => ?_, tornPage_ne_goodPage⟩
  have hbyte := congrArg (List.getD · 0 0) h
  simp only [pageAt, getD_readAt, blankFile, getD_replicate_zero] at hbyte
  revert hbyte
  decide

/-- The last of 128 pages is torn and put back. -/
theorem flush_batch_recovers_full :
    Torn (blankFile 128) (fun _ => goodPage) (tornLast 127) ⟨127, 130⟩ ∧
    ∀ p ∈ firstPages 128, ¬ Torn (blankFile 128) (fun _ => goodPage)
      (recoverTornPages Crc32c.castagnoli (tornLast 127)
        (stagingFile [] (fun _ => goodPage) (firstPages 128) [])).1 p :=
  ⟨torn_last 127, (flush_batch_recovers_iff Crc32c.castagnoli _ [] _ _
      (batchOk_firstPages (by decide)) [] (firstPages 128) [] (by decide +kernel)
      (tornLast 127) (crashedIn_last 127) [] nofun).mpr fun p hp _ => ⟨rfl, by
        have hall : (firstPages 128).insertionSort (·.pageId ≤ ·.pageId) = firstPages 128 := by
          decide +kernel
        rw [Staged, hall]
        rwa [take_of_length_le (by decide +kernel)]⟩⟩

theorem last_stays_torn {n : Nat} {others : List StagingCall} (hn : n < 2 ^ 19)
    (hothers : ∀ c ∈ others, Foreign (firstPages (n + 1)) c)
    (hstaged : ¬ (others = [] ∧ Staged (firstPages (n + 1)) ⟨n, n + 3⟩)) :
    ¬ ∀ p ∈ firstPages (n + 1), ¬ Torn (blankFile (n + 1)) (fun _ => goodPage)
      (recoverTornPages Crc32c.castagnoli (tornLast n)
        (stagingFile [] (fun _ => goodPage) (firstPages (n + 1)) others)).1 p := by
  intro hall
  have hmem : (⟨n, n + 3⟩ : Pending) ∈ firstPages (n + 1) :=
    mem_map.mpr ⟨n, mem_range.mpr (by omega), rfl⟩
  refine hall _ hmem ?_
  rw [Torn, pageAt_not_staged Crc32c.castagnoli (tornLast n) (batchOk_firstPages (by omega)) []
    (fun _ hp => hp) hothers hmem hstaged]
  exact torn_last n

/-- Of 129 dirty pages in a row the last is torn: the staging file holds the
first 128 only, so nothing puts the page back. And of a single dirty page
nothing is staged any more when another thread has emptied the file. -/
theorem last_of_129_stays_torn :
    (¬ ∀ (data dw : Bytes) (image : FrameId → Bytes) (pending current : List Pending),
        BatchOk data image pending → FlushPc.extents pending = [current] → ∀ f : Bytes,
        CrashedIn Crc32c.castagnoli data image current f → ∀ p ∈ current, ¬ Torn data image
          (recoverTornPages Crc32c.castagnoli f (stagingFile dw image pending [])).1 p) ∧
    ¬ ∀ (data dw : Bytes) (image : FrameId → Bytes) (p : Pending), BatchOk data image [p] →
        ∀ f : Bytes, CrashedIn Crc32c.castagnoli data image [p] f →
        ∀ others : List StagingCall, (∀ c ∈ others, Foreign [p] c) → ¬ Torn data image
          (recoverTornPages Crc32c.castagnoli f (stagingFile dw image [p] others)).1 p := by
  constructor
  · intro h
    refine last_stays_torn (by decide) ?_ ?_ (h _ [] _ _ _ (batchOk_firstPages (by decide))
      (by decide +kernel) (tornLast 128) (crashedIn_last 128))
    · exact nofun
    · unfold Staged
      decide +kernel
  · intro h
    have hforeign : ∀ c ∈ [StagingCall.clear], Foreign (firstPages 1) c := by
      intro c hc
      rw [mem_singleton.mp hc]
      trivial
    refine last_stays_torn (by decide) hforeign nofun fun p hp => ?_
    rw [mem_singleton.mp hp]
    exact h _ [] _ ⟨0, 3⟩ (batchOk_firstPages (by decide)) _ (crashedIn_last 0) _ hforeign

end RGraph.Buffer
