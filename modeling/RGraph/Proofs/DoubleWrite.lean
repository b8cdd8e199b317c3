import RGraph.Wal.DoubleWrite
import RGraph.Storage.Meta

/-!
# A crash inside `write_page`

Recovery writes a page only where the staging file names one that is missing
or fails its checksum. Once the staging file is synced it names the target
alone, with its new image, so the target ends up old or new and nothing else
is touched. Before that the staging file is the one earlier calls left, or a
torn one. Nothing tests the image it holds, so what saves the pages then is
only that every page it names is good in place.
-/

namespace RGraph.Wal

open RGraph.Lib RGraph.Storage List

variable {crc : Crc32c} {data dw : Bytes} {pid q : Nat}

/-! ## Pages of a file -/

theorem pageAt_grow (required : Nat) : pageAt (grow data required) q = pageAt data q := by
  rw [grow]
  split
  · next h => exact readAt_setLen data _ _ (Nat.le_of_lt h)
  · rfl

/-! ## What the staging file says -/

theorem length_readEntriesFrom (raw : Bytes) (off n : Nat) :
    (readEntriesFrom raw off n).length = n := by
  induction n generalizing off with
  | zero => rfl
  | succ n ih => rw [readEntriesFrom, length_cons, ih]

theorem length_readEntries_le (f : Bytes) : (readEntries f).length ≤ beToNat (readAt f 0 4) := by
  rw [readEntries]
  split
  · exact Nat.zero_le _
  · dsimp only
    split
    · exact Nat.zero_le _
    · exact Nat.le_of_eq (length_readEntriesFrom _ _ _)

theorem length_of_mem_readEntriesFrom {raw : Bytes} {n : Nat} :
    ∀ {off : Nat}, ∀ e ∈ readEntriesFrom raw off n, e.2.length = pageSize := by
  induction n with
  | zero => intro off e he; cases he
  | succ n ih =>
    intro off e he
    rw [readEntriesFrom] at he
    rcases mem_cons.mp he with rfl | he
    · exact length_readAt _ _ _
    · exact ih e he

variable {f : Bytes}

theorem length_of_mem_readEntries : ∀ e ∈ readEntries f, e.2.length = pageSize := by
  intro e he
  rw [readEntries] at he
  split at he
  · cases he
  · dsimp only at he
    split at he
    · cases he
    · exact length_of_mem_readEntriesFrom e he

theorem length_encodeEntry (e : Nat × Bytes) : (encodeEntry e).length = entrySize := by
  simp [encodeEntry, entrySize]

/-- An entry that can be staged: a whole page under an id of eight bytes. -/
def EntryOk (e : Nat × Bytes) : Prop := e.2.length = pageSize ∧ e.1 < 2 ^ 64

theorem readEntriesFrom_encoded {raw : Bytes} (post : Bytes)
    (es : List (Nat × Bytes)) (hes : ∀ e ∈ es, EntryOk e) (pre : Bytes)
    (hraw : raw = pre ++ (es.flatMap encodeEntry ++ post)) :
    readEntriesFrom raw pre.length es.length = es := by
  induction es generalizing pre with
  | nil => rfl
  | cons e es ih =>
    obtain ⟨hlen, hid⟩ := hes e mem_cons_self
    have hentry : encodeEntry e = natToBE 8 e.1 ++ e.2 := by
      rw [encodeEntry, setLen_eq_self hlen]
    have hpid : readAt raw pre.length 8 = natToBE 8 e.1 := by
      refine readAt_of_append pre _ (e.2 ++ (es.flatMap encodeEntry ++ post)) ?_ rfl (by simp)
      rw [hraw, flatMap_cons, hentry]
      simp only [append_assoc]
    have himage : readAt raw (pre.length + 8) pageSize = e.2 := by
      refine readAt_of_append (pre ++ natToBE 8 e.1) _
        (es.flatMap encodeEntry ++ post) ?_ (by simp) hlen
      rw [hraw, flatMap_cons, hentry]
      simp only [append_assoc]
    have hrest := ih (fun e' he' => hes e' (mem_cons_of_mem _ he')) (pre ++ encodeEntry e) (by
        rw [hraw, flatMap_cons]; simp only [append_assoc])
    rw [length_append, length_encodeEntry] at hrest
    rw [length_cons, readEntriesFrom, hpid, himage, hrest, beToNat_natToBE 8 _ (by omega)]

/-- A file that starts with a batch holds its pages, as far as the capacity
goes. -/
theorem readEntries_encodeBatch {pages : List (Nat × Bytes)} (rest : Bytes)
    (h : ∀ e ∈ pages, EntryOk e) : readEntries (encodeBatch pages ++ rest) =
      pages.take doublewriteCapacity := by
  have hcap : (pages.take doublewriteCapacity).length ≤ 128 := length_take_le _ _
  rw [encodeBatch]
  generalize hes : pages.take doublewriteCapacity = es at hcap
  have hok : ∀ e ∈ es, EntryOk e := fun e he => h e (mem_of_mem_take (hes ▸ he))
  have hlen : (es.flatMap encodeEntry).length = es.length * entrySize := by
    rw [length_flatMap]
    simp [length_encodeEntry]
  have hcount : readAt (natToBE 4 es.length ++ es.flatMap encodeEntry ++ rest)
      0 4 = natToBE 4 es.length := by
    rw [append_assoc]
    exact readAt_append_left _ _ (length_natToBE _ _)
  have hread := readEntriesFrom_encoded rest es hok (natToBE 4 es.length) (append_assoc _ _ _)
  rw [length_natToBE] at hread
  rw [readEntries, hcount, beToNat_natToBE 4 _ (by omega)]
  simp only [length_append, length_natToBE, hlen]
  rw [if_neg (by omega), if_neg (by omega), hread]

variable {image : Bytes}

theorem encodeBatch_one (h : image.length = pageSize) :
    encodeBatch [(pid, image)] = natToBE 4 1 ++ (natToBE 8 pid ++ image) := by
  simp [encodeBatch, encodeEntry, doublewriteCapacity, setLen_eq_self h]

theorem readEntries_staged (rest : Bytes) (h : image.length = pageSize) (hpid : pid < 2 ^ 64) :
    readEntries (encodeBatch [(pid, image)] ++ rest) = [(pid, image)] :=
  readEntries_encodeBatch rest (by simpa [EntryOk] using ⟨h, hpid⟩)

theorem writeBatch_eq (dw : Bytes) (pages : List (Nat × Bytes)) :
    writeBatch dw pages = encodeBatch pages ++ [] := by
  rw [writeBatch, writeAt_zero, setLen, take_left, length_append]
  simp

theorem readEntries_writeBatch (dw : Bytes) {pages : List (Nat × Bytes)}
    (h : ∀ e ∈ pages, EntryOk e) :
    readEntries (writeBatch dw pages) = pages.take doublewriteCapacity := by
  rw [writeBatch_eq, readEntries_encodeBatch [] h]

/-! ## What recovery does -/

theorem recover_of_good (h : ∀ e ∈ readEntries dw, isTorn crc data e.1 = false) :
    (recoverTornPages crc data dw).1 = data := by
  suffices hfold : ∀ (es : List (Nat × Bytes)) (n : Nat),
      (∀ e ∈ es, isTorn crc data e.1 = false) →
      (es.foldl (restoreEntry crc) (data, n)).1 = data from hfold _ 0 h
  intro es
  induction es with
  | nil => intro n _; rfl
  | cons e es ih =>
    intro n hes
    have he := hes e mem_cons_self
    have hstep : restoreEntry crc (data, n) e = (data, n) := by
      simp [restoreEntry, he]
    rw [foldl_cons, hstep]
    exact ih n fun e' he' => hes e' (mem_cons_of_mem _ he')

theorem recover_clear : (recoverTornPages crc data (clear dw)).1 = data := by
  refine recover_of_good fun e he => ?_
  rw [readEntries, clear, if_pos (by simp)] at he
  cases he

theorem recover_one (h : image.length = pageSize) (he : readEntries dw = [(q, image)]) :
    (recoverTornPages crc data dw).1 = if isTorn crc data q then writeAt data (q * pageSize) image
      else data := by
  rw [recoverTornPages, he, foldl_cons, foldl_nil, restoreEntry]
  split <;> simp [setLen_eq_self h]

/-! ## Crashes -/

/-- Every byte is the old file's or the new one's, zero past the end. -/
def Tear (old new f : Bytes) : Prop := ∀ i, f.getD i 0 = old.getD i 0 ∨ f.getD i 0 = new.getD i 0

/-- What a crash may leave: a torn staging file is a mixture of the old one
and the new one, and a page torn in place fails its checksum. -/
def CrashOk (crc : Crc32c) (s : Disk) (pid : Nat) (buf : Bytes) :
    CrashPoint → Prop
  | .staging f => Tear s.dw (encodeBatch [(pid, updateChecksumBytes crc buf)]) f
  | .inPlace page => page.length = pageSize ∧ verifyPageChecksum crc page = false
  | _ => True

/-- The count field says zero or one. -/
def CountOne (f : Bytes) : Prop := readAt f 0 4 = natToBE 4 0 ∨ readAt f 0 4 = natToBE 4 1

/-- The target has its old or its new image and the rest is as it was. -/
def Atomic (old new : Bytes) (pid : Nat) (image : Bytes) : Prop :=
  (pageAt new pid = pageAt old pid ∨ pageAt new pid = image) ∧
  ∀ q, q ≠ pid → pageAt new q = pageAt old q

/-- An entry that recovery may find: its page is good in place, or has the
very bytes of the entry, or it is the target with its new image. -/
def Harmless (crc : Crc32c) (old data : Bytes) (pid : Nat) (image : Bytes) (e : Nat × Bytes) :
    Prop :=
  isTorn crc data e.1 = false ∨ pageAt old e.1 = e.2 ∨ e = (pid, image)

/-- Until the new staging file is written, the entries of the one that is
there are harmless: the file that earlier calls left, or a torn one. -/
def NamesGood (crc : Crc32c) (s : Disk) (pid : Nat) (image : Bytes) :
    CrashPoint → Prop
  | .start => ∀ e ∈ readEntries s.dw, Harmless crc s.data s.data pid image e
  | .grown => ∀ e ∈ readEntries s.dw,
      Harmless crc s.data (grow s.data (pid * pageSize + pageSize)) pid image e
  | .staging f => ∀ e ∈ readEntries f,
      Harmless crc s.data (grow s.data (pid * pageSize + pageSize)) pid image e
  | _ => True

theorem CountOne.length_readEntries (h : CountOne f) : (readEntries f).length ≤ 1 := by
  refine Nat.le_trans (length_readEntries_le f) ?_
  rcases h with h | h <;> rw [h] <;> decide

theorem Tear.countOne (hdw : CountOne dw) (h : image.length = pageSize)
    (hf : Tear dw (encodeBatch [(pid, image)]) f) : CountOne f := by
  have hnew : ∀ i, i < 4 → (encodeBatch [(pid, image)]).getD i 0 = (natToBE 4 1).getD i 0 := by
    intro i hi
    rw [encodeBatch_one h]
    exact getD_append _ _ _ _ (by simpa using hi)
  have hold : ∀ i, i < 4 → dw.getD i 0 = (natToBE 4 0).getD i 0 ∨
      dw.getD i 0 = (natToBE 4 1).getD i 0 := by
    intro i hi
    have hread : dw.getD i 0 = (readAt dw 0 4).getD i 0 := by
      rw [getD_readAt, if_pos hi, Nat.zero_add]
    rw [hread]
    exact hdw.imp (fun e => by rw [e]) (fun e => by rw [e])
  have hbyte : ∀ i, i < 4 → f.getD i 0 = (natToBE 4 0).getD i 0 ∨
      f.getD i 0 = (natToBE 4 1).getD i 0 := by
    intro i hi
    rcases hf i with he | he
    · rw [he]; exact hold i hi
    · rw [he]; exact .inr (hnew i hi)
  have hlow : ∀ i, i < 3 → (natToBE 4 0).getD i 0 = 0 ∧ (natToBE 4 1).getD i 0 = 0 := by
    decide
  -- the counts 0 and 1 differ in the last byte only
  have hsplit : ∀ c, c = natToBE 4 0 ∨ c = natToBE 4 1 →
      f.getD 3 0 = c.getD 3 0 → readAt f 0 4 = c := by
    intro c hc h3
    refine ext_getD (by rcases hc with rfl | rfl <;> simp) fun i hi => ?_
    rw [length_readAt] at hi
    rw [getD_readAt, if_pos hi, Nat.zero_add]
    rcases Nat.lt_or_eq_of_le (Nat.le_of_lt_succ hi) with hlt | rfl
    · obtain ⟨h0, h1⟩ := hlow i hlt
      have hf0 : f.getD i 0 = 0 := by
        rcases hbyte i hi with e | e
        · rw [e, h0]
        · rw [e, h1]
      rw [hf0]
      rcases hc with rfl | rfl
      · exact h0.symm
      · exact h1.symm
    · exact h3
  rcases hbyte 3 (by decide) with h3 | h3
  · exact .inl (hsplit _ (.inl rfl) h3)
  · exact .inr (hsplit _ (.inr rfl) h3)

theorem verify_updateChecksum (crc : Crc32c) {buf : Bytes} (h : buf.length = pageSize) :
    verifyPageChecksum crc (updateChecksumBytes crc buf) = true := by
  have hlen := length_updateChecksumBytes crc h
  rw [verifyPageChecksum, if_neg (by omega)]
  split
  · rfl
  · rw [take_of_length_le (by omega)]
    exact verifyChecksumBytes_update h

theorem Atomic.write {required : Nat} (h : image.length = pageSize) :
    Atomic data (writeAt (grow data required) (pid * pageSize) image) pid image := by
  refine ⟨.inr (pageAt_writeAt_self h), fun q hq => ?_⟩
  rw [pageAt_writeAt_ne h hq, pageAt_grow]

/-- With the target alone staged, recovery leaves it as it is or new. -/
theorem Atomic.recover {d : Bytes} (h : image.length = pageSize)
    (he : readEntries dw = [(pid, image)]) (hother : ∀ q, q ≠ pid → pageAt d q = pageAt data q)
    (hself : isTorn crc d pid = false → pageAt d pid = pageAt data pid ∨ pageAt d pid = image) :
    Atomic data (recoverTornPages crc d dw).1 pid image := by
  rw [recover_one h he]
  split
  · refine ⟨.inr (pageAt_writeAt_self h), fun q hq => ?_⟩
    rw [pageAt_writeAt_ne h hq, hother q hq]
  · next hgood => exact ⟨hself (by simpa using hgood), hother⟩

/-- Recovery from a staging file that names one page at most, over a file
with the old pages. -/
theorem Atomic.recover_iff {d : Bytes} (hsame : ∀ q, pageAt d q = pageAt data q)
    (hone : (readEntries f).length ≤ 1) : Atomic data (recoverTornPages crc d f).1 pid image ↔
      ∀ e ∈ readEntries f, Harmless crc data d pid image e := by
  have hunchanged : Atomic data d pid image := ⟨.inl (hsame pid), fun q _ => hsame q⟩
  rcases hes : readEntries f with _ | ⟨⟨q, staged⟩, rest⟩
  · rw [recover_of_good (by rw [hes]; exact nofun)]
    exact iff_of_true hunchanged nofun
  have hrest : rest = [] := by
    rw [hes, length_cons] at hone
    exact length_eq_zero_iff.mp (by omega)
  subst hrest
  have hlen : staged.length = pageSize :=
    length_of_mem_readEntries (q, staged) (by rw [hes]; exact mem_singleton_self _)
  rw [recover_one hlen hes]
  simp only [mem_singleton, forall_eq, Harmless, Prod.mk.injEq]
  cases htorn : isTorn crc d q with
  | false =>
    rw [if_neg Bool.false_ne_true]
    exact iff_of_true hunchanged (.inl rfl)
  | true =>
    -- the staged bytes are put back over page q
    have hself : pageAt (writeAt d (q * pageSize) staged) q = staged := pageAt_writeAt_self hlen
    have hother : ∀ p, p ≠ q → pageAt (writeAt d (q * pageSize) staged) p = pageAt data p :=
      fun p hp => (pageAt_writeAt_ne hlen hp).trans (hsame p)
    rw [if_pos rfl]
    constructor
    · rintro ⟨htarget, hrest⟩
      right
      by_cases hq : q = pid
      · subst hq
        rw [hself] at htarget
        exact htarget.imp Eq.symm fun h => ⟨rfl, h⟩
      · exact .inl ((hrest q hq).symm.trans hself)
    · rintro (h | h | ⟨rfl, rfl⟩)
      · cases h
      · have hback : ∀ p, pageAt (writeAt d (q * pageSize) staged) p = pageAt data p := by
          intro p
          by_cases hp : p = q
          · rw [hp, hself, h]
          · exact hother p hp
        exact ⟨.inl (hback pid), fun p _ => hback p⟩
      · exact ⟨.inr hself, hother⟩

theorem staged_countOne (rest : Bytes) (h : image.length = pageSize) :
    CountOne (encodeBatch [(pid, image)] ++ rest) := by
  right
  rw [encodeBatch_one h, append_assoc]
  exact readAt_append_left _ _ (length_natToBE _ _)

/-- Wherever a call ends, fails or crashes, the staging file it leaves for the
next one says zero or one; recovery does not write that file. -/
theorem CountOne.crashState {s : Disk} {buf : Bytes} {pt : CrashPoint} (hs : CountOne s.dw)
    (hbuf : buf.length = pageSize) (hpt : CrashOk crc s pid buf pt) :
    CountOne (crashState crc s pid buf pt).dw := by
  have hlen := length_updateChecksumBytes crc hbuf
  have hstaged : CountOne (writeBatch s.dw [(pid, updateChecksumBytes crc buf)]) := by
    rw [writeBatch_eq]
    exact staged_countOne [] hlen
  cases pt with
  | start => exact hs
  | grown => exact hs
  | staging f => exact Tear.countOne hs hlen hpt
  | unsized =>
    rw [Wal.crashState, writeAt_zero]
    exact staged_countOne _ hlen
  | staged => exact hstaged
  | inPlace page => exact hstaged
  | written => exact hstaged
  | cleared =>
    have hempty : clear (writeBatch s.dw [(pid, updateChecksumBytes crc buf)]) = [] :=
      eq_nil_of_length_eq_zero (length_setLen _ _)
    rw [Wal.crashState, hempty]
    exact .inl rfl

theorem writePage_eq {s : Disk} {buf : Bytes} (h : pid * pageSize + pageSize < 2 ^ 64) :
    writePage crc s pid buf = .ok (crashState crc s pid buf .cleared) := by
  rw [writePage, pageOffset, if_pos ⟨by omega, h⟩]
  rfl

/-- After a crash anywhere inside `writePage` and recovery, the target has its
old or its new image and every other page is unchanged, exactly when the
entries that a crash before the staging is done leaves are harmless. -/
theorem write_page_crash_atomic_iff (crc : Crc32c) (s : Disk) (pid : Nat)
    (buf : Bytes) (pt : CrashPoint) (hs : CountOne s.dw) (hpid : pid * pageSize + pageSize < 2 ^ 64)
    (hbuf : buf.length = pageSize) (hpt : CrashOk crc s pid buf pt) :
    Atomic s.data (recoverTornPages crc (crashState crc s pid buf pt).data
      (crashState crc s pid buf pt).dw).1 pid (updateChecksumBytes crc buf) ↔
      NamesGood crc s pid (updateChecksumBytes crc buf) pt := by
  have hlen := length_updateChecksumBytes crc hbuf
  have hid : pid < 2 ^ 64 :=
    calc pid ≤ pid * pageSize := Nat.le_mul_of_pos_right pid (by decide)
      _ ≤ pid * pageSize + pageSize := Nat.le_add_right _ _
      _ < 2 ^ 64 := hpid
  have hstaged : readEntries (writeBatch s.dw
      [(pid, updateChecksumBytes crc buf)]) =
      [(pid, updateChecksumBytes crc buf)] :=
    readEntries_writeBatch s.dw (by simpa [EntryOk] using ⟨hlen, hid⟩)
  cases pt with
  | start => exact Atomic.recover_iff (fun _ => rfl) hs.length_readEntries
  | grown => exact Atomic.recover_iff (fun _ => pageAt_grow _) hs.length_readEntries
  | staging f =>
    exact Atomic.recover_iff (fun _ => pageAt_grow _)
      (Tear.countOne hs hlen hpt).length_readEntries
  | unsized =>
    refine iff_of_true ?_ trivial
    refine Atomic.recover hlen ?_ (fun q _ => pageAt_grow _)
      (fun _ => .inl (pageAt_grow _))
    rw [crashState, writeAt_zero]
    exact readEntries_staged _ hlen hid
  | staged =>
    refine iff_of_true ?_ trivial
    exact Atomic.recover hlen hstaged (fun q _ => pageAt_grow _)
      (fun _ => .inl (pageAt_grow _))
  | inPlace page =>
    obtain ⟨hpage, hbad⟩ := hpt
    refine iff_of_true (Atomic.recover hlen hstaged ?_ ?_) trivial
    · intro q hq
      rw [crashState]
      dsimp only
      rw [pageAt_writeAt_ne hpage hq, pageAt_grow]
    · intro hgood
      rw [isTorn] at hgood
      split at hgood
      · cases hgood
      · rw [crashState] at hgood
        dsimp only at hgood
        rw [pageAt_writeAt_self hpage, hbad] at hgood
        cases hgood
  | written =>
    refine iff_of_true (Atomic.recover hlen hstaged ?_ ?_) trivial
    · exact (Atomic.write hlen).2
    · exact fun _ => .inr (pageAt_writeAt_self hlen)
  | cleared =>
    refine iff_of_true ?_ trivial
    rw [crashState, recover_clear]
    exact Atomic.write hlen

/-! ## The two sides of the condition -/

/-- A page torn in place: the new image starts with a one, and of it only
that byte is there. -/
def tornPage : Bytes := 1 :: List.replicate 8191 0

theorem tornPage_bad : verifyPageChecksum Crc32c.castagnoli tornPage = false := by
  decide +kernel

theorem write_page_crash_atomic_in_place :
    Atomic (List.replicate 32768 0) (recoverTornPages Crc32c.castagnoli
      (crashState Crc32c.castagnoli ⟨List.replicate 32768 0, []⟩ 3 tornPage
        (.inPlace tornPage)).data
      (crashState Crc32c.castagnoli ⟨List.replicate 32768 0, []⟩ 3 tornPage
        (.inPlace tornPage)).dw).1 3
      (updateChecksumBytes Crc32c.castagnoli tornPage) :=
  (write_page_crash_atomic_iff Crc32c.castagnoli
    ⟨List.replicate 32768 0, []⟩ 3 tornPage (.inPlace tornPage)
    (.inl (by decide)) (by decide) (by decide +kernel)
    ⟨by decide +kernel, tornPage_bad⟩).mpr trivial

/-- A data file with both superblocks, a blank bitmap and one blank page. -/
def smallFile : Bytes :=
  let sb := ((Superblock.new pageSize).updateChecksum Crc32c.castagnoli).bytes
  setLen sb pageSize ++ setLen sb pageSize ++ List.replicate 16384 0

/-- The staging file was empty. Of the new one the count and the first byte of
the image are there, the page id is not, so it names page 0, the superblock,
whose checksum is not where a page has it. -/
theorem torn_staging_overwrites_superblock :
    ¬ ∀ (s : Disk) (pid : Nat) (buf : Bytes) (pt : CrashPoint),
        readEntries s.dw = [] → pid * pageSize + pageSize < 2 ^ 64 →
        buf.length = pageSize → CrashOk Crc32c.castagnoli s pid buf pt →
        (∀ f, pt = .staging f →
          ∀ e ∈ readEntries f, verifyPageChecksum Crc32c.castagnoli e.2 = false) →
        Atomic s.data (recoverTornPages Crc32c.castagnoli
          (crashState Crc32c.castagnoli s pid buf pt).data
          (crashState Crc32c.castagnoli s pid buf pt).dw).1 pid
          (updateChecksumBytes Crc32c.castagnoli buf) := by
  intro h
  have hlen : tornPage.length = pageSize := by decide +kernel
  have hes : readEntries (encodeBatch [(0, tornPage)]) = [(0, tornPage)] := by
    have := readEntries_staged [] hlen (by decide : 0 < 2 ^ 64)
    rwa [append_nil] at this
  have htear : Tear [] (encodeBatch [(3, updateChecksumBytes
      Crc32c.castagnoli tornPage)]) (encodeBatch [(0, tornPage)]) := by
    intro i
    rcases Nat.lt_or_ge i 13 with hi | hi
    · have hhead : ∀ i : Fin 13, (encodeBatch [(0, tornPage)]).getD i 0 = 0 ∨
          (encodeBatch [(0, tornPage)]).getD i 0 = (encodeBatch [(3,
            updateChecksumBytes Crc32c.castagnoli tornPage)]).getD i 0 := by
        decide +kernel
      exact hhead ⟨i, hi⟩
    · left
      obtain ⟨j, rfl⟩ := Nat.exists_eq_add_of_le hi
      rw [encodeBatch_one hlen,
        getD_append_right _ _ _ _ (by rw [length_natToBE]; omega),
        getD_append_right _ _ _ _ (by simp only [length_natToBE]; omega)]
      simp only [length_natToBE]
      rw [show 13 + j - 4 - 8 = j + 1 by omega]
      exact getD_replicate_zero 8191 j
  have hbad : ∀ e ∈ readEntries (encodeBatch [(0, tornPage)]),
      verifyPageChecksum Crc32c.castagnoli e.2 = false := by
    rw [hes]
    intro e he
    rw [mem_singleton.mp he]
    exact tornPage_bad
  have hat := (h ⟨smallFile, []⟩ 3 tornPage
    (.staging (encodeBatch [(0, tornPage)])) rfl (by decide) hlen htear
    (fun _ hf => CrashPoint.staging.inj hf ▸ hbad)).2 0 (by decide)
  have hgrow : grow smallFile (3 * pageSize + pageSize) = smallFile := by
    rw [grow, if_neg (by decide +kernel)]
  have htorn : isTorn Crc32c.castagnoli smallFile 0 = true := by
    decide +kernel
  rw [crashState, hgrow] at hat
  dsimp only at hat
  rw [recover_one hlen hes, if_pos htorn, pageAt_writeAt_self hlen] at hat
  have hbyte : tornPage.getD 2 0 ≠ (pageAt smallFile 0).getD 2 0 := by
    decide +kernel
  exact hbyte (by rw [hat])

end RGraph.Wal
