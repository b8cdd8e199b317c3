import RGraph.Proofs.PageAlloc

/-!
# Runs of the page manager

A run keeps the open manager if there is one, the data file, and the pages
that have an owner: handed out and not given back since, or found in use by a
reconciliation. Closing forgets the manager and nothing else.
-/

namespace RGraph.Storage

open RGraph.Lib PageManager List

structure PmRun where
  pm : Option PageManager
  disk : DataFile
  live : List Nat

inductive PmOp where
  | allocate
  | free (pid : Nat)
  | syncSuperblock
  | syncBitmap
  | syncBitmaps
  | write (pid : Nat) (buf : Bytes)
  | close
  | reopen
  | reconcile

section Run

variable (crc : Crc32c)

def PmRun.fresh : PmRun := ⟨some (init crc pageSize), DataFile.blank, []⟩

/-- The data pages a reconciliation finds in use. -/
def DataFile.found (d : DataFile) : List Nat :=
  (List.range (d.fileLen / pageSize)).filter fun pid => 3 ≤ pid && d.inUse crc pid

def pmStep (s : PmRun) : PmOp → PmRun
  | .allocate =>
    match s.pm with
    | none => s
    | some pm =>
      match pm.tryAllocatePage with
      | (.ok pid, pm) => { s with pm := some pm, live := pid :: s.live }
      | (.error _, pm) => { s with pm := some pm }
  | .free pid =>
    { s with
      pm := s.pm.map (·.freePage pid)
      live := s.live.filter (· != pid) }
  | .syncSuperblock =>
    match s.pm with
    | none => s
    | some pm =>
      let (pm, disk) := pm.syncSuperblock crc s.disk
      { s with pm := some pm, disk := disk }
  | .syncBitmap =>
    match s.pm with
    | none => s
    | some pm => { s with disk := pm.syncBitmap s.disk }
  | .syncBitmaps =>
    match s.pm with
    | none => s
    | some pm => { s with disk := pm.syncBitmaps s.disk }
  | .write pid buf => { s with disk := s.disk.writeData crc pid buf }
  | .close => { s with pm := none }
  | .reopen =>
    match openFile crc s.disk with
    | .ok pm => { s with pm := some pm }
    | .error _ => { s with pm := none }
  | .reconcile =>
    match s.pm with
    | none => s
    | some pm =>
      { s with
        pm := some (reconcileFromDisk crc s.disk pm)
        live := s.disk.found crc ++ s.live }

/-- The page the next allocation hands out. -/
def PmRun.nextPage (s : PmRun) : Option Nat :=
  match s.pm with
  | none => none
  | some pm => pm.tryAllocatePage.1.toOption

/-- The condition of a step: a reopening finds persisted what it needs, and a
reconciliation finds no page in use that is in the cache. -/
def MetadataOk (s : PmRun) : PmOp → Prop
  | .reopen => ∀ pm, openFile crc s.disk = .ok pm → PersistedOk pm s.live
  | .reconcile => ∀ pm, s.pm = some pm →
      ∀ c ∈ pm.freeCache, c ∉ s.disk.found crc
  | _ => True

instance MetadataOk.decidable : ∀ s o, Decidable (MetadataOk crc s o)
  | s, .reopen =>
    match h : openFile crc s.disk with
    | .ok pm => decidable_of_iff (PersistedOk pm s.live)
        ⟨fun hp _ e => by rw [h] at e; cases e; exact hp, fun hp => hp pm h⟩
    | .error _ => isTrue fun _ e => by rw [h] at e; cases e
  | s, .reconcile =>
    match h : s.pm with
    | some pm => decidable_of_iff
        (∀ c ∈ pm.freeCache, c ∉ s.disk.found crc)
        ⟨fun hp _ e => by rw [h] at e; cases e; exact hp, fun hp => hp pm h⟩
    | none => isTrue fun _ e => by rw [h] at e; cases e
  | _, .allocate | _, .free _ | _, .syncSuperblock | _, .syncBitmap
  | _, .syncBitmaps | _, .write _ _ | _, .close => isTrue trivial

structure PmRunOk (s : PmRun) : Prop where
  data : DataPages s.live
  alloc : ∀ pm, s.pm = some pm → AllocOk pm s.live

variable {crc}

theorem isReserved_of_inUse {d : DataFile} {q : Nat} (h3 : 3 ≤ q)
    (h : d.inUse crc q = true) : isReserved q = false := by
  rw [DataFile.inUse, Bool.and_eq_true, Bool.and_eq_true] at h
  rw [isReserved, firstDataPageId, Bool.or_eq_false_iff, decide_eq_false_iff_not]
  exact ⟨by omega, by simpa using h.1.1⟩

theorem mem_found {d : DataFile} {q : Nat} : q ∈ d.found crc ↔
      3 ≤ q ∧ q < d.fileLen / pageSize ∧ d.inUse crc q = true := by
  simp only [DataFile.found, mem_filter, mem_range, Bool.and_eq_true, decide_eq_true_eq]
  tauto

theorem nextFreePageId_raiseMark (sb : Superblock) (m highWater : Nat) :
    (raiseMark sb m highWater).nextFreePageId = max sb.nextFreePageId (m + 1) := by
  by_cases h : m + 1 > sb.nextFreePageId
  · rw [raiseMark, if_pos h, Nat.max_eq_right (Nat.le_of_lt h)]
    split <;> rfl
  · rw [raiseMark, if_neg h, Nat.max_eq_left (Nat.le_of_not_lt h)]
    split <;> rfl

theorem reconcile_ok {d : DataFile} {pm : PageManager} {live : List Nat}
    (h : AllocOk pm live) (hd : DataPages live) (hcache : ∀ c ∈ pm.freeCache, c ∉ d.found crc) :
    AllocOk (reconcileFromDisk crc d pm) (d.found crc ++ live) := by
  obtain ⟨h1, h2, h3, h4, h5, h6, h7⟩ := reconcileLoop_spec crc d
    (d.fileLen / pageSize - 3) 3 pm (pm.superblock.nextFreePageId - 1)
    (Nat.le_refl _) h.slots
  rw [reconcileFromDisk]
  simp only [firstDataPageId]
  generalize reconcileLoop crc d (d.fileLen / pageSize - 3) 3 pm
    (pm.superblock.nextFreePageId - 1) = r at *
  obtain ⟨pm', m⟩ := r
  dsimp only at h1 h2 h3 h4 h5 h6 h7 ⊢
  have hstart := h.start
  have hin : ∀ q, 3 ≤ q → q < 3 + (d.fileLen / pageSize - 3) →
      d.inUse crc q = true → q ∈ d.found crc :=
    fun q ha hb hc => mem_found.mpr ⟨ha, by omega, hc⟩
  have hnext := nextFreePageId_raiseMark pm'.superblock m (d.fileLen / pageSize)
  generalize raiseMark pm'.superblock m (d.fileLen / pageSize) = sb at hnext ⊢
  rw [h2] at hnext
  have hbits : ∀ q, isReserved q = false →
      (PageManager.isSet { pm' with superblock := sb } q = true ↔
        pm.isSet q = true ∨ 3 ≤ q ∧ q < 3 + (d.fileLen / pageSize - 3) ∧
          d.inUse crc q = true) := fun q hq => by
    rw [isSet_congr (t := { pm' with superblock := sb }) rfl q]
    exact h7 q hq
  refine ⟨h1, ?_, ?_, ?_, ?_, ?_⟩
  · dsimp only; omega
  · dsimp only; rw [h3]; exact h.nodup
  · intro c hc
    dsimp only at hc ⊢
    rw [h3] at hc
    obtain ⟨g1, g2, g3, g4⟩ := h.cache c hc
    refine ⟨g1, ?_, ?_, by omega⟩
    · rw [Covers] at g2 ⊢
      dsimp only
      omega
    · rw [Bool.eq_false_iff]
      intro hset
      rcases (hbits c g1).mp hset with hs | ⟨ha, hb, hc'⟩
      · rw [g3] at hs; cases hs
      · exact hcache c hc (hin c ha hb hc')
  · intro l hl
    rcases mem_append.mp hl with hf | hl
    · obtain ⟨ha, hb, hc⟩ := mem_found.mp hf
      exact (hbits l (isReserved_of_inUse ha hc)).mpr (.inr ⟨ha, by omega, hc⟩)
    · exact (hbits l (hd l hl)).mpr (.inl (h.live l hl))
  · intro q hq hs
    dsimp only
    rcases (hbits q hq).mp hs with hs | ⟨ha, hb, hc⟩
    · have := h.mark q hq hs
      omega
    · have := h6 q ha hb hc
      omega

/-! ## Steps and runs -/

theorem pmRunOk_fresh : PmRunOk (PmRun.fresh crc) := by
  refine ⟨nofun, ?_⟩
  intro pm hpm
  cases hpm
  refine ⟨?_, Nat.le_refl _, nodup_nil, nofun, nofun, ?_⟩
  · intro i b hi
    rcases i with _ | i
    · cases hi; rfl
    · cases hi
  · intro q hq hset
    obtain ⟨hlow, -⟩ := isReserved_false.mp hq
    rw [PageManager.isSet] at hset
    split at hset
    · next b hb =>
        rw [init, List.getElem?_singleton] at hb
        split at hb
        · cases hb
          simp [BitmapPage.isSet, BitmapPage.allocate, BitmapPage.new,
            BitmapPage.localIndex, BitmapPage.basePageId,
            firstBitmapPageId] at hset
          omega
        · cases hb
    · cases hset

theorem pmStep_ok (s : PmRun) (o : PmOp) (hs : PmRunOk s)
    (ho : MetadataOk crc s o) : PmRunOk (pmStep crc s o) := by
  cases o with
  | allocate =>
    rw [pmStep]
    cases hpm : s.pm with
    | none => exact hs
    | some pm =>
      have hres := tryAllocatePage_ok (hs.alloc pm hpm) hs.data
      dsimp only
      generalize pm.tryAllocatePage = r at hres
      obtain ⟨_ | pid, t⟩ := r
      · exact ⟨hs.data, fun pm h => by cases h; exact hres⟩
      · obtain ⟨-, hr, hok⟩ := hres
        refine ⟨?_, fun pm h => by cases h; exact hok⟩
        intro l hl
        rcases mem_cons.mp hl with e | hl
        · rw [e]; exact hr
        · exact hs.data l hl
  | free pid =>
    refine ⟨fun l hl => hs.data l (mem_of_mem_filter hl), ?_⟩
    intro pm h
    obtain ⟨old, hold, rfl⟩ := Option.map_eq_some_iff.mp h
    exact (hs.alloc old hold).freePage pid
  | syncSuperblock =>
    rw [pmStep]
    cases hpm : s.pm with
    | none => exact hs
    | some pm =>
      refine ⟨hs.data, fun t h => ?_⟩
      cases h
      exact (hs.alloc pm hpm).of_superblock rfl rfl (Nat.le_refl _)
  | syncBitmap =>
    rw [pmStep]
    cases hpm : s.pm with
    | none => exact hs
    | some pm => exact ⟨hs.data, fun t h => by cases h; exact hs.alloc pm hpm⟩
  | syncBitmaps =>
    rw [pmStep]
    cases hpm : s.pm with
    | none => exact hs
    | some pm => exact ⟨hs.data, fun t h => by cases h; exact hs.alloc pm hpm⟩
  | write pid buf => exact ⟨hs.data, hs.alloc⟩
  | close => exact ⟨hs.data, nofun⟩
  | reopen =>
    rw [pmStep]
    cases hopen : openFile crc s.disk with
    | error e => exact ⟨hs.data, nofun⟩
    | ok pm =>
      refine ⟨hs.data, fun t h => ?_⟩
      cases h
      exact openFile_ok hopen (ho pm hopen)
  | reconcile =>
    rw [pmStep]
    cases hpm : s.pm with
    | none => exact hs
    | some pm =>
      refine ⟨?_, fun t h => ?_⟩
      · intro l hl
        rcases mem_append.mp hl with hf | hl
        · obtain ⟨h3, -, hin⟩ := mem_found.mp hf
          exact isReserved_of_inUse h3 hin
        · exact hs.data l hl
      · cases h
        exact reconcile_ok (hs.alloc pm hpm) hs.data (ho pm hpm)

/-- In a run whose reopenings and reconciliations meet the condition, the
next allocation never hands out a page that has an owner, nor one of the
manager's own pages. -/
theorem allocate_fresh_page (crc : Crc32c) (ops : List PmOp)
    (h : Guarded (pmStep crc) (MetadataOk crc) (PmRun.fresh crc) ops) (n pid : Nat)
    (hp : (run (pmStep crc) (PmRun.fresh crc) (ops.take n)).nextPage =
      some pid) :
    pid ∉ (run (pmStep crc) (PmRun.fresh crc) (ops.take n)).live ∧
      firstDataPageId ≤ pid ∧ isBitmapPage pid = false := by
  have hs := run_inv_take pmStep_ok pmRunOk_fresh h n
  generalize run (pmStep crc) (PmRun.fresh crc) (ops.take n) = s at *
  rw [PmRun.nextPage] at hp
  cases hpm : s.pm with
  | none => rw [hpm] at hp; cases hp
  | some pm =>
    rw [hpm] at hp
    have hres := tryAllocatePage_ok (hs.alloc pm hpm) hs.data
    dsimp only at hp
    generalize pm.tryAllocatePage = r at hp hres
    obtain ⟨_ | q, t⟩ := r
    · cases hp
    · cases hp
      obtain ⟨hnot, hr, -⟩ := hres
      rw [isReserved, Bool.or_eq_false_iff, decide_eq_false_iff_not] at hr
      exact ⟨hnot, Nat.not_lt.mp hr.1, hr.2⟩

end Run

/-! ## The two sides of the condition -/

/-- Sixty-four pages are handed out and given back, so that the clear bits a
reopening finds are all below the mark. -/
def cleanReopen : List PmOp :=
  List.replicate 64 .allocate ++ (List.range 64).map (fun i => .free (3 + i)) ++
    [.syncSuperblock, .syncBitmap, .close, .reopen, .allocate]

theorem allocate_fresh_page_reopened :
    66 ∉ (run (pmStep Crc32c.castagnoli) (PmRun.fresh Crc32c.castagnoli)
      (cleanReopen.take 132)).live ∧
      firstDataPageId ≤ 66 ∧ isBitmapPage 66 = false :=
  allocate_fresh_page Crc32c.castagnoli cleanReopen (by decide +kernel) 132 66
    (by decide +kernel)

/-- A new database is synced and reopened. No page is in use, so the cache is
filled with the pages 3 to 66, all at or above the mark, which stays at 3
while they are handed out. -/
theorem reopened_cache_hands_out_twice : ¬ ∀ (ops : List PmOp) (n pid : Nat),
        (run (pmStep Crc32c.castagnoli) (PmRun.fresh Crc32c.castagnoli)
          (ops.take n)).nextPage = some pid →
        pid ∉ (run (pmStep Crc32c.castagnoli) (PmRun.fresh Crc32c.castagnoli)
          (ops.take n)).live ∧
          firstDataPageId ≤ pid ∧ isBitmapPage pid = false := by
  intro h
  exact (h ([.syncSuperblock, .syncBitmap, .close, .reopen] ++
    List.replicate 64 .allocate) 68 3 (by decide +kernel)).1
    (by decide +kernel)

end RGraph.Storage
