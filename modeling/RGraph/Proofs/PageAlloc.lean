import Mathlib.Data.List.Basic
import RGraph.Lib.Run
import RGraph.Storage.Manager

/-!
# No page has two owners

Three things say which pages are free: the cache, the bitmaps and the
high-water mark `nextFreePageId`. The invariant ties them together: a cached
page is a clear bit below the mark, a live page is a set bit, and no bit is
set at or above the mark. Allocating and freeing keep it. Reopening throws the
three away and rebuilds them from what was last synced, and reconciling sets
bits without looking at the cache, so these two steps keep it only under a
condition.
-/

namespace RGraph.Storage

open RGraph.Lib List

/-! ## Bits -/

variable {q : Nat}

theorem isReserved_false : isReserved q = false ↔ 3 ≤ q ∧ q % pagesPerBitmap ≠ 0 := by
  rw [isReserved, isBitmapPage, firstDataPageId, firstBitmapPageId]
  simp only [Bool.or_eq_false_iff, decide_eq_false_iff_not,
    beq_eq_false_iff_ne, Bool.and_eq_false_iff, bne_eq_false_iff_eq, ne_eq]
  omega

theorem BitmapPage.isSet_allocate {b : BitmapPage} {p : Nat}
    (hp : b.basePageId ≤ p) (hq : b.basePageId ≤ q) :
    (b.allocate p).isSet q = (b.isSet q || q == p) := by
  have hloc : b.localIndex q = b.localIndex p ↔ q = p := by
    simp only [localIndex]; omega
  rw [Bool.eq_iff_iff]
  simp only [isSet, allocate, localIndex, basePageId, contains_iff_mem,
    mem_insert_iff, Bool.or_eq_true, beq_iff_eq]
  simp only [localIndex, basePageId] at hloc
  rw [hloc, or_comm]

theorem BitmapPage.isSet_free {b : BitmapPage} {p : Nat}
    (hp : b.basePageId ≤ p) (hq : b.basePageId ≤ q) :
    (b.free p).isSet q = (b.isSet q && q != p) := by
  have hloc : b.localIndex q = b.localIndex p ↔ q = p := by
    simp only [localIndex]; omega
  rw [Bool.eq_iff_iff]
  simp only [isSet, free, localIndex, basePageId, contains_iff_mem,
    mem_filter, Bool.and_eq_true, bne_iff_ne, ne_eq]
  simp only [localIndex, basePageId] at hloc
  rw [hloc]

namespace PageManager

/-- The bitmap at an index tracks the region of that index. -/
def SlotsOk (pm : PageManager) : Prop :=
  ∀ (i : Nat) (b : BitmapPage), pm.bitmaps[i]? = some b → b.bitmapSlot = i

def Covers (pm : PageManager) (pid : Nat) : Prop := pid / pagesPerBitmap < pm.bitmaps.length

variable {pid : Nat} {pm : PageManager}

theorem base_le (hs : pm.SlotsOk) {b : BitmapPage}
    (hb : pm.bitmaps[pid / pagesPerBitmap]? = some b) : b.basePageId ≤ pid := by
  rw [BitmapPage.basePageId, hs _ b hb]
  exact Nat.div_mul_le_self _ _

/-- Changing the bitmap of `pid` by a function that only touches that bit. -/
theorem isSet_modify (hs : pm.SlotsOk) (hc : pm.Covers pid) {f : BitmapPage → BitmapPage} {v : Bool}
    (hf : ∀ (b : BitmapPage) (q : Nat), b.basePageId ≤ pid →
      b.basePageId ≤ q → (f b).isSet q = if q = pid then v else b.isSet q)
    (t : PageManager) (ht : t.bitmaps = pm.bitmaps.modify (pid / pagesPerBitmap) f) (q : Nat) :
    t.isSet q = if q = pid then v else pm.isSet q := by
  rw [isSet, isSet, ht, List.getElem?_modify]
  by_cases hq : pid / pagesPerBitmap = q / pagesPerBitmap
  · obtain ⟨b, hb⟩ : ∃ b, pm.bitmaps[q / pagesPerBitmap]? = some b :=
      ⟨_, List.getElem?_eq_getElem (hq ▸ hc)⟩
    have hbp : b.basePageId ≤ pid := base_le hs (hq ▸ hb)
    rw [hb]
    simp only [if_pos hq, Option.map_eq_map, Option.map_some]
    exact hf b q hbp (base_le hs hb)
  · have hne : q ≠ pid := fun h => hq (by rw [h])
    rw [if_neg hne]
    simp only [if_neg hq, Option.map_eq_map, Option.map_id']

theorem isSet_markAllocated (hs : pm.SlotsOk) (hc : pm.Covers pid) (q : Nat) :
    (pm.markAllocated pid).isSet q = if q = pid then true else pm.isSet q := by
  refine isSet_modify hs hc (fun b q hp hq => ?_) _ rfl q
  rw [BitmapPage.isSet_allocate hp hq]
  split <;> simp_all

variable {t : PageManager}

theorem SlotsOk.modify (hs : pm.SlotsOk) {i : Nat}
    {f : BitmapPage → BitmapPage} (hf : ∀ b, (f b).bitmapSlot = b.bitmapSlot)
    (ht : t.bitmaps = pm.bitmaps.modify i f) : t.SlotsOk := by
  intro j b hb
  rw [ht, List.getElem?_modify] at hb
  obtain ⟨b', hb', rfl⟩ := Option.map_eq_some_iff.mp hb
  split
  · rw [hf]; exact hs j b' hb'
  · exact hs j b' hb'

/-! ## New bitmaps -/

theorem slotsOk_pushBitmap (hs : pm.SlotsOk) : pm.pushBitmap.SlotsOk := by
  intro i b hb
  rw [pushBitmap] at hb
  dsimp only at hb
  rcases Nat.lt_trichotomy i pm.bitmaps.length with hi | rfl | hi
  · rw [List.getElem?_append_left hi] at hb
    exact hs i b hb
  · rw [List.getElem?_concat_length] at hb
    cases hb
    split <;> rfl
  · rw [List.getElem?_eq_none (by simp; omega)] at hb
    cases hb

variable {q : Nat}

theorem isSet_fresh {n : Nat} (hq : isReserved q = false) (hn : q / pagesPerBitmap = n) :
    (if n = 0 then (((BitmapPage.new (bitmapPhysicalPageId n) n).allocate
        (bitmapPhysicalPageId n)).allocate 0).allocate 1
      else (BitmapPage.new (bitmapPhysicalPageId n) n).allocate
        (bitmapPhysicalPageId n)).isSet q = false := by
  have hbase : n * pagesPerBitmap ≤ q := by
    rw [← hn]; exact Nat.div_mul_le_self _ _
  obtain ⟨hlow, hmul⟩ := isReserved_false.mp hq
  split
  · next h0 =>
      subst h0
      have hb : ∀ (b : BitmapPage) (p : Nat), b.bitmapSlot = 0 → b.basePageId ≤ p := by
        intro b p h
        rw [BitmapPage.basePageId, h, Nat.zero_mul]
        exact Nat.zero_le p
      rw [BitmapPage.isSet_allocate (hb _ _ rfl) (hb _ _ rfl),
        BitmapPage.isSet_allocate (hb _ _ rfl) (hb _ _ rfl),
        BitmapPage.isSet_allocate (hb _ _ rfl) (hb _ _ rfl)]
      have h2 : q ≠ bitmapPhysicalPageId 0 := by
        rw [bitmapPhysicalPageId, if_pos rfl, firstBitmapPageId]; omega
      have h0 : q ≠ 0 := by omega
      have h1 : q ≠ 1 := by omega
      simp [BitmapPage.isSet, BitmapPage.new, h2, h0, h1]
  · next h0 =>
      have hphys : bitmapPhysicalPageId n = n * pagesPerBitmap := if_neg h0
      have hne : q ≠ n * pagesPerBitmap := by
        intro h
        exact hmul (by rw [h, Nat.mul_mod_left])
      have hb : ∀ p, n * pagesPerBitmap ≤ p →
          (BitmapPage.new (bitmapPhysicalPageId n) n).basePageId ≤ p :=
        fun _ h => h
      rw [BitmapPage.isSet_allocate (hb _ (Nat.le_of_eq hphys.symm)) (hb _ hbase), hphys]
      simp [BitmapPage.isSet, BitmapPage.new, hne]

/-- A new bitmap has no bit set for a page that is not reserved. -/
theorem isSet_pushBitmap (hq : isReserved q = false) : pm.pushBitmap.isSet q = pm.isSet q := by
  rw [isSet, isSet, pushBitmap]
  dsimp only
  rcases Nat.lt_trichotomy (q / pagesPerBitmap) pm.bitmaps.length with hi | hi | hi
  · rw [List.getElem?_append_left hi]
  · rw [hi, List.getElem?_concat_length, List.getElem?_eq_none (Nat.le_refl _)]
    exact isSet_fresh hq hi
  · rw [List.getElem?_eq_none (by simp; omega), List.getElem?_eq_none (by omega)]

theorem pushBitmaps_spec (n : Nat) (pm : PageManager) (hs : pm.SlotsOk) :
    (pushBitmaps n pm).SlotsOk ∧ (pushBitmaps n pm).bitmaps.length = pm.bitmaps.length + n ∧
    (pushBitmaps n pm).superblock = pm.superblock ∧ (pushBitmaps n pm).freeCache = pm.freeCache ∧
    ∀ q, isReserved q = false → (pushBitmaps n pm).isSet q = pm.isSet q := by
  induction n generalizing pm with
  | zero => exact ⟨hs, rfl, rfl, rfl, fun _ _ => rfl⟩
  | succ n ih =>
    obtain ⟨h1, h2, h3, h4, h5⟩ := ih pm.pushBitmap (slotsOk_pushBitmap hs)
    refine ⟨h1, ?_, h3, h4, fun q hq => ?_⟩
    · rw [pushBitmaps, h2, pushBitmap, length_append, length_singleton]
      omega
    · rw [pushBitmaps, h5 q hq, isSet_pushBitmap hq]

/-- Making sure there is a bitmap for `pid` and setting its bit. -/
theorem mark_spec (hs : pm.SlotsOk) (t : PageManager)
    (ht : t = (pm.ensureBitmap (pid / pagesPerBitmap)).markAllocated pid) :
    t.SlotsOk ∧ t.superblock = pm.superblock ∧ t.freeCache = pm.freeCache ∧
    t.bitmaps.length = max pm.bitmaps.length (pid / pagesPerBitmap + 1) ∧
    ∀ q, isReserved q = false → t.isSet q = if q = pid then true else pm.isSet q := by
  obtain ⟨h1, h2, h3, h4, h5⟩ := pushBitmaps_spec
    (pid / pagesPerBitmap + 1 - pm.bitmaps.length) pm hs
  rw [← ensureBitmap] at h1 h2 h3 h4 h5
  have hlen : (pm.ensureBitmap (pid / pagesPerBitmap)).bitmaps.length =
      max pm.bitmaps.length (pid / pagesPerBitmap + 1) := by
    rw [h2]; omega
  have hc : (pm.ensureBitmap (pid / pagesPerBitmap)).Covers pid := by
    rw [Covers, hlen]; omega
  subst ht
  refine ⟨h1.modify (f := fun b => b.allocate pid) (fun _ => rfl) rfl, h3, h4, ?_, fun q hq => ?_⟩
  · rw [markAllocated, length_modify, hlen]
  · rw [isSet_markAllocated h1 hc, h5 q hq]

/-! ## The invariant -/

/-- The cache, the bitmaps and the high-water mark of an open manager agree
with each other and with the pages that have an owner. -/
structure AllocOk (pm : PageManager) (live : List Nat) : Prop where
  slots : pm.SlotsOk
  start : 3 ≤ pm.superblock.nextFreePageId
  nodup : pm.freeCache.Nodup
  cache : ∀ c ∈ pm.freeCache, isReserved c = false ∧ pm.Covers c ∧
    pm.isSet c = false ∧ c < pm.superblock.nextFreePageId
  live : ∀ l ∈ live, pm.isSet l = true
  mark : ∀ q, isReserved q = false → pm.isSet q = true → q < pm.superblock.nextFreePageId

def DataPages (live : List Nat) : Prop := ∀ l ∈ live, isReserved l = false

theorem isSet_congr (h : t.bitmaps = pm.bitmaps) (q : Nat) : t.isSet q = pm.isSet q := by
  rw [isSet, isSet, h]

theorem covers_of_isSet (h : pm.isSet q = true) : pm.Covers q := by
  rw [isSet] at h
  split at h
  · next b hb => exact (List.getElem?_eq_some_iff.mp hb).1
  · cases h

variable {live : List Nat}

/-- A live page is not in the cache and lies below the mark. -/
theorem AllocOk.live_lt (h : AllocOk pm live) (hd : DataPages live) :
    ∀ l ∈ live, l < pm.superblock.nextFreePageId :=
  fun l hl => h.mark l (hd l hl) (h.live l hl)

/-- The superblock matters only through the mark. -/
theorem AllocOk.of_superblock (h : AllocOk pm live)
    (hb : t.bitmaps = pm.bitmaps) (hc : t.freeCache = pm.freeCache)
    (hn : pm.superblock.nextFreePageId ≤ t.superblock.nextFreePageId) :
    AllocOk t live where
  slots := by intro i b hi; rw [hb] at hi; exact h.slots i b hi
  start := Nat.le_trans h.start hn
  nodup := by rw [hc]; exact h.nodup
  cache := by
    intro c hcm
    rw [hc] at hcm
    obtain ⟨h1, h2, h3, h4⟩ := h.cache c hcm
    refine ⟨h1, ?_, ?_, Nat.lt_of_lt_of_le h4 hn⟩
    · rw [Covers, hb]; exact h2
    · rw [isSet_congr hb]; exact h3
  live := by intro l hl; rw [isSet_congr hb]; exact h.live l hl
  mark := by
    intro q hq hs
    rw [isSet_congr hb] at hs
    exact Nat.lt_of_lt_of_le (h.mark q hq hs) hn

/-- Setting the bit of a page that is below the mark and not cached. -/
theorem AllocOk.mark_page (h : AllocOk pm live) (hd : DataPages live)
    (hlt : pid < pm.superblock.nextFreePageId) (hnc : pid ∉ pm.freeCache) (t : PageManager)
    (ht : t = (pm.ensureBitmap (pid / pagesPerBitmap)).markAllocated pid) :
    AllocOk t live ∧ (isReserved pid = false → AllocOk t (pid :: live)) := by
  obtain ⟨hs, hsb, hc, hlen, hset⟩ := mark_spec h.slots t ht
  have hok : AllocOk t live := by
    refine ⟨hs, ?_, ?_, ?_, ?_, ?_⟩
    · rw [hsb]; exact h.start
    · rw [hc]; exact h.nodup
    · intro c hcm
      rw [hc] at hcm
      obtain ⟨h1, h2, h3, h4⟩ := h.cache c hcm
      have hne : c ≠ pid := fun e => hnc (e ▸ hcm)
      refine ⟨h1, ?_, ?_, ?_⟩
      · rw [Covers] at h2 ⊢; rw [hlen]; omega
      · rw [hset c h1, if_neg hne]; exact h3
      · rw [hsb]; exact h4
    · intro l hl
      rw [hset l (hd l hl)]
      split
      · rfl
      · exact h.live l hl
    · intro q hq hqs
      rw [hset q hq] at hqs
      rw [hsb]
      split at hqs
      · next e => rw [e]; exact hlt
      · exact h.mark q hq hqs
  refine ⟨hok, fun hr => ⟨hok.slots, hok.start, hok.nodup, hok.cache, ?_, hok.mark⟩⟩
  intro l hl
  rcases mem_cons.mp hl with e | hl
  · rw [e, hset pid hr, if_pos rfl]
  · exact hok.live l hl

/-! ## Allocating -/

/-- What an allocation must give: a page without an owner that is not one of
the manager's own, or an error. -/
def AllocResult (live : List Nat) (r : Except String Nat × PageManager) : Prop :=
  match r with
  | (.ok pid, t) => pid ∉ live ∧ isReserved pid = false ∧ AllocOk t (pid :: live)
  | (.error _, t) => AllocOk t live

theorem extend_ok (fuel : Nat) (h : AllocOk pm live) (hd : DataPages live) :
    AllocResult live (extend fuel pm) := by
  induction fuel generalizing pm with
  | zero => exact h
  | succ fuel ih =>
    rw [extend]
    dsimp only
    split
    · exact h
    · have hbump : AllocOk { pm with superblock := { pm.superblock with
          nextFreePageId := pm.superblock.nextFreePageId + 1
          totalPageCount := pm.superblock.totalPageCount + 1 } } live :=
        h.of_superblock rfl rfl (Nat.le_succ _)
      have hnc : pm.superblock.nextFreePageId ∉ pm.freeCache :=
        fun hm => Nat.lt_irrefl _ (h.cache _ hm).2.2.2
      obtain ⟨hok, hcons⟩ := hbump.mark_page hd (Nat.lt_succ_self _) hnc _ rfl
      split
      · exact ih hok
      · next hb =>
          have hr : isReserved pm.superblock.nextFreePageId = false := by
            have := h.start
            rw [isReserved, firstDataPageId, Bool.or_eq_false_iff, decide_eq_false_iff_not]
            exact ⟨by omega, by simpa using hb⟩
          refine ⟨fun hm => ?_, hr, hcons hr⟩
          exact Nat.lt_irrefl _ (h.live_lt hd _ hm)

theorem tryAllocatePage_ok (h : AllocOk pm live) (hd : DataPages live) :
    AllocResult live pm.tryAllocatePage := by
  rw [tryAllocatePage]
  split
  · next pid rest hcache =>
      have hmem : pid ∈ pm.freeCache := by rw [hcache]; simp
      obtain ⟨hr, hcov, hclear, hlt⟩ := h.cache pid hmem
      have hnd := h.nodup
      rw [hcache, nodup_cons] at hnd
      -- popping is the same as dropping the page from the cache and marking it
      have hrest : AllocOk { pm with
          superblock := { pm.superblock with
            freePageCount := pm.superblock.freePageCount - 1 }
          freeCache := rest } live := by
        refine ⟨h.slots, h.start, hnd.2, fun c hc => ?_, h.live, h.mark⟩
        exact h.cache c (by rw [hcache]; exact mem_cons_of_mem _ hc)
      obtain ⟨-, hcons⟩ := hrest.mark_page hd hlt hnd.1 _ rfl
      have hens : ({ pm with
          superblock := { pm.superblock with
            freePageCount := pm.superblock.freePageCount - 1 }
          freeCache := rest } : PageManager).ensureBitmap
            (pid / pagesPerBitmap) = { pm with
          superblock := { pm.superblock with
            freePageCount := pm.superblock.freePageCount - 1 }
          freeCache := rest } := by
        rw [ensureBitmap, Nat.sub_eq_zero_of_le hcov, pushBitmaps]
      rw [hens] at hcons
      refine ⟨fun hl => ?_, hr, hcons hr⟩
      rw [h.live pid hl] at hclear
      cases hclear
  · exact extend_ok _ h hd

/-! ## Freeing -/

theorem AllocOk.freePage (h : AllocOk pm live) (pid : Nat) :
    AllocOk (pm.freePage pid) (live.filter (· != pid)) := by
  have hless : AllocOk pm (live.filter (· != pid)) :=
    ⟨h.slots, h.start, h.nodup, h.cache, fun l hl => h.live l (mem_of_mem_filter hl), h.mark⟩
  rw [PageManager.freePage]
  split
  · exact hless
  · next hr =>
      split
      · exact hless
      · next hset =>
          have hr : isReserved pid = false := by simpa using hr
          have hset : pm.isSet pid = true := by simpa using hset
          have hcov := covers_of_isSet hset
          have hbit : ∀ q, PageManager.isSet
              { superblock := { pm.superblock with
                  freePageCount := pm.superblock.freePageCount + 1 }
                bitmaps := pm.bitmaps.modify (pid / pagesPerBitmap) fun b => b.free pid
                freeCache := pid :: pm.freeCache } q =
              if q = pid then false else pm.isSet q := by
            intro q
            refine isSet_modify h.slots hcov (fun b q hp hq => ?_) _ rfl q
            rw [BitmapPage.isSet_free hp hq]
            split <;> simp_all
          refine ⟨h.slots.modify (f := fun b => b.free pid) (fun _ => rfl) rfl,
            h.start, ?_, ?_, ?_, ?_⟩
          · refine nodup_cons.mpr ⟨fun hm => ?_, h.nodup⟩
            rw [(h.cache pid hm).2.2.1] at hset
            cases hset
          · intro c hc
            rw [hbit, Covers, length_modify]
            rcases mem_cons.mp hc with e | hc
            · rw [if_pos e, e]
              exact ⟨hr, hcov, rfl, h.mark pid hr hset⟩
            · obtain ⟨h1, h2, h3, h4⟩ := h.cache c hc
              refine ⟨h1, h2, ?_, h4⟩
              split
              · rfl
              · exact h3
          · intro l hl
            obtain ⟨hl, hne⟩ := mem_filter.mp hl
            rw [hbit, if_neg (by simpa using hne)]
            exact h.live l hl
          · intro q hq hqs
            rw [hbit] at hqs
            split at hqs
            · cases hqs
            · exact h.mark q hq hqs

/-! ## Reopening -/

theorem scanBitmap_spec (b : BitmapPage) (n : Nat) : ∀ (i : Nat) (cache : List Nat), cache.Nodup →
      (∀ c ∈ cache, c < b.basePageId + i) → (scanBitmap b n i cache).Nodup ∧
      ∀ c ∈ scanBitmap b n i cache, c ∈ cache ∨ b.basePageId + i ≤ c ∧ c < b.basePageId + i + n ∧
          isReserved c = false ∧ b.isSet c = false := by
  induction n with
  | zero => exact fun i cache hnd _ => ⟨hnd, fun c hc => .inl hc⟩
  | succ n ih =>
    intro i cache hnd hlt
    rw [scanBitmap]
    split
    · exact ⟨hnd, fun c hc => .inl hc⟩
    · dsimp only
      split
      · obtain ⟨h1, h2⟩ := ih (i + 1) cache hnd fun c hc => Nat.lt_succ_of_lt (hlt c hc)
        refine ⟨h1, fun c hc => (h2 c hc).imp id ?_⟩
        rintro ⟨ha, hb, hrest⟩
        exact ⟨by omega, by omega, hrest⟩
      · next hfree =>
          rw [Bool.or_eq_true, not_or, Bool.not_eq_true, Bool.not_eq_true] at hfree
          have hnew : b.basePageId + i ∉ cache := fun hm => Nat.lt_irrefl _ (hlt _ hm)
          obtain ⟨h1, h2⟩ := ih (i + 1) ((b.basePageId + i) :: cache)
            (nodup_cons.mpr ⟨hnew, hnd⟩) (by
              intro c hc
              rcases mem_cons.mp hc with e | hc
              · omega
              · have := hlt c hc; omega)
          refine ⟨h1, fun c hc => ?_⟩
          rcases h2 c hc with hm | ⟨ha, hb, hrest⟩
          · rcases mem_cons.mp hm with e | hm
            · rw [e]
              exact .inr ⟨Nat.le_refl _, by omega, hfree⟩
            · exact .inl hm
          · exact .inr ⟨by omega, by omega, hrest⟩

/-- The pages of the rebuilt cache are clear data pages of some bitmap. -/
theorem rebuild_spec (bs : List BitmapPage) : ∀ (k : Nat) (cache : List Nat), cache.Nodup →
      (∀ c ∈ cache, c < k * pagesPerBitmap) →
      (∀ (i : Nat) (b : BitmapPage), bs[i]? = some b → b.bitmapSlot = k + i) →
      (bs.foldl (fun cache b => scanBitmap b pagesPerBitmap 0 cache) cache).Nodup ∧
      ∀ c ∈ bs.foldl (fun cache b => scanBitmap b pagesPerBitmap 0 cache)
        cache, c ∈ cache ∨ ∃ (i : Nat) (b : BitmapPage), bs[i]? = some b ∧
          c / pagesPerBitmap = k + i ∧ isReserved c = false ∧ b.isSet c = false := by
  induction bs with
  | nil => exact fun k cache hnd _ _ => ⟨hnd, fun c hc => .inl hc⟩
  | cons b bs ih =>
    intro k cache hnd hlt hslot
    have hb : b.basePageId = k * pagesPerBitmap := by
      rw [BitmapPage.basePageId, hslot 0 b rfl, Nat.add_zero]
    obtain ⟨h1, h2⟩ := scanBitmap_spec b pagesPerBitmap 0 cache hnd
      (by rw [hb, Nat.add_zero]; exact hlt)
    rw [hb, Nat.add_zero] at h2
    have hbound : ∀ c ∈ scanBitmap b pagesPerBitmap 0 cache, c < (k + 1) * pagesPerBitmap := by
      intro c hc
      rw [Nat.succ_mul]
      rcases h2 c hc with hm | ⟨-, hc, -⟩
      · exact Nat.lt_of_lt_of_le (hlt c hm) (Nat.le_add_right _ _)
      · exact hc
    obtain ⟨h3, h4⟩ := ih (k + 1) _ h1 hbound (by
      intro i b' hi
      rw [hslot (i + 1) b' hi]
      omega)
    rw [foldl_cons]
    refine ⟨h3, fun c hc => ?_⟩
    rcases h4 c hc with hm | ⟨i, b', hi, hdiv, hrest⟩
    · rcases h2 c hm with hm | ⟨hge, hlt', hrest⟩
      · exact .inl hm
      · refine .inr ⟨0, b, rfl, ?_, hrest⟩
        rw [Nat.add_zero]
        exact Nat.div_eq_of_lt_le hge (by rw [Nat.succ_mul]; exact hlt')
    · exact .inr ⟨i + 1, b', hi, by omega, hrest⟩

theorem slotsOk_openMulti (sb : Superblock) (d : DataFile) (count : Nat) :
    (openMulti sb ((List.range count).map d.readBitmap)).SlotsOk := by
  intro i b hi
  rw [openMulti, List.getElem?_map] at hi
  obtain ⟨j, hj, rfl⟩ := Option.map_eq_some_iff.mp hi
  obtain ⟨hlt, e⟩ := List.getElem?_eq_some_iff.mp hj
  rw [getElem_range] at e
  exact e.symm

/-- What was persisted knows the pages that have an owner: their bits are
set, no bit is set at or above the mark, and the clear bits that fill the
cache lie below the mark. -/
structure PersistedOk (pm : PageManager) (live : List Nat) : Prop where
  start : 3 ≤ pm.superblock.nextFreePageId
  live : ∀ l ∈ live, pm.isSet l = true
  mark : ∀ b ∈ pm.bitmaps, ∀ i ∈ b.ones, isReserved (b.basePageId + i) = false →
    b.basePageId + i < pm.superblock.nextFreePageId
  cache : ∀ c ∈ pm.freeCache, c < pm.superblock.nextFreePageId

instance PersistedOk.decidable (pm : PageManager) (live : List Nat) :
    Decidable (PersistedOk pm live) :=
  decidable_of_iff (3 ≤ pm.superblock.nextFreePageId ∧ (∀ l ∈ live, pm.isSet l = true) ∧
      (∀ b ∈ pm.bitmaps, ∀ i ∈ b.ones, isReserved (b.basePageId + i) = false →
        b.basePageId + i < pm.superblock.nextFreePageId) ∧
      ∀ c ∈ pm.freeCache, c < pm.superblock.nextFreePageId)
    ⟨fun ⟨h1, h2, h3, h4⟩ => ⟨h1, h2, h3, h4⟩, fun ⟨h1, h2, h3, h4⟩ => ⟨h1, h2, h3, h4⟩⟩

theorem openFile_ok {crc : Crc32c} {d : DataFile}
    (hopen : openFile crc d = .ok pm) (h : PersistedOk pm live) : AllocOk pm live := by
  rw [openFile] at hopen
  split at hopen
  · cases hopen
  · next sb hload =>
      dsimp only at hopen
      generalize max (numBitmapPages sb.nextFreePageId) 1 = count at hopen
      have hslots := slotsOk_openMulti sb d count
      cases hopen
      obtain ⟨hnd, hcache⟩ := rebuild_spec ((List.range count).map d.readBitmap)
        0 [] nodup_nil nofun (by
          intro i b hi
          rw [Nat.zero_add]
          exact hslots i b hi)
      refine ⟨hslots, h.start, hnd, fun c hc => ?_, h.live, fun q hq hqs => ?_⟩
      · rcases hcache c hc with hm | ⟨i, b, hi, hdiv, hr, hclear⟩
        · cases hm
        · rw [Nat.zero_add] at hdiv
          refine ⟨hr, ?_, ?_, h.cache c hc⟩
          · rw [Covers, hdiv]
            exact (List.getElem?_eq_some_iff.mp hi).1
          · rw [isSet, hdiv, openMulti, hi]
            exact hclear
      · rw [isSet] at hqs
        split at hqs
        · next b hb =>
            have hbase := base_le hslots hb
            have hmem : b.localIndex q ∈ b.ones := by
              simpa [BitmapPage.isSet] using hqs
            have := h.mark b (mem_of_getElem? hb) _ hmem
            rw [BitmapPage.localIndex, Nat.add_sub_cancel' hbase] at this
            exact this hq
        · cases hqs

/-! ## Reconciling -/

theorem reconcileLoop_spec (crc : Crc32c) (d : DataFile) (n : Nat) :
    ∀ (pid : Nat) (pm : PageManager) (m : Nat), 3 ≤ pid → pm.SlotsOk →
      (reconcileLoop crc d n pid pm m).1.SlotsOk ∧
      (reconcileLoop crc d n pid pm m).1.superblock = pm.superblock ∧
      (reconcileLoop crc d n pid pm m).1.freeCache = pm.freeCache ∧
      pm.bitmaps.length ≤ (reconcileLoop crc d n pid pm m).1.bitmaps.length ∧
      m ≤ (reconcileLoop crc d n pid pm m).2 ∧
      (∀ q, pid ≤ q → q < pid + n → d.inUse crc q = true → q ≤ (reconcileLoop crc d n pid pm m).2) ∧
      ∀ q, isReserved q = false →
        ((reconcileLoop crc d n pid pm m).1.isSet q = true ↔ pm.isSet q = true ∨
            pid ≤ q ∧ q < pid + n ∧ d.inUse crc q = true) := by
  induction n with
  | zero =>
    intro pid pm m _ hs
    refine ⟨hs, rfl, rfl, Nat.le_refl _, Nat.le_refl _, ?_, ?_⟩
    · intro q h1 h2; omega
    · intro q _
      rw [reconcileLoop]
      constructor
      · exact .inl
      · rintro (h | ⟨h1, h2, -⟩)
        · exact h
        · omega
  | succ n ih =>
    intro pid pm m hpid hs
    rw [reconcileLoop]
    split
    · next hin =>
        obtain ⟨hs', hsb, hc, hlen, hset⟩ := mark_spec hs
          ((pm.ensureBitmap (pid / pagesPerBitmap)).markAllocated pid) rfl
        obtain ⟨g1, g2, g3, g4, g5, g6, g7⟩ := ih (pid + 1) _
          (if pid > m then pid else m) (by omega) hs'
        have hm : m ≤ (if pid > m then pid else m) ∧
            pid ≤ (if pid > m then pid else m) := by split <;> omega
        refine ⟨g1, g2.trans hsb, g3.trans hc, ?_, ?_, ?_, ?_⟩
        · rw [hlen] at g4; omega
        · omega
        · intro q h1 h2 h3
          rcases Nat.eq_or_lt_of_le h1 with e | hlt
          · omega
          · exact g6 q hlt (by omega) h3
        · intro q hq
          rw [g7 q hq, hset q hq]
          constructor
          · rintro (h | ⟨h1, h2, h3⟩)
            · split at h
              · next e => subst e; exact .inr ⟨Nat.le_refl _, by omega, hin⟩
              · exact .inl h
            · exact .inr ⟨by omega, by omega, h3⟩
          · rintro (h | ⟨h1, h2, h3⟩)
            · left; split
              · rfl
              · exact h
            · rcases Nat.eq_or_lt_of_le h1 with e | hlt
              · left; rw [if_pos e.symm]
              · exact .inr ⟨hlt, by omega, h3⟩
    · next hin =>
        obtain ⟨g1, g2, g3, g4, g5, g6, g7⟩ := ih (pid + 1) pm m (by omega) hs
        refine ⟨g1, g2, g3, g4, g5, ?_, ?_⟩
        · intro q h1 h2 h3
          rcases Nat.eq_or_lt_of_le h1 with e | hlt
          · subst e; exact absurd h3 hin
          · exact g6 q hlt (by omega) h3
        · intro q hq
          rw [g7 q hq]
          refine or_congr_right ⟨?_, ?_⟩
          · rintro ⟨h1, h2, h3⟩
            exact ⟨by omega, by omega, h3⟩
          · rintro ⟨h1, h2, h3⟩
            rcases Nat.eq_or_lt_of_le h1 with e | hlt
            · subst e; exact absurd h3 hin
            · exact ⟨hlt, by omega, h3⟩

end PageManager

end RGraph.Storage
