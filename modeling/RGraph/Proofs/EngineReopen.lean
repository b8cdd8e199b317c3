import RGraph.Proofs.EngineRead
import RGraph.Proofs.EngineSession

/-!
# Opening the engine again

After redo the file has the pages that the engine had, if each of them was in
the file already or is the image in its newest page record. The pages in use
are then those of the heap, and the rebuilt trees have the entities that look
alive: one entry for each slot whose record has the face of a node or of an
edge that is not deleted.
-/

namespace RGraph.Graph

open RGraph.Lib RGraph.Storage RGraph.Wal RGraph.Index Call List

/-! ## Redo -/

/-- The writes redo makes, in the order of the log. -/
def redoImages (log recs : List LogRecord) : List (Nat × Option SlottedPage) :=
  (recs.filterMap (redoImage log)).map fun w => (w.1, some w.2)

variable {p : Nat}

theorem redoImage_eq_some {log : List LogRecord} {r : LogRecord}
    {img : SlottedPage} (h : redoImage log r = some (p, img)) :
    ∃ img₀, r.page = some (p, img₀) ∧ img = stampPage img₀ r.lsn := by
  rw [redoImage] at h
  split at h
  · cases h
  · obtain ⟨⟨p', img₀⟩, hpage, heq⟩ := Option.map_eq_some_iff.mp h
    cases heq
    exact ⟨img₀, hpage, rfl⟩

theorem redoStep_file (log : List LogRecord) (r : LogRecord) (s : PageStore) :
    (PageStore.redoStep log s r).file = replay pageLsnOf s.file (redoImages log [r]) := by
  rw [PageStore.redoStep, redoImages, filterMap_cons]
  cases hw : redoImage log r with
  | none => rfl
  | some w =>
    obtain ⟨p, img⟩ := w
    obtain ⟨img₀, -, rfl⟩ := redoImage_eq_some hw
    show _ = replayStep pageLsnOf s.file (p, some (stampPage img₀ r.lsn))
    rw [replayStep]
    dsimp only
    by_cases hle : r.lsn ≤ pageLsnOf (s.file p)
    · rw [if_pos hle]
      exact (if_pos hle).symm
    · rw [if_neg hle]
      exact (if_neg hle).symm

/-- Redo touches the file and its length only. -/
structure Redone (s s' : PageStore) : Prop where
  frames : s'.frames = s.frames
  fileLen : s.fileLen ≤ s'.fileLen
  next : s'.nextFreePageId = s.nextFreePageId
  synced : s'.syncedPageId = s.syncedPageId

theorem redoStep_redone (log : List LogRecord) (r : LogRecord) (s : PageStore) :
    Redone s (PageStore.redoStep log s r) := by
  rw [PageStore.redoStep]
  split
  · exact ⟨rfl, Nat.le_refl _, rfl, rfl⟩
  · split
    · exact ⟨rfl, Nat.le_refl _, rfl, rfl⟩
    · exact ⟨rfl, Nat.le_max_left _ _, rfl, rfl⟩

theorem foldl_redoStep (log recs : List LogRecord) (s : PageStore) :
    (recs.foldl (PageStore.redoStep log) s).file = replay pageLsnOf s.file (redoImages log recs) ∧
      Redone s (recs.foldl (PageStore.redoStep log) s) := by
  induction recs generalizing s with
  | nil => exact ⟨rfl, rfl, Nat.le_refl _, rfl, rfl⟩
  | cons r rest ih =>
    obtain ⟨hfile, hrest⟩ := ih (PageStore.redoStep log s r)
    have hr := redoStep_redone log r s
    refine ⟨hfile.trans ?_, hrest.frames.trans hr.frames,
      Nat.le_trans hr.fileLen hrest.fileLen, hrest.next.trans hr.next,
      hrest.synced.trans hr.synced⟩
    rw [redoStep_file, replay, replay, replay, ← foldl_append]
    congr 1
    rw [redoImages, redoImages, redoImages, ← map_append, ← filterMap_append]
    rfl

/-- The page is in the file as it is in memory, or it is what a record of the
log has for it that redo will apply. -/
def Covered (e : GraphStorageEngine) (p : Nat) : Prop :=
  e.store.file p = e.store.page p ∨ ∃ r ∈ e.log, ∃ img, redoImage e.log r = some (p, img) ∧
      e.store.page p = some img ∧ pageLsnOf (e.store.file p) < r.lsn

theorem mem_redoImages {log recs : List LogRecord} {c : Option SlottedPage} :
    (p, c) ∈ redoImages log recs ↔
      ∃ r ∈ recs, ∃ img, redoImage log r = some (p, img) ∧ c = some img := by
  rw [redoImages, mem_map]
  constructor
  · rintro ⟨⟨p', img⟩, hmem, heq⟩
    cases heq
    obtain ⟨r, hr, hw⟩ := mem_filterMap.mp hmem
    exact ⟨r, hr, img, hw, rfl⟩
  · rintro ⟨r, hr, img, hw, rfl⟩
    exact ⟨(p, img), mem_filterMap.mpr ⟨r, hr, hw⟩, rfl⟩

theorem redo_file {e : GraphStorageEngine} (hl : LogOk e) (hcov : Covered e p) :
    (e.store.crash.redo e.log).file p = e.store.page p := by
  rw [PageStore.redo, (foldl_redoStep e.log e.log e.store.crash).1]
  -- no write is newer than the page in memory
  have hle : ∀ c, (p, c) ∈ redoImages e.log e.log →
      pageLsnOf c ≤ pageLsnOf (e.store.page p) := by
    intro c hc
    obtain ⟨r, hr, img, hw, rfl⟩ := mem_redoImages.mp hc
    obtain ⟨img₀, hpage, rfl⟩ := redoImage_eq_some hw
    exact hl.page r hr p img₀ hpage
  rcases hcov with heq | ⟨r, hr, img, hw, hpage, hlt⟩
  · rw [replay_of_le]
    · exact heq
    · intro c hc
      show pageLsnOf c ≤ pageLsnOf (e.store.file p)
      rw [heq]
      exact hle c hc
  · rw [hpage] at hle ⊢
    refine replay_newest ?_ (mem_redoImages.mpr ⟨r, hr, img, hw, rfl⟩) hle (Or.inl ?_)
    · refine pairwise_map.mpr (hl.sorted.filterMap _ ?_)
      intro r₁ r₂ hlt ⟨p₁, img₁⟩ hw₁ ⟨p₂, img₂⟩ hw₂
      obtain ⟨_, -, rfl⟩ := redoImage_eq_some hw₁
      obtain ⟨_, -, rfl⟩ := redoImage_eq_some hw₂
      exact hlt
    · obtain ⟨img₀, -, rfl⟩ := redoImage_eq_some hw
      exact hlt

/-! ## The pages in use -/

/-- The page store that `open` works on: no frames, and a file with the pages
of a heap. -/
structure Opened (s : PageStore) (next : Nat) (h : Heap) : Prop where
  frames : s.frames = fun _ => none
  shows : Shows s h
  pages : PagesOk next h
  mark : s.syncedPageId ≤ next

variable {h : Heap}

theorem Opened.page {s : PageStore} {next : Nat} (ho : Opened s next h) : s.page = s.file := by
  funext p
  rw [PageStore.page, ho.frames]
  rfl

theorem Opened.mem_allocatedPages {s : PageStore} {next : Nat}
    (ho : Opened s next h) : p ∈ s.allocatedPages ↔ (h p).isSome := by
  rw [PageStore.allocatedPages, mem_filter, mem_range, Bool.and_eq_true, Bool.or_eq_true]
  constructor
  · rintro ⟨-, hres, hin | huse⟩
    · rw [Bool.and_eq_true, decide_eq_true_eq, decide_eq_true_eq] at hin
      refine (ho.pages.page p).mpr ⟨Nat.lt_of_lt_of_le hin.1 ho.mark, ?_⟩
      simpa using hres
    · rw [PageStore.inUse, Bool.and_eq_true] at huse
      cases hf : s.file p with
      | none =>
        rw [hf] at huse
        cases huse.2
      | some pg =>
        obtain ⟨rs, hrs, -⟩ := ho.shows.of_page (by rw [ho.page]; exact hf)
        rw [hrs]
        rfl
  · intro hp
    have hlen := ho.shows.inFile p hp
    obtain ⟨-, hres⟩ := (ho.pages.page p).mp hp
    obtain ⟨rs, hrs⟩ := Option.isSome_iff_exists.mp hp
    obtain ⟨pg, hpg, hst⟩ := ho.shows.of_heap hrs
    rw [ho.page] at hpg
    refine ⟨by omega, by rw [hres]; rfl, Or.inr ?_⟩
    -- a page of the heap has a record
    have hpos : 0 < rs.length := length_pos_iff.mpr (ho.pages.small p rs hrs).2.2
    rw [PageStore.inUse, hpg, hres]
    dsimp only
    rw [hst.count]
    simp [hlen, hpos]

theorem opened_redo {e : GraphStorageEngine} (hs : Stored e h) (hl : LogOk e)
    (hcov : ∀ p, Covered e p) :
    Opened (e.store.crash.redo e.log).reconcileFromDisk e.store.nextFreePageId h := by
  have hr := (foldl_redoStep e.log e.log e.store.crash).2
  have hpage : (e.store.crash.redo e.log).reconcileFromDisk.page = e.store.page := by
    funext p
    show ((e.store.crash.redo e.log).frames p).or ((e.store.crash.redo e.log).file p) = _
    rw [redo_file hl (hcov p), PageStore.redo, hr.frames]
    rfl
  refine ⟨hr.frames, ⟨fun p => ?_, fun p hp => ?_⟩, hs.pages, ?_⟩
  · rw [hpage]
    exact hs.shows.pages p
  · exact Nat.lt_of_lt_of_le (hs.shows.inFile p hp) hr.fileLen
  · exact Nat.le_trans (Nat.le_of_eq hr.synced) hl.mark

/-! ## Rebuilding -/

/-- The trees have the live entities of the slots in `S`, and nothing else. -/
structure Indexes (h : Heap) (S : SlotRef → Prop) (tree : Trees) : Prop where
  byId : ∀ kind key s, (tree (EntityKind.idTree kind))[key]? = some s ↔
    ∃ id group, key = idKey id ∧ S s ∧ h.faceAt s = some (.entity kind id group false)
  byGroup : ∀ kind key s, (tree (EntityKind.groupTree kind))[key]? = some s ↔
    ∃ id group, key = groupKey group id ∧ S s ∧ h.faceAt s = some (.entity kind id group false)

/-- No id is alive twice. -/
def Unique (h : Heap) : Prop :=
  ∀ {s s' kind id group group'},
    h.faceAt s = some (.entity kind id group false) →
    h.faceAt s' = some (.entity kind id group' false) → s = s'

theorem Complete.unique {tree : Trees} (hc : Complete h tree) : Unique h := by
  intro s s' kind id group group' hs hs'
  have hidx := hc.byId kind id group false s hs
  rw [hc.byId kind id group' false s' hs'] at hidx
  exact (Option.some.inj hidx).symm

theorem indexes_init (h : Heap) : Indexes h (fun _ => False) GraphStorageEngine.init.tree := by
  have hnone : ∀ t key, (GraphStorageEngine.init.tree t)[key]? = none :=
    fun t key => Std.ExtTreeMap.getElem?_empty
  refine ⟨fun kind key s => ?_, fun kind key s => ?_⟩ <;>
  · rw [hnone]
    exact ⟨nofun, fun ⟨_, _, _, h, _⟩ => h.elim⟩

section Rebuild

variable {h : Heap} {S S' : SlotRef → Prop} {tree tree' : Trees}

theorem Indexes.congr (hi : Indexes h S tree)
    (hS : ∀ s, (h.faceAt s).isSome → (S s ↔ S' s)) : Indexes h S' tree := by
  have hiff : ∀ {s x}, h.faceAt s = some x → (S s ↔ S' s) :=
    fun hs => hS _ (by rw [hs]; rfl)
  refine ⟨fun kind key s => (hi.byId kind key s).trans ?_,
    fun kind key s => (hi.byGroup kind key s).trans ?_⟩ <;>
  · constructor
    · rintro ⟨id, group, hkey, hs, hface⟩
      exact ⟨id, group, hkey, (hiff hface).mp hs, hface⟩
    · rintro ⟨id, group, hkey, hs, hface⟩
      exact ⟨id, group, hkey, (hiff hface).mpr hs, hface⟩

variable {s : SlotRef}

/-- A slot more, whose record is alive. -/
theorem Indexes.enter (hu : Unique h) (hi : Indexes h S tree)
    {kind : EntityKind} {id : UInt64} {group : UInt32}
    (hface : h.faceAt s = some (.entity kind id group false))
    (hent : Entered tree kind id group s tree') : Indexes h (fun t => S t ∨ t = s) tree' := by
  refine ⟨fun kind' key t => ?_, fun kind' key t => ?_⟩
  · rw [hent.byId]
    constructor
    · intro hget
      split at hget
      · next hk =>
          obtain ⟨rfl, hkey⟩ := hk
          cases hget
          exact ⟨id, group, hkey, Or.inr rfl, hface⟩
      · obtain ⟨id', group', hkey, hS, hf⟩ := (hi.byId kind' key t).mp hget
        exact ⟨id', group', hkey, Or.inl hS, hf⟩
    · rintro ⟨id', group', hkey, hS, hf⟩
      split
      · next hk =>
          obtain ⟨rfl, hid⟩ := hk
          obtain rfl := idKey_inj (hkey.symm.trans hid)
          rw [hu hf hface]
      · next hk =>
          refine (hi.byId kind' _ t).mpr ⟨id', group', hkey, ?_, hf⟩
          refine hS.resolve_right ?_
          rintro rfl
          rw [hface] at hf
          cases hf
          exact hk ⟨rfl, hkey⟩
  · rw [hent.byGroup]
    constructor
    · intro hget
      split at hget
      · next hk =>
          obtain ⟨rfl, hkey⟩ := hk
          cases hget
          exact ⟨id, group, hkey, Or.inr rfl, hface⟩
      · obtain ⟨id', group', hkey, hS, hf⟩ := (hi.byGroup kind' key t).mp hget
        exact ⟨id', group', hkey, Or.inl hS, hf⟩
    · rintro ⟨id', group', hkey, hS, hf⟩
      split
      · next hk =>
          obtain ⟨rfl, hkey'⟩ := hk
          obtain ⟨rfl, rfl⟩ := groupKey_inj (hkey.symm.trans hkey')
          rw [hu hf hface]
      · next hk =>
          refine (hi.byGroup kind' _ t).mpr ⟨id', group', hkey, ?_, hf⟩
          refine hS.resolve_right ?_
          rintro rfl
          rw [hface] at hf
          cases hf
          exact hk ⟨rfl, hkey⟩

/-- A slot more, whose record is not alive. -/
theorem Indexes.skip (hi : Indexes h S tree)
    (hface : ∀ kind id group, h.faceAt s ≠ some (.entity kind id group false)) :
    Indexes h (fun t => S t ∨ t = s) tree := by
  have hor : ∀ {t kind id group}, h.faceAt t =
      some (.entity kind id group false) → (S t ∨ t = s) → S t := by
    intro t kind id group hf hS
    refine hS.resolve_right ?_
    rintro rfl
    exact hface kind id group hf
  refine ⟨fun kind key t => (hi.byId kind key t).trans ?_,
    fun kind key t => (hi.byGroup kind key t).trans ?_⟩ <;>
  · constructor
    · rintro ⟨id, group, hkey, hS, hf⟩
      exact ⟨id, group, hkey, Or.inl hS, hf⟩
    · rintro ⟨id, group, hkey, hS, hf⟩
      exact ⟨id, group, hkey, hor hf hS, hf⟩

/-- What a record at a slot does to the trees, by its face. -/
def enterFace (e : GraphStorageEngine) (s : SlotRef) : Face → GraphStorageEngine
  | .entity kind id group false =>
    (e.callTree kind.idTree (.insert (idKey id) s)).callTree kind.groupTree
      (.insert (groupKey group id) s)
  | _ => e

theorem rebuildSlot_fst (p i : Nat) (bytes : Bytes) (s : GraphStorageEngine × PageKinds) :
    (rebuildSlot p i bytes s).1 = enterFace s.1 (SlotRef.new p i) (face bytes) := by
  rw [rebuildSlot, face]
  dsimp only
  cases hn : NodeRecord.decode bytes with
  | some n =>
    rw [EdgeRecord.decode_eq_none (by
      rw [NodeRecord.length_of_decode hn]; decide), Option.filter_none,
      Option.filter_some]
    by_cases hid : n.nodeId = 0
    · rw [if_neg (by simp [hid])]
      dsimp only
      rw [if_pos hid]
      rfl
    · rw [if_pos (bne_iff_ne.mpr hid)]
      dsimp only
      rw [if_neg hid]
      cases n.isDeleted <;> rfl
  | none =>
    rw [Option.filter_none]
    dsimp only
    cases hg : EdgeRecord.decode bytes with
    | none => rfl
    | some g =>
      rw [Option.filter_some]
      by_cases hid : g.edgeId = 0
      · rw [if_neg (by simp [hid])]
        dsimp only
        rw [if_pos hid]
        rfl
      · rw [if_pos (bne_iff_ne.mpr hid)]
        dsimp only
        rw [if_neg hid]
        cases g.isDeleted <;> rfl

variable {e : GraphStorageEngine}

theorem enterFace_indexes (hu : Unique h) {x : Face}
    (hface : h.faceAt s = some x) (hi : Indexes h S e.tree) :
    Indexes h (fun t => S t ∨ t = s) (enterFace e s x).tree := by
  cases x with
  | other =>
    refine hi.skip fun kind id group hf => ?_
    rw [hface] at hf
    cases hf
  | entity kind id group d =>
    cases d with
    | true =>
      refine hi.skip fun kind id group hf => ?_
      rw [hface] at hf
      cases hf
    | false => exact hi.enter hu hface (entered_insert e kind id group s)

theorem store_enterFace (e : GraphStorageEngine) (s : SlotRef) (x : Face) :
    (enterFace e s x).store = e.store := by
  cases x with
  | other => rfl
  | entity kind id group d => cases d <;> rfl

/-- The slots of a page from `i` on, `n` of them. -/
theorem rebuildSlots_indexes (hu : Unique h) {p : Nat} {page : SlottedPage}
    {rs : List Bytes} (hst : Stores page rs) (hrs : h p = some rs)
    (hp : p ≤ SlotRef.maxPageId) (hlen : rs.length ≤ SlotRef.maxSlotIndex + 1)
    {n i : Nat} (hn : i + n ≤ rs.length) {s : GraphStorageEngine × PageKinds}
    (hi : Indexes h S s.1.tree) :
    ∃ s', rebuildSlots p page n i s = .ok s' ∧ s'.1.store = s.1.store ∧ Indexes h (fun t => S t ∨
        t.pageId = p ∧ i ≤ t.slotIndex ∧ t.slotIndex < i + n) s'.1.tree := by
  induction n generalizing i s S with
  | zero =>
    refine ⟨s, rfl, rfl, hi.congr fun t _ => ?_⟩
    constructor
    · exact .inl
    · rintro (ht | ⟨-, hle, hlt⟩)
      · exact ht
      · omega
  | succ n ih =>
    have hlt : i < rs.length := by omega
    have hpage : (SlotRef.new p i).pageId = p := SlotRef.pageId_new hp (by omega)
    have hslot : (SlotRef.new p i).slotIndex = i := SlotRef.slotIndex_new hp (by omega)
    have hget : h.get (SlotRef.new p i) = some rs[i] := by
      rw [Heap.get, hpage, hslot, hrs, Option.bind_some, List.getElem?_eq_getElem hlt]
    have hface : h.faceAt (SlotRef.new p i) = some (face rs[i]) := by
      rw [Heap.faceAt, hget, Option.map_some]
    have hi' := enterFace_indexes hu hface hi
    rw [← rebuildSlot_fst] at hi'
    obtain ⟨s', hok, hstore, hi''⟩ := ih (i := i + 1) (by omega) hi'
    refine ⟨s', ?_, ?_, hi''.congr fun t _ => ?_⟩
    · rw [rebuildSlots, hst.read, Res.ok_bind, List.getElem?_eq_getElem hlt]
      exact hok
    · rw [hstore, rebuildSlot_fst, store_enterFace]
    · have hnew : t = SlotRef.new p i ↔ t.pageId = p ∧ t.slotIndex = i := by
        constructor
        · rintro rfl
          exact ⟨hpage, hslot⟩
        · rintro ⟨rfl, rfl⟩
          exact (SlotRef.new_pageId_slotIndex t).symm
      rw [hnew, or_assoc]
      refine or_congr_right ?_
      constructor
      · rintro (⟨ht, hti⟩ | ⟨ht, hle, hlt'⟩)
        · exact ⟨ht, by omega⟩
        · exact ⟨ht, by omega⟩
      · rintro ⟨ht, hle, hlt'⟩
        by_cases hti : t.slotIndex = i
        · exact .inl ⟨ht, hti⟩
        · exact .inr ⟨ht, by omega⟩

theorem trackPage_same (e : GraphStorageEngine) (k : RecordKind) (p : Nat)
    (found : Bool) : (trackPage e k p found).store = e.store ∧
      (trackPage e k p found).tree = e.tree := by
  rw [trackPage]
  split <;> exact ⟨rfl, rfl⟩

theorem rebuildPage_indexes (hu : Unique h) {next : Nat} {p : Nat}
    (hs : Shows e.store h) (hpages : PagesOk next h) (hp : (h p).isSome) (hi : Indexes h S e.tree) :
    ∃ e', rebuildPage .none p e = .ok (.ok (), e') ∧ e'.store = e.store ∧
      Indexes h (fun t => S t ∨ t.pageId = p) e'.tree := by
  obtain ⟨rs, hrs⟩ := Option.isSome_iff_exists.mp hp
  obtain ⟨page, hpage, hst⟩ := hs.of_heap hrs
  obtain ⟨hmax, hlen, -⟩ := hpages.small p rs hrs
  have hread : readPage .none p e = .ok (.ok page, e) := readPage_ok.mpr ⟨rfl, hpage, rfl⟩
  obtain ⟨⟨e₁, kinds⟩, hslots, hstore, hi₁⟩ := rebuildSlots_indexes hu hst hrs
    hmax hlen (Nat.le_of_eq (Nat.zero_add _)) (s := (e, ⟨false, false⟩)) hi
  refine ⟨trackPage (trackPage e₁ .node p kinds.hasNodes) .edge p kinds.hasEdges, ?_, ?_, ?_⟩
  · rw [rebuildPage, bind_of_ok hread, get_bind, hst.count, hslots]
    rfl
  · rw [(trackPage_same _ _ _ _).1, (trackPage_same _ _ _ _).1]
    exact hstore
  · rw [(trackPage_same _ _ _ _).2, (trackPage_same _ _ _ _).2]
    refine hi₁.congr fun t ht => or_congr_right ?_
    -- a slot of the page that has a record is one of those
    constructor
    · exact fun hin => hin.1
    · rintro rfl
      refine ⟨rfl, Nat.zero_le _, ?_⟩
      rw [Heap.faceAt, Heap.get, hrs, Option.bind_some, Option.isSome_map] at ht
      obtain ⟨r, hr⟩ := Option.isSome_iff_exists.mp ht
      have := (List.getElem?_eq_some_iff.mp hr).1
      omega

theorem rebuildPages_indexes (hu : Unique h) {next : Nat} {list : List Nat}
    (hs : Shows e.store h) (hpages : PagesOk next h)
    (hlist : ∀ p ∈ list, (h p).isSome) (hi : Indexes h S e.tree) :
    ∃ e', rebuildPages .none list e = .ok (.ok (), e') ∧ e'.store = e.store ∧
      Indexes h (fun t => S t ∨ t.pageId ∈ list) e'.tree := by
  induction list generalizing e S with
  | nil => exact ⟨e, rfl, rfl, hi.congr fun t _ => by simp⟩
  | cons p rest ih =>
    obtain ⟨e₁, hpage, hstore₁, hi₁⟩ := rebuildPage_indexes hu hs hpages
      (hlist p mem_cons_self) hi
    have hs₁ : Shows e₁.store h := by
      rw [hstore₁]
      exact hs
    obtain ⟨e₂, hrest, hstore₂, hi₂⟩ := ih hs₁ (fun q hq => hlist q (mem_cons_of_mem _ hq)) hi₁
    refine ⟨e₂, ?_, hstore₂.trans hstore₁, hi₂.congr fun t _ => ?_⟩
    · rw [rebuildPages, bind_of_ok hpage]
      exact hrest
    · rw [mem_cons, or_assoc]

/-- An engine that has been opened: the trees are those of the live records. -/
structure Rebuilt (h : Heap) (e' : GraphStorageEngine) : Prop where
  shows : Shows e'.store h
  indexes : Indexes h (fun _ => True) e'.tree

theorem reopen_rebuilt (hs : Stored e h) (hl : LogOk e) (hu : Unique h) (hcov : ∀ p, Covered e p) :
    ∃ e', reopen .none e = .ok (.ok (), e') ∧ Rebuilt h e' := by
  have ho := opened_redo hs hl hcov
  obtain ⟨e', hok, hstore, hi⟩ := rebuildPages_indexes hu
    (e := { GraphStorageEngine.init with
      store := (e.store.crash.redo e.log).reconcileFromDisk
      log := e.log
      lastLsn := e.lastLsn })
    ho.shows ho.pages (fun p hp => ho.mem_allocatedPages.mp hp) (indexes_init h)
  refine ⟨e', hok, ?_, hi.congr fun t ht => ?_⟩
  · rw [hstore]
    exact ho.shows
  · obtain ⟨x, hx⟩ := Option.isSome_iff_exists.mp ht
    simp only [ho.mem_allocatedPages, Heap.isSome_of_faceAt hx, or_true]


end Rebuild

end RGraph.Graph
