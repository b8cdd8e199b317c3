import RGraph.Proofs.GraphRecord
import RGraph.Proofs.RecordPage

/-!
# What the helpers of the engine do to the records

A `Heap` has the records of every readable page, and `Shows` says that a page
store holds them. Each helper that has returned is described by what it did to
the heap: reading gives the record at the slot, inserting appends to one page,
overwriting replaces one record. The patches of the adjacency lists are proved
once for every way to access records; they leave every face.
-/

namespace RGraph.Graph

open RGraph.Lib RGraph.Storage RGraph.Wal RGraph.Index Call Function

/-! ## Heaps -/

abbrev Heap := Nat → Option (List Bytes)

namespace Heap

def get (h : Heap) (s : SlotRef) : Option Bytes := (h s.pageId).bind (·[s.slotIndex]?)

def set (h : Heap) (s : SlotRef) (r : Bytes) : Heap :=
  update h s.pageId ((h s.pageId).map (·.set s.slotIndex r))

/-- The records of a page; none if there is no such page. -/
def records (h : Heap) (p : Nat) : List Bytes := (h p).getD []

def append (h : Heap) (p : Nat) (r : Bytes) : Heap := update h p (some (h.records p ++ [r]))

/-- The faces of the records, and their lengths. -/
def marks (h : Heap) : Nat → Option (List (Face × Nat)) :=
  fun p => (h p).map (List.map fun r => (face r, r.length))

def faceAt (h : Heap) (s : SlotRef) : Option Face := (h.get s).map face

variable {h h' : Heap} {s : SlotRef} {r : Bytes}

theorem marks_get (h : Heap) (s : SlotRef) : (h.marks s.pageId).bind (·[s.slotIndex]?) =
      (h.get s).map fun r => (face r, r.length) := by
  rw [get, marks]
  cases h s.pageId with
  | none => rfl
  | some rs => simp

theorem get_congr (hm : h'.marks = h.marks) (hget : h.get s = some r) :
    ∃ r', h'.get s = some r' ∧ face r' = face r ∧ r'.length = r.length := by
  have heq := (marks_get h' s).symm.trans (by rw [hm, marks_get, hget])
  obtain ⟨r', hr', hmark⟩ := Option.map_eq_some_iff.mp heq
  exact ⟨r', hr', (Prod.mk.inj hmark).1, (Prod.mk.inj hmark).2⟩

theorem faceAt_congr (hm : h'.marks = h.marks) (s : SlotRef) : h'.faceAt s = h.faceAt s := by
  have heq : (h'.get s).map (fun r => (face r, r.length)) =
      (h.get s).map fun r => (face r, r.length) := by
    rw [← marks_get, ← marks_get, hm]
  have := congrArg (Option.map Prod.fst) heq
  rwa [Option.map_map, Option.map_map] at this

/-- A record replaced by one with the same face and length. -/
theorem marks_set {old : Bytes} (hget : h.get s = some old)
    (hface : face r = face old) (hlen : r.length = old.length) : (h.set s r).marks = h.marks := by
  funext p
  rw [marks, marks, set]
  by_cases hp : p = s.pageId
  · subst hp
    rw [update_self]
    rw [get] at hget
    cases hrs : h s.pageId with
    | none => rfl
    | some rs =>
      rw [hrs, Option.bind_some] at hget
      simp only [Option.map_some, Option.some.injEq, List.map_set, hface, hlen]
      apply set_of_getElem?
      rw [List.getElem?_map, hget]
      rfl
  · rw [update_of_ne hp]

theorem get_set_self {old : Bytes} (hget : h.get s = some old) : (h.set s r).get s = some r := by
  rw [get, set, update_self]
  rw [get, Option.bind_eq_some_iff] at hget
  obtain ⟨rs, hrs, hi⟩ := hget
  have := (List.getElem?_eq_some_iff.mp hi).1
  rw [hrs, Option.map_some, Option.bind_some, List.getElem?_set_self this]

theorem get_set_ne {s' : SlotRef} (hne : s' ≠ s) : (h.set s r).get s' = h.get s' := by
  rw [get, get, set]
  by_cases hp : s'.pageId = s.pageId
  · have hi : s.slotIndex ≠ s'.slotIndex := by
      intro hi
      apply hne
      rw [← SlotRef.new_pageId_slotIndex s', ← SlotRef.new_pageId_slotIndex s, hp, hi]
    rw [hp, update_self]
    cases h s.pageId with
    | none => rfl
    | some rs => simp [List.getElem?_set_ne hi]
  · rw [update_of_ne hp]

end Heap

/-! ## Page stores -/

section Related

variable {α β : Type} {R : α → β → Prop} {x : Option α} {y : Option β}

theorem rel_some_left {a : α} (h : Option.Rel R x y) (hx : x = some a) :
    ∃ b, y = some b ∧ R a b := by
  subst hx
  cases h with
  | some hab => exact ⟨_, rfl, hab⟩

theorem rel_some_right {b : β} (h : Option.Rel R x y) (hy : y = some b) :
    ∃ a, x = some a ∧ R a b := by
  subst hy
  cases h with
  | some hab => exact ⟨_, rfl, hab⟩

theorem rel_none_iff (h : Option.Rel R x y) : x = none ↔ y = none := by
  cases h <;> simp

end Related

structure Shows (s : PageStore) (h : Heap) : Prop where
  pages : ∀ p, Option.Rel Stores (s.page p) (h p)
  inFile : ∀ p, (h p).isSome → p < s.fileLen

namespace Shows

variable {s : PageStore} {h : Heap} {p : Nat}

theorem of_page (hs : Shows s h) {pg : SlottedPage} (hp : s.page p = some pg) :
    ∃ rs, h p = some rs ∧ Stores pg rs :=
  rel_some_left (hs.pages p) hp

theorem of_heap (hs : Shows s h) {rs : List Bytes} (hp : h p = some rs) :
    ∃ pg, s.page p = some pg ∧ Stores pg rs :=
  rel_some_right (hs.pages p) hp

end Shows

/-- What no write in place changes: the LSN of a page least of all. -/
structure Kept (s s' : PageStore) : Prop where
  next : s.nextFreePageId ≤ s'.nextFreePageId
  synced : s'.syncedPageId = s.syncedPageId
  lsn : ∀ p, pageLsnOf (s'.page p) = pageLsnOf (s.page p)

namespace PageStore

variable {s s' : PageStore} {p : Nat} {pg : SlottedPage}

/-- A page that was written reads back, and no other page changes. -/
structure Written (s : PageStore) (p : Nat) (pg : SlottedPage)
    (s' : PageStore) : Prop where
  page : s'.page = update s.page p (some pg)
  fileLen : s'.fileLen = max s.fileLen (p + 1)
  next : s'.nextFreePageId = s.nextFreePageId
  synced : s'.syncedPageId = s.syncedPageId
  file : ∀ q, q ≠ p → s'.file q = s.file q
  fileLsn : pageLsnOf (s'.file p) ≤ pageLsnOf (s.file p)

theorem page_setFrame (s : PageStore) (p : Nat) (pg : SlottedPage) :
    (s.setFrame p pg).page = update s.page p (some pg) := by
  funext q
  rw [page, setFrame]
  by_cases hq : q = p
  · subst hq
    simp
  · simp [update_of_ne hq, page]

theorem written (h : s.write p pg = some s') : Written s p pg s' := by
  rw [write] at h
  split at h
  · next hle =>
      cases h
      refine ⟨?_, ?_, rfl, rfl, fun q hq => update_of_ne hq _ _, ?_⟩
      · rw [page_setFrame]
        funext q
        by_cases hq : q = p
        · subst hq
          simp
        · simp [update_of_ne hq, page]
      · show p + 1 = _
        omega
      · show pageLsnOf (update s.file p _ p) ≤ _
        rw [update_self]
        exact Nat.zero_le _
  · next hlt =>
      split at h
      · cases h
      · cases h
        refine ⟨page_setFrame s p pg, ?_, rfl, rfl, fun _ _ => rfl, Nat.le_refl _⟩
        show s.fileLen = _
        omega

theorem Written.shows (hw : Written s p pg s') {h : Heap} (hs : Shows s h)
    {rs : List Bytes} (hst : Stores pg rs) : Shows s' (update h p (some rs)) := by
  refine ⟨fun q => ?_, fun q hq => ?_⟩
  · rw [hw.page]
    by_cases hqp : q = p
    · subst hqp
      rw [update_self, update_self]
      exact .some hst
    · rw [update_of_ne hqp, update_of_ne hqp]
      exact hs.pages q
  · rw [hw.fileLen]
    by_cases hqp : q = p
    · omega
    · rw [update_of_ne hqp] at hq
      have := hs.inFile q hq
      omega

theorem Written.kept (hw : Written s p pg s')
    (hlsn : pg.header.pageLsn = pageLsnOf (s.page p)) : Kept s s' := by
  refine ⟨Nat.le_of_eq hw.next.symm, hw.synced, fun q => ?_⟩
  rw [hw.page]
  by_cases hqp : q = p
  · subst hqp
    rw [update_self]
    exact hlsn
  · rw [update_of_ne hqp]

end PageStore

/-! ## Calls that return -/

section Calls

variable {f : Faults} {e e' : GraphStorageEngine} {p txid : Nat}
  {pg : SlottedPage} {err : StorageError}

theorem readPage_ok : readPage f p e = .ok (.ok pg, e') ↔
    f.read p = false ∧ e.store.page p = some pg ∧ e = e' := by
  rw [readPage, get_bind]
  split
  · next h => simp [fail_not_ok, h]
  · next h => simp [require_ok, h]

theorem writePage_ok {u : Unit} : writePage f p pg e = .ok (.ok u, e') ↔
    f.write p = false ∧ ∃ store, e.store.write p pg = some store ∧
      { e with store := store } = e' := by
  rw [writePage, get_bind]
  split
  · next h => simp [fail_not_ok, h]
  · next h =>
      simp only [bind_ok, require_ok, modify_ok, h, true_and]
      constructor
      · rintro ⟨st, _, ⟨hst, rfl⟩, rfl⟩
        exact ⟨st, hst, rfl⟩
      · rintro ⟨st, hst, rfl⟩
        exact ⟨st, e, ⟨hst, rfl⟩, rfl⟩

theorem treeCall_ok {t : EngineTree} {op : TreeOp} {u : Unit} :
    treeCall f t op e = .ok (.ok u, e') ↔ f.index t = none ∧ e.callTree t op = e' := by
  rw [treeCall]
  split
  · next h => simp [h]
  · next h => simp [h]
  · next h => simp [h]

theorem append_ok {ty : RecordType} {page : Option (Nat × SlottedPage)}
    {lsn : Nat} : append f txid ty page e = .ok (.ok lsn, e') ↔
      f.append e.lastLsn = false ∧ lsn = e.lastLsn + 1 + f.gap e.lastLsn ∧
        { e with log := e.log ++ [⟨lsn, txid, ty, page⟩], lastLsn := lsn } =
          e' := by
  rw [append, get_bind]
  split
  · next h => simp [fail_not_ok, h]
  · next h =>
      simp only [modify_bind, pure_ok, h, true_and]
      constructor
      · rintro ⟨rfl, rfl⟩
        exact ⟨rfl, rfl⟩
      · rintro ⟨rfl, rfl⟩
        exact ⟨rfl, rfl⟩

theorem begin_ok : begin e = .ok (.ok txid, e') ↔
    txid = e.nextTxid ∧ { e with
      nextTxid := e.nextTxid + 1
      active := e.active ++ [e.nextTxid] } = e' := by
  rw [begin, get_bind, modify_bind, pure_ok]
  constructor
  · rintro ⟨rfl, rfl⟩
    exact ⟨rfl, rfl⟩
  · rintro ⟨rfl, rfl⟩
    exact ⟨rfl, rfl⟩

theorem acquireLock_ok {r : UInt64} {u : Unit} : acquireLock f txid r e = .ok (.ok u, e') ↔
      f.lock = none ∧ e.holdLock txid r = e' := by
  rw [acquireLock]
  cases f.lock with
  | none => simp [modify_ok]
  | some err => simp [fail_not_ok]

theorem commit_ok {u : Unit} : commit f txid e = .ok (.ok u, e') ↔ f.flush = false ∧ ∃ lsn e₁,
      append f txid .commit none e = .ok (.ok lsn, e₁) ∧ e₁.endTx txid = e' := by
  rw [commit, bind_ok]
  constructor
  · rintro ⟨lsn, e₁, happ, h⟩
    split at h
    · exact absurd h fail_not_ok
    · next hf => exact ⟨by simpa using hf, lsn, e₁, happ, modify_ok.mp h⟩
  · rintro ⟨hf, lsn, e₁, happ, hend⟩
    refine ⟨lsn, e₁, happ, ?_⟩
    rw [if_neg (by rw [hf]; exact Bool.false_ne_true)]
    exact modify_ok.mpr hend

theorem orRollback_ok {α : Type} {x : EngineM α} {a : α} :
    orRollback f txid x e = .ok (.ok a, e') ↔ x e = .ok (.ok a, e') := by
  rw [orRollback]
  constructor
  · intro h
    split at h
    · split at h <;> cases h
    · exact h
  · intro h
    rw [h]

theorem slotRef_ok {σ : Type} {s s' : σ} {i : Nat} {slot : SlotRef} :
    (slotRef p i : Call σ StorageError SlotRef) s = .ok (.ok slot, s') ↔
      p ≤ SlotRef.maxPageId ∧ i ≤ SlotRef.maxSlotIndex ∧ slot = SlotRef.new p i ∧ s = s' := by
  rw [slotRef]
  split
  · next h =>
      constructor
      · exact fun h => absurd h fail_not_ok
      · rintro ⟨hp, hi, -⟩
        omega
  · next h =>
      rw [pure_ok]
      constructor
      · rintro ⟨rfl, rfl⟩
        exact ⟨by omega, by omega, rfl, rfl⟩
      · rintro ⟨-, -, rfl, rfl⟩
        exact ⟨rfl, rfl⟩

end Calls

/-! ## Finding room -/

/-- The first page of a list that has room for a record of length `n`. -/
def roomIn (h : Heap) (n : Nat) (list : List Nat) : Option Nat :=
  list.find? fun p => Stores.Fits (h.records p) n

/-- A page is found with one more record on it. -/
structure Filled (view : Nat → Option SlottedPage) (h : Heap) (r : Bytes)
    (p i : Nat) (pg : SlottedPage) : Prop where
  slot : i = (h.records p).length
  stores : Stores pg (h.records p ++ [r])
  lsn : pg.header.pageLsn = pageLsnOf (view p)

section FindRoom

variable {σ : Type} {s : σ} {read : Nat → Call σ StorageError SlottedPage}
  {view : Nat → Option SlottedPage} {h : Heap} {r : Bytes}

theorem findRoom_ok (hview : ∀ p, Option.Rel Stores (view p) (h p))
    (hread : ∀ p pg s', read p s = .ok (.ok pg, s') → view p = some pg ∧ s' = s)
    {res : Option (Nat × Nat × SlottedPage)} {s' : σ} {list : List Nat}
    (hok : findRoom read r list s = .ok (.ok res, s')) :
    s' = s ∧ roomIn h r.length list = res.map Prod.fst ∧ ∀ p i pg, res = some (p, i, pg) →
        p ∈ list ∧ (h p).isSome ∧ Filled view h r p i pg := by
  induction list with
  | nil =>
    obtain ⟨rfl, rfl⟩ := pure_ok.mp hok
    exact ⟨rfl, rfl, nofun⟩
  | cons q rest ih =>
    rw [findRoom, bind_ok] at hok
    obtain ⟨pg, s₁, hpg, hok⟩ := hok
    obtain ⟨hq, hs₁⟩ := hread q pg s₁ hpg
    rw [hs₁] at hok
    obtain ⟨⟨slot, pg'⟩, s₂, hlift, hok⟩ := bind_ok.mp hok
    obtain ⟨hins, hs₂⟩ := lift_ok.mp hlift
    rw [← hs₂] at hok
    obtain ⟨rs, hh, hst⟩ := rel_some_left (hview q) hq
    have hrec : h.records q = rs := by rw [Heap.records, hh]; rfl
    cases slot with
    | some i =>
      obtain ⟨rfl, hst', hfit, hlsn⟩ := hst.insert_some hins
      obtain ⟨rfl, rfl⟩ := pure_ok.mp hok
      refine ⟨rfl, ?_, ?_⟩
      · rw [roomIn, List.find?_cons_of_pos (by
          rw [hrec]; exact decide_eq_true hfit)]
        rfl
      · intro p i pg₁ heq
        cases heq
        refine ⟨List.mem_cons_self, by rw [hh]; rfl, ?_, ?_, ?_⟩
        · rw [hrec]
        · rw [hrec]
          exact hst'
        · rw [hq]
          exact hlsn
    | none =>
      have hfit := hst.insert_none hins
      obtain ⟨hs, hroom, hres⟩ := ih hok
      refine ⟨hs, ?_, ?_⟩
      · rw [← hroom, roomIn, List.find?_cons_of_neg (by
          rw [hrec]; simpa using hfit)]
        rfl
      · intro p i pg₁ heq
        obtain ⟨hmem, hp⟩ := hres p i pg₁ heq
        exact ⟨List.mem_cons_of_mem _ hmem, hp⟩

/-- If all pages of the list can be read, the search comes to an end. -/
theorem findRoom_total (hview : ∀ p, Option.Rel Stores (view p) (h p))
    (hread : ∀ p pg, view p = some pg → read p s = .ok (.ok pg, s)) :
    ∀ {list : List Nat}, (∀ p ∈ list, (h p).isSome) →
      ∃ res, findRoom read r list s = .ok (.ok res, s)
  | [], _ => ⟨none, rfl⟩
  | q :: rest, hlist => by
    obtain ⟨rs, hrs⟩ := Option.isSome_iff_exists.mp (hlist q List.mem_cons_self)
    obtain ⟨pg, hq, hst⟩ := rel_some_right (hview q) hrs
    rw [findRoom, bind_of_ok (hread q pg hq)]
    by_cases hfit : Stores.Fits rs r.length
    · obtain ⟨pg', hins, -⟩ := hst.insert_of_fits hfit
      rw [hins, lift_bind]
      exact ⟨_, rfl⟩
    · obtain ⟨pg', hins⟩ := hst.insert_of_not_fits hfit
      rw [hins, lift_bind]
      exact findRoom_total hview hread fun p hp => hlist p (List.mem_cons_of_mem _ hp)

end FindRoom

/-! ## New pages -/

/-- The page the allocator hands out; between it and the mark there are
bitmaps only. -/
structure NewPage (next p : Nat) : Prop where
  le : next ≤ p
  data : isBitmapPage p = false
  between : ∀ q, next ≤ q → q < p → isBitmapPage q = true

theorem isBitmapPage_succ {p : Nat} (h : isBitmapPage p = true) : isBitmapPage (p + 1) = false := by
  rw [isBitmapPage, show pagesPerBitmap = 65024 from rfl,
    show firstBitmapPageId = 2 from rfl] at *
  simp only [Bool.or_eq_true, beq_iff_eq, Bool.and_eq_true, bne_iff_ne, ne_eq] at h
  simp only [Bool.or_eq_false_iff, beq_eq_false_iff_ne, Bool.and_eq_false_imp, bne_iff_ne, ne_eq]
  omega

theorem PageStore.allocatePage_some {s s' : PageStore} {p : Nat}
    (h : s.allocatePage = some (p, s')) :
    NewPage s.nextFreePageId p ∧ s' = { s with nextFreePageId := p + 1 } := by
  rw [PageStore.allocatePage] at h
  split at h
  · next hb =>
      split at h
      · cases h
      · cases h
        refine ⟨⟨by omega, isBitmapPage_succ hb, fun q hle hlt => ?_⟩, rfl⟩
        rw [show q = s.nextFreePageId by omega]
        exact hb
  · next hb =>
      split at h
      · cases h
      · cases h
        exact ⟨⟨Nat.le_refl _, by simpa using hb, fun q hle hlt => by omega⟩, rfl⟩

theorem freshPage_ok {e e' : GraphStorageEngine} {r : Bytes} {p i : Nat}
    {pg : SlottedPage} (hok : freshPage r e = .ok (.ok (p, i, pg), e')) :
    NewPage e.store.nextFreePageId p ∧ i = 0 ∧ Stores pg [r] ∧ pg.header.pageLsn = 0 ∧
      e' = { e with store := { e.store with nextFreePageId := p + 1 } } := by
  rw [freshPage, bind_ok] at hok
  obtain ⟨q, e₁, halloc, hok⟩ := hok
  rw [allocatePage, get_bind] at halloc
  cases hs : e.store.allocatePage with
  | none =>
    rw [hs] at halloc
    cases halloc
  | some qs =>
    obtain ⟨q', st⟩ := qs
    rw [hs] at halloc
    obtain ⟨rfl, rfl⟩ := pure_ok.mp halloc
    obtain ⟨hnew, rfl⟩ := PageStore.allocatePage_some hs
    obtain ⟨⟨slot, pg'⟩, e₂, hlift, hok⟩ := bind_ok.mp hok
    obtain ⟨hins, rfl⟩ := lift_ok.mp hlift
    cases slot with
    | none => exact absurd hok fail_not_ok
    | some j =>
      obtain ⟨heq, rfl⟩ := pure_ok.mp hok
      cases heq
      obtain ⟨hj, hst, -, hlsn⟩ := (Stores.init p .slottedData).insert_some hins
      exact ⟨hnew, hj, hst, hlsn, rfl⟩

end RGraph.Graph
