import RGraph.Proofs.EngineAtomic

/-!
# Creations that go through

`create_node_atomic` on an engine in order, when nothing goes wrong around it.
All pages on the lists can be read, so the search for room comes to an end;
new pages are behind the end of the file, so they can be written. What is left
are the limits of the format: a record must fit on a page, and a page id and a
slot index must fit into a slot reference.
-/

namespace RGraph.Graph

open RGraph.Lib RGraph.Storage RGraph.Wal RGraph.Index Call List

/-! ## Room for records -/

/-- `n` more records can be numbered, even if all go to the same page. -/
def SlotsLeft (n : Nat) (h : Heap) : Prop :=
  ∀ p, (h.records p).length + n ≤ SlotRef.maxSlotIndex + 1

theorem SlotsLeft.append {n : Nat} {h : Heap} (hn : SlotsLeft (n + 1) h)
    (p : Nat) (r : Bytes) : SlotsLeft n (h.append p r) := by
  intro q
  have hq := hn q
  rw [Heap.records, Heap.append]
  by_cases hqp : q = p
  · subst hqp
    rw [Function.update_self, Option.getD_some, length_append, length_singleton]
    omega
  · rw [Function.update_of_ne hqp, ← Heap.records]
    omega

/-- At most one bitmap page is skipped. -/
theorem NewPage.le_succ {next p : Nat} (hnew : NewPage next p) : p ≤ next + 1 := by
  by_contra hlt
  have hb := isBitmapPage_succ (hnew.between next (by omega) (by omega))
  rw [hnew.between (next + 1) (by omega) (by omega)] at hb
  cases hb

theorem Placed.next_le_add {h : Heap} {n p : Nat} {e e' : GraphStorageEngine}
    {k : RecordKind} (hp : Placed h n e k p e') :
    e'.store.nextFreePageId ≤ e.store.nextFreePageId + 2 := by
  cases hp with
  | found hroom hsome => exact Nat.le_add_right _ 2
  | fresh hroom hnew => exact Nat.succ_le_succ hnew.le_succ

theorem allocatePage_total {e : GraphStorageEngine}
    (hnext : e.store.nextFreePageId + 1 ≤ maxAddressablePageId) :
    ∃ q st, allocatePage e = .ok (.ok q, { e with store := st }) := by
  have halloc : ∃ q st, e.store.allocatePage = some (q, st) := by
    rw [PageStore.allocatePage]
    split
    · rw [if_neg (by omega)]
      exact ⟨_, _, rfl⟩
    · rw [if_neg (by omega)]
      exact ⟨_, _, rfl⟩
  obtain ⟨q, st, hq⟩ := halloc
  refine ⟨q, st, ?_⟩
  rw [allocatePage, get_bind, hq]
  rfl

theorem freshPage_total {r : Bytes} (hr : r.length ≤ maxInlineRecordLen) {e : GraphStorageEngine}
    (hnext : e.store.nextFreePageId + 1 ≤ maxAddressablePageId) :
    ∃ x e', freshPage r e = .ok (.ok x, e') := by
  obtain ⟨q, st, hcall⟩ := allocatePage_total hnext
  have hfit : Stores.Fits [] r.length := by
    rw [show maxInlineRecordLen = 2048 from rfl] at hr
    refine ⟨hr, ?_⟩
    show 0 + r.length + 4 ≤ 8128
    omega
  obtain ⟨pg, hins, -⟩ := (Stores.init q .slottedData).insert_of_fits hfit
  rw [freshPage, bind_of_ok hcall, hins, lift_bind]
  exact ⟨_, _, rfl⟩

theorem readPagePending_total {s : GraphStorageEngine × Pending} {p : Nat}
    {pg : SlottedPage} (h : overlay s p = some pg) :
    readPagePending .none p s = .ok (.ok pg, s) := by
  rw [overlay] at h
  rw [readPagePending, get_bind]
  cases hp : s.2[p]? with
  | some img =>
    rw [hp] at h
    cases h
    rfl
  | none =>
    rw [hp] at h
    have hread : readPage .none p s.1 = .ok (.ok pg, s.1) := readPage_ok.mpr ⟨rfl, h, rfl⟩
    show onEngine (readPage .none p) s = _
    rw [onEngine, hread]

section Prepare

variable {s : GraphStorageEngine × Pending} {k : RecordKind} {r : Bytes}

theorem prepare_found {p i : Nat} {pg : SlottedPage}
    (hfind : findRoom (readPagePending .none) r (s.1.pageList k).reverse s =
      .ok (.ok (some (p, i, pg)), s)) (hp : p ≤ SlotRef.maxPageId)
    (hi : i ≤ SlotRef.maxSlotIndex) : prepareIntoPending .none k r s =
      .ok (.ok (SlotRef.new p i), s.1, s.2.insert p pg) := by
  have hslot : (slotRef p i : PendingM SlotRef) s = .ok (.ok (SlotRef.new p i), s) :=
    slotRef_ok.mpr ⟨hp, hi, rfl, rfl⟩
  rw [prepareIntoPending, get_bind, bind_of_ok hfind]
  exact bind_of_ok hslot _

/-- There is no room, and the record gets a page of its own. -/
theorem prepare_fresh (hfind : findRoom (readPagePending .none) r (s.1.pageList k).reverse s =
      .ok (.ok none, s)) (hmax : r.length ≤ maxInlineRecordLen)
    (hroom : s.1.store.nextFreePageId + 1 ≤ SlotRef.maxPageId) :
    ∃ slot e₂ p img, prepareIntoPending .none k r s = .ok (.ok slot, e₂, s.2.insert p img) ∧
      s.1.store.nextFreePageId ≤ p ∧ e₂.store.page = s.1.store.page ∧
      e₂.store.fileLen = s.1.store.fileLen := by
  obtain ⟨⟨p, i, img⟩, e₁, hfresh⟩ := freshPage_total hmax (e := s.1) (by
    rw [SlotRef.maxPageId] at hroom
    rw [show maxAddressablePageId = 2251799813685246 by decide]
    omega)
  obtain ⟨hnew, rfl, -, -, he₁⟩ := freshPage_ok hfresh
  have hle := hnew.le_succ
  have hon : onEngine (freshPage r) s = .ok (.ok (p, 0, img), e₁, s.2) :=
    onEngine_ok.mpr ⟨e₁, hfresh, rfl⟩
  have hslot : (slotRef p 0 : PendingM SlotRef) (e₁.pushPage k p, s.2) =
      .ok (.ok (SlotRef.new p 0), e₁.pushPage k p, s.2) :=
    slotRef_ok.mpr ⟨by omega, Nat.zero_le _, rfl, rfl⟩
  refine ⟨SlotRef.new p 0, e₁.pushPage k p, p, img, ?_, hnew.le, ?_⟩
  · rw [prepareIntoPending, get_bind, bind_of_ok hfind]
    exact (bind_of_ok hon _).trans (bind_of_ok hslot _)
  · rw [he₁]
    exact ⟨rfl, rfl⟩

end Prepare

section Building

variable {e : GraphStorageEngine} {s : GraphStorageEngine × Pending} {h : Heap}
  {n : Nat}

/-- The room that `n` records need at most. -/
structure RoomFor (n : Nat) (s : GraphStorageEngine × Pending) (h : Heap) :
    Prop where
  slots : SlotsLeft n h
  pages : s.1.store.nextFreePageId + 2 * n ≤ SlotRef.maxPageId + 1

theorem Building.prepare_total (hb : Building e s h)
    (hroom : RoomFor (n + 1) s h) (k : RecordKind) {r : Bytes}
    (hr : r.length ≤ maxInlineRecordLen) :
    ∃ slot s' h', prepareIntoPending .none k r s = .ok (.ok slot, s') ∧
      Building e s' h' ∧ RoomFor n s' h' := by
  obtain ⟨slot, s', hok⟩ : ∃ slot s', prepareIntoPending .none k r s = .ok (.ok slot, s') := by
    obtain ⟨res, hfind⟩ := findRoom_total (r := r) hb.shows (fun p pg => readPagePending_total)
      fun p hp => hb.lists k p (mem_reverse.mp hp)
    cases res with
    | some x =>
      obtain ⟨p, i, pg⟩ := x
      obtain ⟨-, hsome, hfill⟩ := (findRoom_ok hb.shows
        (fun q pg s' => readPagePending_ok) hfind).2.2 p i pg rfl
      obtain ⟨rs, hrs⟩ := Option.isSome_iff_exists.mp hsome
      have hi : i ≤ SlotRef.maxSlotIndex := by
        have := hroom.slots p
        rw [hfill.slot]
        omega
      exact ⟨_, _, prepare_found hfind (hb.pages.small p rs hrs).1 hi⟩
    | none =>
      have hpages := hroom.pages
      obtain ⟨slot, e₂, p, img, hok, -⟩ := prepare_fresh hfind hr (by omega)
      exact ⟨slot, _, hok⟩
  obtain ⟨p, hpl, hslot, hb'⟩ := hb.placed hok
  refine ⟨slot, s', _, hok, hb', hroom.slots.append p r, ?_⟩
  have := hroom.pages
  have := hpl.next_le_add
  omega

theorem Building.chain_total :
    ∀ (props : List PropertyRecord) {s : GraphStorageEngine × Pending}
      {h : Heap}, Building e s h → RoomFor (props.length + n) s h →
      (∀ prop ∈ props, prop.onDiskSize ≤ maxInlineRecordLen) →
      ∀ next, ∃ first s' h', prepareChain .none props next s = .ok (.ok first, s') ∧
          Building e s' h' ∧ RoomFor n s' h'
  | [], s, h, hb, hroom, _, next =>
    ⟨next, s, h, rfl, hb, by rwa [length_nil, Nat.zero_add] at hroom⟩
  | prop :: props, s, h, hb, hroom, hsize, next => by
    obtain ⟨slot, s₁, h₁, hprep, hb₁, hroom₁⟩ := hb.prepare_total (n := props.length + n) (by
        rwa [length_cons, Nat.add_right_comm] at hroom) .property
      (r := { prop with nextProperty := next }.encode) (by
        rw [PropertyRecord.length_encode]
        exact hsize prop mem_cons_self)
    obtain ⟨first, s₂, h₂, hchain, hb₂, hroom₂⟩ := chain_total props hb₁
      hroom₁ (fun prop' hp => hsize prop' (mem_cons_of_mem _ hp)) slot
    exact ⟨first, s₂, h₂, (bind_of_ok hprep _).trans hchain, hb₂, hroom₂⟩

theorem Building.node_total {props : List PropertyRecord} (hb : Building e s h) (node : NodeRecord)
    (hroom : RoomFor (props.length + 1) s h)
    (hsize : ∀ prop ∈ props, prop.onDiskSize ≤ maxInlineRecordLen) :
    ∃ slot s' h', nodeBuild .none node props s = .ok (.ok slot, s') ∧ Building e s' h' := by
  obtain ⟨first, s₁, h₁, hchain, hb₁, hroom₁⟩ := chain_total (n := 1)
    props.reverse hb (by rwa [length_reverse])
    (fun prop hp => hsize prop (mem_reverse.mp hp)) .null
  obtain ⟨slot, s₂, h₂, hprep, hb₂, -⟩ := hb₁.prepare_total (n := 0) hroom₁
    .node (r := { node with firstProperty := first }.encode) (by
      rw [NodeRecord.length_encode]
      decide)
  exact ⟨slot, s₂, h₂, (bind_of_ok hchain _).trans hprep, hb₂⟩

end Building

/-! ## Logging and writing -/

section Write

variable {e : GraphStorageEngine}

theorem append_total (e : GraphStorageEngine) (txid : Nat) (ty : RecordType)
    (page : Option (Nat × SlottedPage)) :
    ∃ lsn e', append .none txid ty page e = .ok (.ok lsn, e') :=
  ⟨_, _, rfl⟩

theorem logPages_total (txid : Nat) : ∀ (imgs : List (Nat × SlottedPage))
    (e : GraphStorageEngine), ∃ out e', logPages .none txid imgs e = .ok (.ok out, e')
  | [], e => ⟨[], e, rfl⟩
  | (p, img) :: imgs, e => by
    obtain ⟨lsn, e₁, happ⟩ := append_total e txid .pageInsert (some (p, img))
    obtain ⟨out, e₂, hlogs⟩ := logPages_total txid imgs e₁
    exact ⟨_, _, (bind_of_ok happ _).trans (bind_of_ok hlogs _)⟩

/-- The images are written in the order of the page ids, so the file never
gets a gap that a later image would have to fill. -/
theorem writePages_total : ∀ {imgs : List (Nat × SlottedPage)}
    {e : GraphStorageEngine}, (imgs.map Prod.fst).Pairwise (· < ·) →
    (∀ p ∈ imgs.map Prod.fst, (e.store.page p).isSome ∨ e.store.fileLen ≤ p) →
    ∃ e', writePages .none imgs e = .ok (.ok (), e')
  | [], e, _, _ => ⟨e, rfl⟩
  | (p, img) :: imgs, e, hsorted, hpages => by
    obtain ⟨hlt, hsorted'⟩ := pairwise_cons.mp hsorted
    obtain ⟨st, hst⟩ : ∃ st, e.store.write p img = some st := by
      rw [PageStore.write]
      split
      · exact ⟨_, rfl⟩
      · next hlen =>
          have hp := (hpages p mem_cons_self).resolve_right hlen
          rw [Option.isSome_iff_ne_none] at hp
          rw [if_neg (by simpa using hp)]
          exact ⟨_, rfl⟩
    have hw := PageStore.written hst
    have hwrite : writePage .none p img e =
        .ok (.ok (), { e with store := st }) :=
      writePage_ok.mpr ⟨rfl, st, hst, rfl⟩
    obtain ⟨e', hrest⟩ := writePages_total (e := { e with store := st })
      hsorted' fun q hq => by
        have hpq := hlt q hq
        show (st.page q).isSome ∨ st.fileLen ≤ q
        rw [hw.page, hw.fileLen, Function.update_of_ne (by omega)]
        rcases hpages q (mem_cons_of_mem _ hq) with h | h
        · exact .inl h
        · right
          omega
    exact ⟨e', (bind_of_ok hwrite _).trans hrest⟩

/-- The keys of the images, in the order in which they are written. -/
theorem Pending.keys_sorted (m : Pending) : (m.toList.map Prod.fst).Pairwise (· < ·) := by
  rw [Std.ExtTreeMap.map_fst_toList_eq_keys]
  exact Std.ExtTreeMap.ordered_keys.imp Nat.compare_eq_lt.mp

/-- An image is of a page that can be read, or of one behind the file. -/
theorem Building.writable {h h' : Heap} {e₁ : GraphStorageEngine} {m : Pending}
    (hb : Building e (e₁, m) h') (hs : Stored e h)
    (hlen : e.store.fileLen ≤ e.store.nextFreePageId) {p : Nat} (hp : (m[p]?).isSome) :
    (e₁.store.page p).isSome ∨ e₁.store.fileLen ≤ p := by
  have hpage : e₁.store.page = e.store.page := hb.page
  have hfile : e₁.store.fileLen = e.store.fileLen := hb.fileLen
  rw [hpage, hfile]
  by_cases hlt : p < e.store.nextFreePageId
  · left
    obtain ⟨img, himg⟩ := Option.isSome_iff_exists.mp hp
    have hov : overlay (e₁, m) p = some img := by
      rw [overlay, himg, Option.some_or]
    obtain ⟨rs, hrs, -⟩ := hb.shows.of_page hov
    have hres := ((hb.pages.page p).mp (by rw [hrs]; rfl)).2
    obtain ⟨rs', hrs'⟩ := Option.isSome_iff_exists.mp ((hs.pages.page p).mpr ⟨hlt, hres⟩)
    obtain ⟨pg, hpg, -⟩ := hs.shows.of_heap hrs'
    rw [hpg]
    rfl
  · right
    omega

/-- A node whose images are built can be created, if they can be written. -/
theorem createNodeAtomic_of_build {e₁ : GraphStorageEngine} {m : Pending}
    {node : NodeRecord} {props : List PropertyRecord} {slot : SlotRef} (hid : node.nodeId ≠ 0)
    (habsent : (e.tree .node)[idKey node.nodeId]? = none) (hbuild : nodeBuild .none node props
      (locked e (nodeResourceId node.nodeId), ∅) = .ok (.ok slot, e₁, m))
    (hwritable : ∀ p, (m[p]?).isSome → (e₁.store.page p).isSome ∨ e₁.store.fileLen ≤ p) :
    ∃ slot e', createNodeAtomic .none node props e = .ok (.ok slot, e') := by
  obtain ⟨out, e₂, hlogs⟩ := logPages_total e.nextTxid m.toList e₁
  obtain ⟨recs, hlogged, -, hstore, -⟩ := logPages_ok hlogs
  obtain ⟨lsn, e₃, happ⟩ := append_total e₂ e.nextTxid .commit none
  have hbody : atomicBody .none e.nextTxid (nodeResourceId node.nodeId)
      (nodeBuild .none node props) (begun e) = .ok (.ok (slot, out), e₂) :=
    (bind_of_ok (withPending_ok.mpr hbuild) _).trans (bind_of_ok hlogs _)
  have hcommit : commit .none e.nextTxid e₂ = .ok (.ok (), e₃.endTx e.nextTxid) :=
    commit_ok.mpr ⟨rfl, lsn, e₃, happ, rfl⟩
  have hstore₃ : (e₃.endTx e.nextTxid).store = e₁.store := by
    obtain ⟨-, -, rfl⟩ := append_ok.mp happ
    exact hstore
  have hsorted : (out.map Prod.fst).Pairwise (· < ·) := by
    rw [hlogged.keys]
    exact m.keys_sorted
  obtain ⟨e₄, hwrite⟩ := writePages_total (e := e₃.endTx e.nextTxid) hsorted fun p hp => by
      rw [hlogged.keys, mem_map_fst_toList] at hp
      rw [hstore₃]
      exact hwritable p hp
  have hatomic : writeAtomic .none (nodeResourceId node.nodeId)
      (nodeBuild .none node props) e = .ok (.ok slot, e₄) := by
    rw [writeAtomic, begin_bind]
    exact (bind_of_ok (orRollback_ok.mpr hbody) _).trans
      ((bind_of_ok hcommit _).trans (bind_of_ok hwrite _))
  rw [createNodeAtomic, if_neg hid, get_bind, if_neg (by
    rw [show nodeIdKey _ = idKey node.nodeId from rfl, habsent]
    exact Bool.false_ne_true)]
  exact ⟨_, _, bind_of_ok hatomic _⟩

theorem createNodeAtomic_total {h : Heap} (hs : Stored e h)
    (hlen : e.store.fileLen ≤ e.store.nextFreePageId) {node : NodeRecord}
    {props : List PropertyRecord} (hid : node.nodeId ≠ 0)
    (habsent : (e.tree .node)[idKey node.nodeId]? = none)
    (hroom : RoomFor (props.length + 1) (e, ∅) h)
    (hsize : ∀ prop ∈ props, prop.onDiskSize ≤ maxInlineRecordLen) :
    ∃ slot e', createNodeAtomic .none node props e = .ok (.ok slot, e') := by
  have hlocked := hs.locked (nodeResourceId node.nodeId)
  obtain ⟨slot, ⟨e₁, m⟩, h', hbuild, hb⟩ := (Building.start hlocked).node_total
    node ⟨hroom.slots, hroom.pages⟩ hsize
  exact createNodeAtomic_of_build hid habsent hbuild fun p hp => hb.writable hlocked hlen hp

end Write

end RGraph.Graph
