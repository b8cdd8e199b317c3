import RGraph.Proofs.EngineHeap

/-!
# Records of the engine, inserted and overwritten

What `insert_record`, `prepare_record`, `read_record` and `overwrite_record`
and their variants for pages not yet written do to the heap, and that wiring
and unwiring an edge leaves every face.
-/

namespace RGraph.Graph

open RGraph.Lib RGraph.Storage RGraph.Wal RGraph.Index Call Function

/-! ## Insertion -/

/-- Where a record of length `n` goes: the first page of the list with room
for it, or a page allocated for it, which is then in the list. -/
inductive Placed (h : Heap) (n : Nat) (e : GraphStorageEngine)
    (k : RecordKind) (p : Nat) : GraphStorageEngine → Prop
  | found (hroom : roomIn h n (e.pageList k).reverse = some p)
      (hp : (h p).isSome) : Placed h n e k p e
  | fresh (hroom : roomIn h n (e.pageList k).reverse = none)
      (hnew : NewPage e.store.nextFreePageId p) :
      Placed h n e k p
        ({ e with store := { e.store with nextFreePageId := p + 1 } }.pushPage
          k p)

/-- No page of the heap is still to be allocated. -/
def BelowMark (e : GraphStorageEngine) (h : Heap) : Prop :=
  ∀ p, (h p).isSome → p < e.store.nextFreePageId

theorem BelowMark.records {e : GraphStorageEngine} {h : Heap}
    (hb : BelowMark e h) {p : Nat} (hp : e.store.nextFreePageId ≤ p) : h p = none := by
  cases hh : h p with
  | none => rfl
  | some rs =>
    have := hb p (by rw [hh]; rfl)
    omega

section Insert

variable {f : Faults} {e e' : GraphStorageEngine} {h : Heap} {k : RecordKind}
  {r : Bytes} {slot : SlotRef} {p : Nat} {pg : SlottedPage}

theorem readPage_view {q : Nat} (hok : readPage f q e = .ok (.ok pg, e')) :
    e.store.page q = some pg ∧ e' = e :=
  ⟨(readPage_ok.mp hok).2.1, (readPage_ok.mp hok).2.2.symm⟩

/-- The slot that a record gets. -/
structure SlotOn (h : Heap) (p : Nat) (slot : SlotRef) : Prop where
  eq : slot = SlotRef.new p (h.records p).length
  page : p ≤ SlotRef.maxPageId
  index : (h.records p).length ≤ SlotRef.maxSlotIndex

theorem Filled.slotRef {view : Nat → Option SlottedPage} {i : Nat} {σ : Type}
    {s s' : σ} (hf : Filled view h r p i pg)
    (hok : slotRef p i s = .ok (.ok slot, s')) : SlotOn h p slot ∧ s = s' := by
  obtain ⟨hp, hi, rfl, rfl⟩ := slotRef_ok.mp hok
  obtain rfl := hf.slot
  exact ⟨⟨rfl, hp, hi⟩, rfl⟩

/-- A page that is allocated has no records yet. -/
theorem BelowMark.freshPage {view : Nat → Option SlottedPage} {i : Nat}
    (hb : BelowMark e h) (hview : ∀ q, Option.Rel Stores (view q) (h q))
    (hok : freshPage r e = .ok (.ok (p, i, pg), e')) :
    NewPage e.store.nextFreePageId p ∧ Filled view h r p i pg ∧
      e' = { e with store := { e.store with nextFreePageId := p + 1 } } := by
  obtain ⟨hnew, rfl, hst, hlsn, he⟩ := freshPage_ok hok
  have hnone := hb.records hnew.le
  have hrec : h.records p = [] := by rw [Heap.records, hnone]; rfl
  refine ⟨hnew, ⟨by rw [hrec]; rfl, ?_, ?_⟩, he⟩
  · rw [hrec]
    exact hst
  · rw [(rel_none_iff (hview p)).mpr hnone]
    exact hlsn

theorem prepareRecord_ok (hs : Shows e.store h) (hb : BelowMark e h)
    (hok : prepareRecord f k r e = .ok (.ok (slot, p, pg), e')) :
    Placed h r.length e k p e' ∧ SlotOn h p slot ∧ Stores pg (h.records p ++ [r]) ∧
      pg.header.pageLsn = pageLsnOf (e.store.page p) := by
  rw [prepareRecord, get_bind, bind_ok] at hok
  obtain ⟨res, e₁, hfind, hok⟩ := hok
  obtain ⟨rfl, hroom, hres⟩ := findRoom_ok hs.pages (fun q pg e' => readPage_view) hfind
  cases res with
  | some x =>
    obtain ⟨q, i, pg'⟩ := x
    obtain ⟨-, hsome, hfill⟩ := hres q i pg' rfl
    obtain ⟨sref, e₂, hsref, hok⟩ := bind_ok.mp hok
    obtain ⟨hslot, rfl⟩ := hfill.slotRef hsref
    obtain ⟨heq, rfl⟩ := pure_ok.mp hok
    cases heq
    exact ⟨.found hroom hsome, hslot, hfill.stores, hfill.lsn⟩
  | none =>
    obtain ⟨⟨q, i, pg'⟩, e₂, hfresh, hok⟩ := bind_ok.mp hok
    obtain ⟨hnew, hfill, rfl⟩ := hb.freshPage hs.pages hfresh
    obtain ⟨u, e₃, hpush, hok⟩ := bind_ok.mp hok
    obtain rfl := modify_ok.mp hpush
    obtain ⟨sref, e₄, hsref, hok⟩ := bind_ok.mp hok
    obtain ⟨hslot, rfl⟩ := hfill.slotRef hsref
    obtain ⟨heq, rfl⟩ := pure_ok.mp hok
    cases heq
    exact ⟨.fresh hroom hnew, hslot, hfill.stores, hfill.lsn⟩

/-- Only pages of the engine change. -/
structure SameButPages (e e' : GraphStorageEngine) : Prop where
  log : e'.log = e.log
  lastLsn : e'.lastLsn = e.lastLsn
  nextTxid : e'.nextTxid = e.nextTxid
  tree : e'.tree = e.tree

namespace SameButPages

variable {e₁ e₂ : GraphStorageEngine}

theorem refl (e : GraphStorageEngine) : SameButPages e e := ⟨rfl, rfl, rfl, rfl⟩

theorem trans (h : SameButPages e e₁) (h' : SameButPages e₁ e₂) : SameButPages e e₂ :=
  ⟨h'.log.trans h.log, h'.lastLsn.trans h.lastLsn, h'.nextTxid.trans h.nextTxid,
    h'.tree.trans h.tree⟩

end SameButPages

variable {n : Nat}

theorem Placed.same (hp : Placed h n e k p e') : SameButPages e e' := by
  cases hp with
  | found hroom hp => exact .refl e
  | fresh hroom hnew => exact ⟨rfl, rfl, rfl, rfl⟩

/-- The pages read as before. -/
theorem Placed.page (hp : Placed h n e k p e') :
    e'.store.page = e.store.page ∧ e'.store.fileLen = e.store.fileLen ∧
      e'.store.syncedPageId = e.store.syncedPageId := by
  cases hp with
  | found hroom hp => exact ⟨rfl, rfl, rfl⟩
  | fresh hroom hnew => exact ⟨rfl, rfl, rfl⟩

theorem Placed.next_le (hp : Placed h n e k p e') :
    e.store.nextFreePageId ≤ e'.store.nextFreePageId := by
  cases hp with
  | found hroom hp => exact Nat.le_refl _
  | fresh hroom hnew => exact Nat.le_succ_of_le hnew.le

theorem Placed.shows (hp : Placed h n e k p e') (hs : Shows e.store h) : Shows e'.store h := by
  obtain ⟨hpage, hlen, -⟩ := hp.page
  exact ⟨fun q => by rw [hpage]; exact hs.pages q,
    fun q hq => by rw [hlen]; exact hs.inFile q hq⟩

/-- `insert_record`, once it has returned. -/
theorem insertRecord_ok (hs : Shows e.store h) (hb : BelowMark e h)
    (hok : insertRecord f k r e = .ok (.ok slot, e')) :
    ∃ p e₁, Placed h r.length e k p e₁ ∧ SlotOn h p slot ∧
      Shows e'.store (h.append p r) ∧ Kept e.store e'.store ∧
      SameButPages e e' ∧ e'.pageList = e₁.pageList ∧
      e'.store.nextFreePageId = e₁.store.nextFreePageId := by
  rw [insertRecord, get_bind, bind_ok] at hok
  obtain ⟨res, e₁, hfind, hok⟩ := hok
  obtain ⟨rfl, hroom, hres⟩ := findRoom_ok hs.pages (fun q pg e' => readPage_view) hfind
  cases res with
  | some x =>
    obtain ⟨q, i, pg'⟩ := x
    obtain ⟨-, hsome, hfill⟩ := hres q i pg' rfl
    obtain ⟨u, e₂, hwrite, hok⟩ := bind_ok.mp hok
    obtain ⟨-, st, hst, rfl⟩ := writePage_ok.mp hwrite
    obtain ⟨hslot, rfl⟩ := hfill.slotRef hok
    have hw := PageStore.written hst
    exact ⟨q, _, .found hroom hsome, hslot, hw.shows hs hfill.stores,
      hw.kept hfill.lsn, ⟨rfl, rfl, rfl, rfl⟩, rfl, hw.next⟩
  | none =>
    obtain ⟨⟨q, i, pg'⟩, e₂, hfresh, hok⟩ := bind_ok.mp hok
    obtain ⟨hnew, hfill, rfl⟩ := hb.freshPage hs.pages hfresh
    obtain ⟨u, e₃, hwrite, hok⟩ := bind_ok.mp hok
    obtain ⟨-, st, hwr, rfl⟩ := writePage_ok.mp hwrite
    obtain ⟨u, e₄, hpush, hok⟩ := bind_ok.mp hok
    obtain rfl := modify_ok.mp hpush
    obtain ⟨hslot, rfl⟩ := hfill.slotRef hok
    have hw := PageStore.written hwr
    have hk := hw.kept hfill.lsn
    exact ⟨q, _, .fresh hroom hnew, hslot, hw.shows ⟨hs.pages, hs.inFile⟩ hfill.stores,
      ⟨Nat.le_trans (Nat.le_succ_of_le hnew.le) hk.next, hk.synced, hk.lsn⟩,
      ⟨rfl, rfl, rfl, rfl⟩, rfl, hw.next⟩

end Insert

/-! ## Reading and overwriting -/

section Overwrite

variable {f : Faults} {e e' : GraphStorageEngine} {h : Heap} {slot : SlotRef}
  {r : Bytes}

theorem readRecord_ok (hs : Shows e.store h) {o : Option Bytes}
    (hok : readRecord f slot e = .ok (.ok o, e')) : o = h.get slot ∧ e' = e := by
  obtain ⟨pg, e₁, hread, hok⟩ := bind_ok.mp hok
  obtain ⟨-, hpg, rfl⟩ := readPage_ok.mp hread
  obtain ⟨rs, hrs, hst⟩ := hs.of_page hpg
  obtain ⟨hr, rfl⟩ := lift_ok.mp hok
  rw [hst.read] at hr
  cases hr
  exact ⟨by rw [Heap.get, hrs]; rfl, rfl⟩

/-- A page whose record at a slot is replaced. -/
theorem overwriteSlot_heap {pg pg' : SlottedPage} {rs : List Bytes}
    (hrs : h slot.pageId = some rs) (hst : Stores pg rs)
    (hok : overwriteSlot pg slot.slotIndex r = .ok (.ok pg'))
    (hlen : ∀ old, h.get slot = some old → r.length = old.length) :
    ∃ rs', h.set slot r = update h slot.pageId (some rs') ∧
      Stores pg' rs' ∧ pg'.header = pg.header ∧ (h.get slot).isSome := by
  have hget : h.get slot = rs[slot.slotIndex]? := by rw [Heap.get, hrs]; rfl
  obtain ⟨hlt, hst', hhead⟩ := overwriteSlot_ok hst hok
    fun old hold => hlen old (hget.trans hold)
  refine ⟨_, by rw [Heap.set, hrs]; rfl, hst', hhead, ?_⟩
  rw [hget, List.getElem?_eq_getElem hlt]
  rfl

/-- Writes in place: pages only, and no page is allocated. -/
structure InPlace (e e' : GraphStorageEngine) : Prop where
  same : SameButPages e e'
  pageList : e'.pageList = e.pageList
  kept : Kept e.store e'.store
  next : e'.store.nextFreePageId = e.store.nextFreePageId

theorem overwriteRecord_ok (hs : Shows e.store h) {u : Unit}
    (hlen : ∀ old, h.get slot = some old → r.length = old.length)
    (hok : overwriteRecord f slot r e = .ok (.ok u, e')) :
    Shows e'.store (h.set slot r) ∧ InPlace e e' ∧ (h.get slot).isSome := by
  obtain ⟨pg, e₁, hread, hok⟩ := bind_ok.mp hok
  obtain ⟨-, hpg, rfl⟩ := readPage_ok.mp hread
  obtain ⟨rs, hrs, hst⟩ := hs.of_page hpg
  obtain ⟨pg', e₂, hres, hok⟩ := bind_ok.mp hok
  obtain ⟨hover, rfl⟩ := ofResult_ok.mp hres
  obtain ⟨-, st, hwrite, rfl⟩ := writePage_ok.mp hok
  obtain ⟨rs', hset, hst', hhead, hsome⟩ := overwriteSlot_heap hrs hst hover hlen
  have hw := PageStore.written hwrite
  refine ⟨?_, ⟨⟨rfl, rfl, rfl, rfl⟩, rfl, hw.kept ?_, hw.next⟩, hsome⟩
  · rw [hset]
    exact hw.shows hs hst'
  · rw [hhead, hpg]
    rfl

end Overwrite

/-! ## Pages not yet written -/

/-- What the pages will be once the images are written. -/
def overlay (s : GraphStorageEngine × Pending) (p : Nat) : Option SlottedPage :=
  (s.2[p]?).or (s.1.store.page p)

def ShowsPending (s : GraphStorageEngine × Pending) (h : Heap) : Prop :=
  ∀ p, Option.Rel Stores (overlay s p) (h p)

theorem overlay_insert (e : GraphStorageEngine) (m : Pending) (p : Nat) (pg : SlottedPage) :
    overlay (e, m.insert p pg) = update (overlay (e, m)) p (some pg) := by
  funext q
  rw [overlay, Std.ExtTreeMap.getElem?_insert]
  by_cases hq : q = p
  · subst hq
    simp
  · have hne : ¬ compare p q = .eq := by
      rw [Nat.compare_eq_eq]
      exact Ne.symm hq
    rw [if_neg hne, update_of_ne hq]
    rfl

section Pending

variable {f : Faults} {e : GraphStorageEngine} {m : Pending}
  {s' : GraphStorageEngine × Pending} {h : Heap} {slot : SlotRef} {r : Bytes}

variable {pg : SlottedPage}

theorem ShowsPending.insert (hs : ShowsPending (e, m) h) (p : Nat)
    {rs : List Bytes} (hst : Stores pg rs) :
    ShowsPending (e, m.insert p pg) (update h p (some rs)) := by
  intro q
  rw [overlay_insert]
  by_cases hq : q = p
  · subst hq
    rw [update_self, update_self]
    exact .some hst
  · rw [update_of_ne hq, update_of_ne hq]
    exact hs q

theorem onEngine_ok {α : Type} {x : EngineM α} {a : α} : onEngine x (e, m) = .ok (.ok a, s') ↔
      ∃ e', x e = .ok (.ok a, e') ∧ (e', m) = s' := by
  rw [onEngine]
  constructor
  · intro hok
    split at hok
    · cases hok
    · next hx =>
        cases hok
        exact ⟨_, hx, rfl⟩
  · rintro ⟨e', hx, rfl⟩
    dsimp only
    rw [hx]

variable {p : Nat}

theorem readPagePending_ok (hok : readPagePending f p (e, m) = .ok (.ok pg, s')) :
    overlay (e, m) p = some pg ∧ s' = (e, m) := by
  rw [readPagePending, get_bind] at hok
  rw [overlay]
  cases hp : m[p]? with
  | some img =>
    rw [hp] at hok
    obtain ⟨rfl, rfl⟩ := pure_ok.mp hok
    exact ⟨rfl, rfl⟩
  | none =>
    rw [hp] at hok
    obtain ⟨e', hread, rfl⟩ := onEngine_ok.mp hok
    obtain ⟨-, hpg, rfl⟩ := readPage_ok.mp hread
    exact ⟨hpg, rfl⟩

theorem putPending_ok {u : Unit} :
    putPending p pg (e, m) = .ok (.ok u, s') ↔ (e, m.insert p pg) = s' :=
  modify_ok

theorem ShowsPending.of_page (hs : ShowsPending (e, m) h)
    (hp : overlay (e, m) p = some pg) : ∃ rs, h p = some rs ∧ Stores pg rs :=
  rel_some_left (hs p) hp

theorem readRecordPending_ok (hs : ShowsPending (e, m) h) {o : Option Bytes}
    (hok : readRecordPending f slot (e, m) = .ok (.ok o, s')) : o = h.get slot ∧ s' = (e, m) := by
  obtain ⟨pg, s₁, hread, hok⟩ := bind_ok.mp hok
  obtain ⟨hpg, rfl⟩ := readPagePending_ok hread
  obtain ⟨rs, hrs, hst⟩ := hs.of_page hpg
  obtain ⟨hr, rfl⟩ := lift_ok.mp hok
  rw [hst.read] at hr
  cases hr
  exact ⟨by rw [Heap.get, hrs]; rfl, rfl⟩

theorem overwriteIntoPending_ok (hs : ShowsPending (e, m) h) {u : Unit}
    (hlen : ∀ old, h.get slot = some old → r.length = old.length)
    (hok : overwriteIntoPending f slot r (e, m) = .ok (.ok u, s')) :
    ShowsPending s' (h.set slot r) ∧ s'.1 = e ∧ (h.get slot).isSome := by
  obtain ⟨pg, s₁, hread, hok⟩ := bind_ok.mp hok
  obtain ⟨hpg, rfl⟩ := readPagePending_ok hread
  obtain ⟨rs, hrs, hst⟩ := hs.of_page hpg
  obtain ⟨pg', s₂, hres, hok⟩ := bind_ok.mp hok
  obtain ⟨hover, rfl⟩ := ofResult_ok.mp hres
  obtain rfl := putPending_ok.mp hok
  obtain ⟨rs', hset, hst', -, hsome⟩ := overwriteSlot_heap hrs hst hover hlen
  refine ⟨?_, rfl, hsome⟩
  rw [hset]
  exact hs.insert _ hst'

theorem prepareIntoPending_ok {k : RecordKind} (hs : ShowsPending (e, m) h) (hb : BelowMark e h)
    (hok : prepareIntoPending f k r (e, m) = .ok (.ok slot, s')) :
    ∃ p, Placed h r.length e k p s'.1 ∧ SlotOn h p slot ∧ ShowsPending s' (h.append p r) := by
  rw [prepareIntoPending, get_bind, bind_ok] at hok
  obtain ⟨res, s₁, hfind, hok⟩ := hok
  obtain ⟨rfl, hroom, hres⟩ := findRoom_ok hs (fun q pg s' => readPagePending_ok) hfind
  cases res with
  | some x =>
    obtain ⟨q, i, pg'⟩ := x
    obtain ⟨-, hsome, hfill⟩ := hres q i pg' rfl
    obtain ⟨sref, s₂, hsref, hok⟩ := bind_ok.mp hok
    obtain ⟨hslot, rfl⟩ := hfill.slotRef hsref
    obtain ⟨u, s₃, hput, hok⟩ := bind_ok.mp hok
    obtain rfl := putPending_ok.mp hput
    obtain ⟨rfl, rfl⟩ := pure_ok.mp hok
    exact ⟨q, .found hroom hsome, hslot, hs.insert q hfill.stores⟩
  | none =>
    obtain ⟨⟨q, i, pg'⟩, s₂, hon, hok⟩ := bind_ok.mp hok
    obtain ⟨e₁, hfresh, rfl⟩ := onEngine_ok.mp hon
    obtain ⟨hnew, hfill, rfl⟩ := hb.freshPage hs hfresh
    obtain ⟨u, s₃, hon', hok⟩ := bind_ok.mp hok
    obtain ⟨e₂, hpush, rfl⟩ := onEngine_ok.mp hon'
    obtain rfl := modify_ok.mp hpush
    obtain ⟨sref, s₄, hsref, hok⟩ := bind_ok.mp hok
    obtain ⟨hslot, rfl⟩ := hfill.slotRef hsref
    obtain ⟨u, s₅, hput, hok⟩ := bind_ok.mp hok
    obtain rfl := putPending_ok.mp hput
    obtain ⟨rfl, rfl⟩ := pure_ok.mp hok
    exact ⟨q, .fresh hroom hnew, hslot, ShowsPending.insert hs q hfill.stores⟩

end Pending

end RGraph.Graph
