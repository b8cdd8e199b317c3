import RGraph.Proofs.EngineIndex
import RGraph.Proofs.EngineWiring

/-!
# What a call leaves, however it returns

A call that fails may have written some of its pages, and may have taken a
page that is never written. So `InOrder` asks less of the engine than `Stored`
does: the pages on its lists need not be readable. An image replaces a page or
does not, so what holds of every record in the old page and in the image holds
of every record afterwards.
-/

namespace RGraph.Graph

open RGraph.Lib RGraph.Storage RGraph.Wal RGraph.Index Call List Function

/-! ## The engine between calls that may have failed -/

structure InOrder (e : GraphStorageEngine) (h : Heap) : Prop where
  shows : Shows e.store h
  below : BelowMark e h
  data : ∀ p, (h p).isSome → firstDataPageId ≤ p
  mark : firstDataPageId ≤ e.store.nextFreePageId

variable {e : GraphStorageEngine} {h : Heap} {slot : SlotRef}

/-- The pages and the trees are as before; pages may have been taken. -/
structure Untouched (e e' : GraphStorageEngine) : Prop where
  page : e'.store.page = e.store.page
  fileLen : e'.store.fileLen = e.store.fileLen
  next : e.store.nextFreePageId ≤ e'.store.nextFreePageId
  tree : e'.tree = e.tree

namespace Untouched

variable {e e₁ e₂ : GraphStorageEngine} {h : Heap} {f : Faults} {txid : Nat}

theorem refl (e : GraphStorageEngine) : Untouched e e := ⟨rfl, rfl, Nat.le_refl _, rfl⟩

theorem trans (h : Untouched e e₁) (h' : Untouched e₁ e₂) : Untouched e e₂ :=
  ⟨h'.page.trans h.page, h'.fileLen.trans h.fileLen,
    Nat.le_trans h.next h'.next, h'.tree.trans h.tree⟩

instance : IsPreorder _ Untouched where
  refl := refl
  trans _ _ _ := trans

theorem begun (e : GraphStorageEngine) : Untouched e (begun e) := ⟨rfl, rfl, Nat.le_refl _, rfl⟩

theorem acquireLock (r : UInt64) : Frame Untouched (acquireLock f txid r) :=
  acquireLock_frame fun _ => ⟨rfl, rfl, Nat.le_refl _, rfl⟩

end Untouched

/-! ## Images that are built -/

/-- The images that are built will make the heap `h`. -/
structure Drafted (e : GraphStorageEngine) (s : GraphStorageEngine × Pending)
    (h : Heap) : Prop where
  shows : ShowsPending s h
  below : BelowMark s.1 h
  data : ∀ p, (h p).isSome → firstDataPageId ≤ p
  mark : firstDataPageId ≤ s.1.store.nextFreePageId
  untouched : Untouched e s.1

variable {f : Faults} {s' : GraphStorageEngine × Pending}

/-- A chain of properties, from the slot of its first record on. -/
def ChainAt (h : Heap) : SlotRef → List PropertyRecord → Prop
  | s, [] => s = .null
  | s, prop :: props => s.isNull = false ∧ ∃ next,
      h.get s = some { prop with nextProperty := next }.encode ∧
        ChainAt h next props

theorem ChainAt.grows {h' : Heap} (hg : h.Grows h') :
    ∀ {props : List PropertyRecord} {s : SlotRef}, ChainAt h s props →
      ChainAt h' s props
  | [], _, hc => hc
  | _ :: _, _, ⟨hs, next, hget, hc⟩ => ⟨hs, next, hg _ _ hget, hc.grows hg⟩

theorem SlotOn.isNull {p : Nat} (hs : SlotOn h p slot)
    (hp : firstDataPageId ≤ p) : slot.isNull = false := by
  rw [SlotRef.isNull, beq_eq_false_iff_ne]
  intro h0
  have hpage := hs.pageId_eq
  rw [SlotRef.pageId, h0] at hpage
  rw [show firstDataPageId = 3 from rfl] at hp
  rw [show (0 : UInt32).toNat / 256 = 0 from rfl] at hpage
  omega

theorem PropertyRecord.length_encode (prop : PropertyRecord) :
    prop.encode.length = prop.onDiskSize := by
  simp only [PropertyRecord.encode, PropertyHeader.encode, length_append,
    length_natToLE, length_natToBE, length_cons, length_nil,
    PropertyRecord.onDiskSize, PropertyHeader.size]
  omega

/-- A record can be prepared whenever `View` shows the heap. -/
def Prepares (f : Faults) (View : GraphStorageEngine × Pending → Heap → Prop) : Prop :=
  ∀ {s s' h k r slot}, View s h →
    prepareIntoPending f k r s = .ok (.ok slot, s') →
    ∃ p, SlotOn h p slot ∧ firstDataPageId ≤ p ∧ View s' (h.append p r)

/-- The records are prepared last one first, each with the slot of the one
before as its next. -/
theorem Prepares.chain {View : GraphStorageEngine × Pending → Heap → Prop}
    (hV : Prepares f View) :
    ∀ {props tail : List PropertyRecord} {next first : SlotRef}
      {s : GraphStorageEngine × Pending} {h : Heap}, View s h →
      ChainAt h next tail →
      prepareChain f props next s = .ok (.ok first, s') →
      ∃ h' new, View s' h' ∧ h.Grows h' ∧
        ChainAt h' first (props.reverse ++ tail) ∧ Extends h new h' ∧
        ∀ x ∈ new, ∃ prop ∈ props, x.2.length = prop.onDiskSize
  | [], tail, next, first, s, h, hv, hc, hok => by
    obtain ⟨rfl, rfl⟩ := pure_ok.mp hok
    exact ⟨h, [], hv, .refl h, hc, .refl h, nofun⟩
  | prop :: props, tail, next, first, s, h, hv, hc, hok => by
    obtain ⟨slot, s₁, hprep, hok₁⟩ := bind_ok.mp hok
    obtain ⟨p, hslot, hp, hv₁⟩ := hV hv hprep
    have hg := Heap.Grows.append (r :=
      { prop with nextProperty := next }.encode) hslot
    have hc₁ : ChainAt _ slot (prop :: tail) :=
      ⟨hslot.isNull hp, next, hslot.get_append_self, hc.grows hg⟩
    obtain ⟨h₂, new, hv₂, hg₂, hc₂, hext, hnew⟩ := hV.chain hv₁ hc₁ hok₁
    refine ⟨h₂, _, hv₂, hg.trans hg₂, ?_, hslot.extends_append.trans hext, fun x hx => ?_⟩
    · rw [reverse_cons, append_assoc]
      exact hc₂
    · rcases mem_append.mp hx with hx | hx
      · refine ⟨prop, mem_cons_self, ?_⟩
        rw [mem_singleton.mp hx, PropertyRecord.length_encode]
        rfl
      · obtain ⟨prop', hmem, hlen⟩ := hnew x hx
        exact ⟨prop', mem_cons_of_mem _ hmem, hlen⟩

/-! ## Images that are written -/

theorem stores_stampPage {pg : SlottedPage} {rs : List Bytes}
    (h : Stores pg rs) (lsn : Nat) : Stores (stampPage pg lsn) rs :=
  ⟨h.size, h.count, h.free, h.fits, h.slots, h.records⟩

/-- The records of the images `imgs`, and the images with their LSNs. -/
structure Logged (txid : Nat) (imgs : List (Nat × SlottedPage))
    (recs : List LogRecord) (out : List (Nat × SlottedPage)) : Prop where
  kind : ∀ r ∈ recs, r.recordType = .pageInsert ∧ r.txid = txid
  image : ∀ x ∈ out, ∃ r ∈ recs, ∃ img, (x.1, img) ∈ imgs ∧ x.2 = stampPage img r.lsn
  record : ∀ r ∈ recs, ∀ p img, r.page = some (p, img) →
    (p, img) ∈ imgs ∧ (p, stampPage img r.lsn) ∈ out
  keys : out.map Prod.fst = imgs.map Prod.fst

theorem Pending.mem_toList {m : Pending} {p : Nat} {img : SlottedPage} :
    (p, img) ∈ m.toList ↔ m[p]? = some img :=
  Std.ExtTreeMap.mem_toList_iff_getElem?_eq_some

/-- A page shows one list of records only. -/
theorem rel_stores_unique {pg : Option SlottedPage}
    {rs rs' : Option (List Bytes)} (h : Option.Rel Stores pg rs)
    (h' : Option.Rel Stores pg rs') : rs = rs' := by
  cases h with
  | none =>
    cases h'
    rfl
  | some hst =>
    cases h' with
    | some hst' => rw [hst.unique hst']

/-- A page reads as the image written last, or as before. -/
theorem writePages_cases {f : Faults} :
    ∀ {imgs : List (Nat × SlottedPage)} {e e' : GraphStorageEngine}
      {res : Except StorageError Unit}, writePages f imgs e = .ok (res, e') →
      ∃ st, e' = { e with store := st } ∧
        st.nextFreePageId = e.store.nextFreePageId ∧
        st.syncedPageId = e.store.syncedPageId ∧
        e.store.fileLen ≤ st.fileLen ∧
        ∀ p, (st.page p = e.store.page p ∧ (res = .ok () → p ∉ imgs.map Prod.fst)) ∨
          ∃ img, (p, img) ∈ imgs ∧ st.page p = some img ∧ p < st.fileLen
  | [], e, e', res, hok => by
    cases hok
    exact ⟨e.store, rfl, rfl, rfl, Nat.le_refl _, fun p => Or.inl ⟨rfl, fun _ => nofun⟩⟩
  | (q, img) :: imgs, e, e', res, hok => by
    rcases bind_cases hok with ⟨err, rfl, hwrite⟩ | ⟨u, e₁, hwrite, hok₁⟩
    · rcases writePage_cases hwrite with rfl | ⟨hres, -⟩
      · exact ⟨e'.store, rfl, rfl, rfl, Nat.le_refl _, fun p => Or.inl ⟨rfl, nofun⟩⟩
      · cases hres
    obtain ⟨-, st, hst, rfl⟩ := writePage_ok.mp hwrite
    have hw := PageStore.written hst
    obtain ⟨st', rfl, hnext, hsynced, hlen, hpages⟩ := writePages_cases hok₁
    have hlen' : st.fileLen ≤ st'.fileLen := hlen
    have hle : e.store.fileLen ≤ st.fileLen ∧ q < st.fileLen := by
      rw [hw.fileLen]
      omega
    refine ⟨st', rfl, hnext.trans hw.next, hsynced.trans hw.synced,
      Nat.le_trans hle.1 hlen', fun p => ?_⟩
    rcases hpages p with ⟨heq, hnot⟩ | ⟨img', hmem, hpage, hlt⟩
    · by_cases hp : p = q
      · subst hp
        refine .inr ⟨img, mem_cons_self, heq.trans ?_, Nat.lt_of_lt_of_le hle.2 hlen'⟩
        rw [hw.page, update_self]
      · refine .inl ⟨heq.trans ?_, fun hres => ?_⟩
        · rw [hw.page, update_of_ne hp]
        · rw [map_cons, mem_cons]
          exact fun h => h.elim hp (hnot hres)
    · exact .inr ⟨img', mem_cons_of_mem _ hmem, hpage, hlt⟩

/-- The images are written, all of them or some. -/
theorem Drafted.write {e₁ e₂ e₃ : GraphStorageEngine} {m : Pending} {h₁ : Heap}
    {txid : Nat} {recs : List LogRecord} {out : List (Nat × SlottedPage)}
    {res : Except StorageError Unit} (hd : Drafted e (e₁, m) h₁)
    (hs : InOrder e h) (hlogged : Logged txid m.toList recs out)
    (hu : Untouched e₁ e₂) (hok : writePages f out e₂ = .ok (res, e₃)) :
    ∃ h', InOrder e₃ h' ∧ h.Mixed h₁ h' ∧ e₃.tree = e₂.tree ∧ ∀ u, res = .ok u → h' = h₁ := by
  obtain ⟨st, rfl, hnext, -, hlen, hpages⟩ := writePages_cases hok
  have hold : ∀ p, e₂.store.page p = e.store.page p := fun p => by
    rw [hu.page, hd.untouched.page]
  have hlen' : e.store.fileLen ≤ st.fileLen := by
    rw [← hd.untouched.fileLen, ← hu.fileLen]
    exact hlen
  -- an image that was written shows the new records of its page
  have hnew : ∀ p img, (p, img) ∈ out → st.page p = some img →
      Option.Rel Stores (st.page p) (h₁ p) := by
    intro p img hmem hpage
    obtain ⟨r, -, img', hmem', rfl⟩ := hlogged.image _ hmem
    have hov := hd.shows p
    rw [overlay, Pending.mem_toList.mp hmem', Option.some_or] at hov
    obtain ⟨rs, hrs, hst⟩ := rel_some_left hov rfl
    rw [hpage, hrs]
    exact .some (stores_stampPage hst r.lsn)
  classical
  let written (p : Nat) : Prop := ∃ img, (p, img) ∈ out ∧
    st.page p = some img ∧ p < st.fileLen
  let h' : Heap := fun p => if written p then h₁ p else h p
  have hcases : ∀ p, (written p ∧ h' p = h₁ p) ∨
      (¬ written p ∧ h' p = h p ∧ st.page p = e.store.page p) := by
    intro p
    by_cases hw : written p
    · exact .inl ⟨hw, if_pos hw⟩
    · exact .inr ⟨hw, if_neg hw, ((hpages p).resolve_right hw).1.trans (hold p)⟩
  have hsome : ∀ p, (h' p).isSome → (h p).isSome ∨ (h₁ p).isSome := by
    intro p hp
    rcases hcases p with ⟨-, heq⟩ | ⟨-, heq, -⟩
    · exact .inr (heq ▸ hp)
    · exact .inl (heq ▸ hp)
  have hmark : e.store.nextFreePageId ≤ e₁.store.nextFreePageId ∧
      e₁.store.nextFreePageId ≤ st.nextFreePageId := by
    rw [hnext]
    exact ⟨hd.untouched.next, hu.next⟩
  have hmark₁ : firstDataPageId ≤ e₁.store.nextFreePageId := hd.mark
  refine ⟨h', ⟨⟨fun p => ?_, fun p hp => ?_⟩, fun p hp => ?_, fun p hp => ?_,
    Nat.le_trans hmark₁ hmark.2⟩, fun p => ?_, rfl, fun u hu' => ?_⟩
  · show Option.Rel Stores (st.page p) (h' p)
    rcases hcases p with ⟨⟨img, hmem, hpage, -⟩, heq⟩ | ⟨-, heq, hpage⟩
    · rw [heq]
      exact hnew p img hmem hpage
    · rw [heq, hpage]
      exact hs.shows.pages p
  · rcases hcases p with ⟨⟨img, -, -, hlt⟩, -⟩ | ⟨-, heq, -⟩
    · exact hlt
    · exact Nat.lt_of_lt_of_le (hs.shows.inFile p (heq ▸ hp)) hlen'
  · show p < st.nextFreePageId
    rcases hsome p hp with hp | hp
    · exact Nat.lt_of_lt_of_le (hs.below p hp) (Nat.le_trans hmark.1 hmark.2)
    · exact Nat.lt_of_lt_of_le (hd.below p hp) hmark.2
  · exact (hsome p hp).elim (hs.data p) (hd.data p)
  · rcases hcases p with ⟨-, heq⟩ | ⟨-, heq, -⟩
    · exact .inr heq
    · exact .inl heq
  · subst hu'
    funext p
    rcases hcases p with ⟨-, heq⟩ | ⟨hnot, heq, hpage⟩
    · exact heq
    · -- the page has no image, so old and new records are shown by one page
      rcases hpages p with ⟨-, hkey⟩ | himg
      · have hkey := hkey rfl
        rw [hlogged.keys, mem_map_fst_toList] at hkey
        have hov := hd.shows p
        rw [overlay, Option.not_isSome_iff_eq_none.mp hkey, Option.none_or,
          hd.untouched.page] at hov
        rw [heq]
        exact rel_stores_unique (hs.shows.pages p) hov
      · exact absurd himg hnot

end RGraph.Graph
