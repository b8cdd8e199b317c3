import RGraph.Proofs.EngineReopen

/-!
# Which nodes can be found

A node can be found if its record is in a page that can be read, now or after
a crash: in the page of a frame, in one of the file, or in an image of the log
whose transaction has committed. `Versions` says of all of them that they hold
records of created nodes only.
-/

namespace RGraph.Graph

open RGraph.Lib RGraph.Storage RGraph.Wal RGraph.Index Call List Function

/-! ## Known records -/

/-- A record of a node that is not deleted has an id in `S`. -/
def KnownRecord (S : UInt64 → Prop) (r : Bytes) : Prop :=
  ∀ id label, face r = .entity .node id label false → S id

def KnownPage (S : UInt64 → Prop) (pg : SlottedPage) : Prop :=
  ∃ rs, Stores pg rs ∧ ∀ r ∈ rs, KnownRecord S r

def PagesKnown (S : UInt64 → Prop) (e : GraphStorageEngine) : Prop :=
  ∀ p pg, e.store.page p = some pg → KnownPage S pg

/-- The node index has entries for ids in `S` only. -/
def KeysKnown (S : UInt64 → Prop) (tree : Trees) : Prop :=
  ∀ key s, (tree .node)[key]? = some s → ∃ id, key = idKey id ∧ S id

/-- No node is found but those with an id in `S`. -/
def OnlyFinds (S : UInt64 → Prop) (e : GraphStorageEngine) : Prop :=
  ∀ id, id ≠ 0 → ¬ S id → (∀ n e', getNode .none id e ≠ .ok (.ok (some n), e')) ∧
    ∀ labelId ns e', scanNodesByLabel .none labelId e = .ok (.ok ns, e') →
      ∀ n ∈ ns, n.nodeId ≠ id

section Known

variable {S S' : UInt64 → Prop} {e e' : GraphStorageEngine} {f : Faults}

theorem KnownPage.mono {pg : SlottedPage} (h : KnownPage S pg)
    (hS : ∀ id, S id → S' id) : KnownPage S' pg := by
  obtain ⟨rs, hst, hrs⟩ := h
  exact ⟨rs, hst, fun r hr id label hf => hS id (hrs r hr id label hf)⟩

theorem KnownPage.stamp {pg : SlottedPage} (h : KnownPage S pg) (lsn : Nat) :
    KnownPage S (stampPage pg lsn) := by
  obtain ⟨rs, hst, hrs⟩ := h
  exact ⟨rs, stores_stampPage hst lsn, hrs⟩

theorem liveNode_face {r : Bytes} {n : NodeRecord} (h : liveNode r = some n)
    (hid : n.nodeId ≠ 0) : face r = .entity .node n.nodeId n.labelId false := by
  rw [liveNode, Option.filter_eq_some_iff] at h
  obtain ⟨hdec, hlive⟩ := h
  rw [face, hdec]
  dsimp only
  rw [if_neg hid, show n.isDeleted = false by simpa using hlive]

theorem readLive_known (hp : PagesKnown S e) :
    ∀ {list : List (Bytes × SlotRef)} {ns : List NodeRecord}
      {e' : GraphStorageEngine},
      readLive f liveNode list e = .ok (.ok ns, e') →
      ∀ n ∈ ns, n.nodeId ≠ 0 → S n.nodeId
  | [], ns, e', h => by
    obtain ⟨rfl, -⟩ := pure_ok.mp h
    exact nofun
  | (_, slot) :: rest, ns, e', h => by
    obtain ⟨o, e₁, hread, h₁⟩ := bind_ok.mp h
    obtain ⟨pg, e₂, hpage, hslot⟩ := bind_ok.mp hread
    obtain ⟨-, hpg, rfl⟩ := readPage_ok.mp hpage
    obtain ⟨hr, rfl⟩ := lift_ok.mp hslot
    obtain ⟨ns', e₂, hrest, h₂⟩ := bind_ok.mp h₁
    obtain ⟨rfl, rfl⟩ := pure_ok.mp h₂
    intro n hn hid
    rcases mem_append.mp hn with hn | hn
    · obtain ⟨rs, hst, hrs⟩ := hp _ _ hpg
      rw [hst.read] at hr
      cases hr
      obtain ⟨r, hget, hlive⟩ := Option.bind_eq_some_iff.mp (Option.mem_toList.mp hn)
      exact hrs r (mem_of_getElem? hget) _ _ (liveNode_face hlive hid)
    · exact readLive_known hp hrest n hn hid

theorem onlyFinds (hk : KeysKnown S e.tree) (hp : PagesKnown S e) : OnlyFinds S e := by
  intro id hid hS
  refine ⟨fun n e' hget => ?_, fun labelId ns e' hscan n hn heq => ?_⟩
  · cases hidx : (e.tree .node)[idKey id]? with
    | none =>
      rw [getNode_absent hidx] at hget
      cases hget
    | some s =>
      obtain ⟨id', hkey, hS'⟩ := hk _ s hidx
      rw [idKey_inj hkey] at hS
      exact hS hS'
  · rw [scanNodesByLabel, get_bind] at hscan
    subst heq
    exact hS (readLive_known hp hscan n hn hid)

end Known

/-! ## Versions of pages -/

/-- Every version of a page that there is has only records of known nodes. -/
structure Versions (S : UInt64 → Prop) (e : GraphStorageEngine) : Prop where
  file : ∀ p pg, e.store.file p = some pg → KnownPage S pg
  log : ∀ r ∈ e.log, committed e.log r.txid = true →
    ∀ p img, r.page = some (p, img) → KnownPage S img
  ids : ∀ r ∈ e.log, r.page.isSome ∨ r.recordType = .commit → r.txid < e.nextTxid

section Crash

variable {S : UInt64 → Prop} {e e' : GraphStorageEngine}

theorem committed_iff {log : List LogRecord} {txid : Nat} : committed log txid = true ↔
      ∃ r ∈ log, r.txid = txid ∧ r.recordType = .commit := by
  simp [committed]

/-- Redo over a part of the log. -/
theorem Versions.redo (hv : Versions S e) (k : Nat) :
    ∀ p pg, (e.store.crash.redo (e.log.take k)).file p = some pg → KnownPage S pg := by
  have hfold : ∀ (recs : List LogRecord) (s : PageStore), (∀ r ∈ recs, r ∈ e.log.take k) →
      (∀ p pg, s.file p = some pg → KnownPage S pg) →
      ∀ p pg, (recs.foldl (PageStore.redoStep (e.log.take k)) s).file p =
        some pg → KnownPage S pg := by
    intro recs
    induction recs with
    | nil => exact fun s _ hs => hs
    | cons r recs ih =>
      intro s hmem hs
      refine ih _ (fun r' hr' => hmem r' (mem_cons_of_mem _ hr')) ?_
      intro p pg hpg
      rw [PageStore.redoStep] at hpg
      split at hpg
      · exact hs p pg hpg
      · next q image hw =>
          split at hpg
          · exact hs p pg hpg
          · dsimp only at hpg
            by_cases hq : p = q
            · subst hq
              rw [update_self] at hpg
              cases hpg
              have hr := mem_of_mem_take (hmem r mem_cons_self)
              obtain ⟨img₀, hpage, rfl⟩ := redoImage_eq_some hw
              refine (hv.log r hr ?_ p img₀ hpage).stamp _
              -- committed in the part of the log, so in the log
              have hcom : committed (e.log.take k) r.txid = true := by
                by_contra hno
                rw [redoImage, if_pos (Or.inr hno)] at hw
                cases hw
              obtain ⟨c, hc, hc'⟩ := committed_iff.mp hcom
              exact committed_iff.mpr ⟨c, mem_of_mem_take hc, hc'⟩
            · rw [update_of_ne hq] at hpg
              exact hs p pg hpg
  exact hfold _ _ (fun r hr => hr) hv.file

theorem enterFace_known {s : SlotRef} {r : Bytes} (hk : KeysKnown S e.tree)
    (hr : KnownRecord S r) : KeysKnown S (enterFace e s (face r)).tree := by
  cases hf : face r with
  | other => exact hk
  | entity kind id group d =>
    cases d with
    | true => exact hk
    | false =>
      intro key t hget
      have hent := entered_insert e kind id group s
      rw [enterFace, show EngineTree.node = EntityKind.node.idTree from rfl, hent.byId] at hget
      split at hget
      · next heq =>
          obtain ⟨rfl, rfl⟩ := heq
          exact ⟨id, rfl, hr id group hf⟩
      · exact hk key t hget

theorem rebuildSlots_known {pageId : Nat} {page : SlottedPage}
    {rs : List Bytes} (hst : Stores page rs) (hrs : ∀ r ∈ rs, KnownRecord S r) :
    ∀ {n i : Nat} {s s' : GraphStorageEngine × PageKinds},
      rebuildSlots pageId page n i s = .ok s' → KeysKnown S s.1.tree →
      KeysKnown S s'.1.tree ∧ s'.1.store = s.1.store
  | 0, i, s, s', h, hk => by
    cases h
    exact ⟨hk, rfl⟩
  | n + 1, i, s, s', h, hk => by
    rw [rebuildSlots, hst.read, Res.ok_bind] at h
    cases hr : rs[i]? with
    | none =>
      rw [hr] at h
      exact rebuildSlots_known hst hrs h hk
    | some r =>
      rw [hr] at h
      obtain ⟨hk', hstore⟩ := rebuildSlots_known hst hrs h (by
        rw [rebuildSlot_fst]
        exact enterFace_known hk (hrs r (mem_of_getElem? hr)))
      refine ⟨hk', hstore.trans ?_⟩
      rw [rebuildSlot_fst, store_enterFace]

theorem rebuildPages_known {f : Faults} : ∀ {list : List Nat}
    {e e' : GraphStorageEngine} {u : Unit},
    rebuildPages f list e = .ok (.ok u, e') → PagesKnown S e →
    KeysKnown S e.tree → KeysKnown S e'.tree ∧ e'.store = e.store
  | [], e, e', u, h, _, hk => by
    obtain ⟨-, rfl⟩ := pure_ok.mp h
    exact ⟨hk, rfl⟩
  | p :: rest, e, e', u, h, hp, hk => by
    obtain ⟨u₁, e₁, hpage, hrest⟩ := bind_ok.mp h
    obtain ⟨pg, e₂, hread, h₁⟩ := bind_ok.mp hpage
    obtain ⟨-, hpg, rfl⟩ := readPage_ok.mp hread
    rw [get_bind] at h₁
    obtain ⟨⟨e₃, kinds⟩, e₄, hslots, h₂⟩ := bind_ok.mp h₁
    obtain ⟨hrun, rfl⟩ := lift_ok.mp hslots
    obtain rfl := modify_ok.mp h₂
    obtain ⟨rs, hst, hrs⟩ := hp p pg hpg
    obtain ⟨hk₃, hstore₃⟩ := rebuildSlots_known hst hrs hrun hk
    obtain ⟨hstore₁, htree₁⟩ := trackPage_same e₃ .node p kinds.hasNodes
    obtain ⟨hstore₂, htree₂⟩ := trackPage_same
      (trackPage e₃ .node p kinds.hasNodes) .edge p kinds.hasEdges
    have hstore := (hstore₂.trans hstore₁).trans hstore₃
    obtain ⟨hk', hstore'⟩ := rebuildPages_known hrest
      (fun q pg' hq => hp q pg' (by rwa [hstore] at hq))
      (by rw [htree₂, htree₁]; exact hk₃)
    exact ⟨hk', hstore'.trans hstore⟩

/-- A crash that leaves a part of the log, and recovery. -/
theorem Versions.reopen (hv : Versions S e) {f : Faults} {k : Nat} {u : Unit}
    (h : reopen f { e with log := e.log.take k } = .ok (.ok u, e')) :
    OnlyFinds S e' := by
  have hp : PagesKnown S
      { GraphStorageEngine.init with
        store := (e.store.crash.redo (e.log.take k)).reconcileFromDisk
        log := e.log.take k
        lastLsn := e.lastLsn } := by
    intro p pg hpg
    refine hv.redo k p pg ?_
    have hframes := (foldl_redoStep (e.log.take k) (e.log.take k) e.store.crash).2.frames
    rw [PageStore.page, PageStore.reconcileFromDisk] at hpg
    dsimp only at hpg
    rw [PageStore.redo, hframes] at hpg
    exact hpg
  have hk : KeysKnown S GraphStorageEngine.init.tree := by
    intro key s hget
    rw [show (GraphStorageEngine.init.tree .node)[key]? = none from
      Std.ExtTreeMap.getElem?_empty] at hget
    cases hget
  obtain ⟨hk', hstore⟩ := rebuildPages_known h hp hk
  refine onlyFinds hk' fun p pg hpg => hp p pg ?_
  rw [hstore] at hpg
  exact hpg

end Crash

/-! ## What a call does to the file and to the log -/

/-- The file gets longer by pages without records, and no page is lost. -/
structure StoreKept (e e' : GraphStorageEngine) : Prop where
  file : ∀ p, e'.store.file p = e.store.file p ∨
    e'.store.file p = some (SlottedPage.init p .slottedData)
  page : ∀ p, (e.store.page p).isSome → (e'.store.page p).isSome
  len : e'.store.fileLen = e.store.fileLen ∨
    ∃ p, e'.store.fileLen = p + 1 ∧ (e'.store.page p).isSome
  next : e.store.nextFreePageId ≤ e'.store.nextFreePageId

theorem StoreKept.of_store {e e' : GraphStorageEngine}
    (h : e'.store = e.store) : StoreKept e e' := by
  refine ⟨fun p => Or.inl ?_, fun p hp => ?_, Or.inl ?_, ?_⟩
  · rw [h]
  · rw [h]
    exact hp
  · rw [h]
  · rw [h]

instance : IsPreorder _ StoreKept where
  refl _ := .of_store rfl
  trans e e₁ e₂ h h' := by
    refine ⟨fun p => ?_, fun p hp => h'.page p (h.page p hp), ?_, Nat.le_trans h.next h'.next⟩
    · rcases h'.file p with h₂ | h₂
      · rw [h₂]
        exact h.file p
      · exact .inr h₂
    · rcases h'.len with h₂ | h₂
      · rw [h₂]
        rcases h.len with h₁ | ⟨p, h₁, hp⟩
        · exact .inl h₁
        · exact .inr ⟨p, h₁, h'.page p hp⟩
      · exact .inr h₂

theorem StoreKept.write {e : GraphStorageEngine} {p : Nat} {pg : SlottedPage}
    {st : PageStore} (h : e.store.write p pg = some st) : StoreKept e { e with store := st } := by
  have hw := PageStore.written h
  refine ⟨fun q => ?_, fun q hq => ?_, ?_, Nat.le_of_eq hw.next.symm⟩
  · by_cases hqp : q = p
    · subst hqp
      rw [PageStore.write] at h
      split at h
      · cases h
        exact .inr (update_self ..)
      · split at h
        · cases h
        · cases h
          exact .inl rfl
    · exact .inl (hw.file q hqp)
  · show (st.page q).isSome
    rw [hw.page]
    by_cases hqp : q = p
    · subst hqp
      rw [update_self]
      rfl
    · rw [update_of_ne hqp]
      exact hq
  · show st.fileLen = _ ∨ _
    by_cases hlen : p < e.store.fileLen
    · left
      rw [hw.fileLen, Nat.max_eq_left hlen]
    · right
      refine ⟨p, ?_, ?_⟩
      · show st.fileLen = p + 1
        rw [hw.fileLen, Nat.max_eq_right (by omega)]
      · show (st.page p).isSome
        rw [hw.page, update_self]
        rfl

theorem ending_storeKept (txid : Nat) : Ending txid StoreKept where
  allocate e p st h := by
    obtain ⟨hnew, rfl⟩ := PageStore.allocatePage_some h
    exact ⟨fun _ => Or.inl rfl, fun _ hp => hp, Or.inl rfl, Nat.le_succ_of_le hnew.le⟩
  push _ _ _ := .of_store rfl
  write _ _ _ _ h := .write h
  tree _ _ _ := .of_store rfl
  append _ _ _ _ := .of_store rfl
  lock _ _ := .of_store rfl
  image _ _ _ := .of_store rfl
  commit _ _ := .of_store rfl
  endTx _ := .of_store rfl

/-- The log gets longer. A transaction has the id that was next. -/
structure LogGrown (e e' : GraphStorageEngine) : Prop where
  next : e.nextTxid ≤ e'.nextTxid
  log : ∃ recs, e'.log = e.log ++ recs ∧ ∀ r ∈ recs, r.page.isSome ∨ r.recordType = .commit →
      r.txid = e.nextTxid ∧ e.nextTxid < e'.nextTxid

/-- The log gets longer by records that meet `P`. -/
def Logs (P : LogRecord → Prop) (e e' : GraphStorageEngine) : Prop :=
  e'.nextTxid = e.nextTxid ∧ ∃ recs, e'.log = e.log ++ recs ∧ ∀ r ∈ recs, P r

section Logs

variable {P : LogRecord → Prop} {e e₁ e₂ : GraphStorageEngine}

theorem Logs.of_log (hnext : e₁.nextTxid = e.nextTxid) (h : e₁.log = e.log) : Logs P e e₁ :=
  ⟨hnext, [], by rw [h, append_nil], nofun⟩

instance : IsPreorder _ (Logs P) where
  refl _ := .of_log rfl rfl
  trans e e₁ e₂ := by
    rintro ⟨hnext, recs, hlog, hP⟩ ⟨hnext', recs', hlog', hP'⟩
    refine ⟨hnext'.trans hnext, recs ++ recs', ?_, fun r hr => ?_⟩
    · rw [hlog', hlog, append_assoc]
    · exact (mem_append.mp hr).elim (hP r) (hP' r)

theorem Logs.one {lsn : Nat} {r : LogRecord} (hr : P r) :
    Logs P e { e with log := e.log ++ [r], lastLsn := lsn } :=
  ⟨rfl, [r], rfl, fun _ hr' => mem_singleton.mp hr' ▸ hr⟩

theorem ending_logs (txid : Nat) : Ending txid (Logs (·.txid = txid)) where
  allocate _ _ _ _ := .of_log rfl rfl
  push _ _ _ := .of_log rfl rfl
  write _ _ _ _ _ := .of_log rfl rfl
  tree _ _ _ := .of_log rfl rfl
  append _ _ _ _ := .one rfl
  lock _ _ := .of_log rfl rfl
  image _ _ _ := .one rfl
  commit _ _ := .one rfl
  endTx _ := .of_log rfl rfl

theorem working_logs (txid : Nat) :
    Working txid (Logs fun r => r.page = none ∧ r.recordType ≠ .commit) where
  allocate _ _ _ _ := .of_log rfl rfl
  push _ _ _ := .of_log rfl rfl
  write _ _ _ _ _ := .of_log rfl rfl
  tree _ _ _ := .of_log rfl rfl
  append _ _ _ hty := .one ⟨rfl, hty⟩

theorem CallFrame.storeKept (h : CallFrame e e₁) : StoreKept e e₁ := by
  rcases h with h | h
  · exact h _ (ending_storeKept _).toWorking
  · exact IsTrans.trans _ (begun e) _ (.of_store rfl) (h _ (ending_storeKept _))

theorem CallFrame.logGrown (h : CallFrame e e₁) : LogGrown e e₁ := by
  rcases h with h | h
  · obtain ⟨hnext, recs, hlog, hnone⟩ := h _ (working_logs _)
    refine ⟨hnext.ge, recs, hlog, fun r hr hor => ?_⟩
    obtain ⟨hpage, hty⟩ := hnone r hr
    rw [hpage] at hor
    exact absurd hor (by simp [hty])
  · obtain ⟨hnext, recs, hlog, htx⟩ := h _ (ending_logs _)
    have hlt : e.nextTxid < e₁.nextTxid := by
      rw [hnext]
      exact Nat.lt_succ_self _
    exact ⟨hlt.le, recs, hlog, fun r hr _ => ⟨htx r hr, hlt⟩⟩

end Logs

/-! ## Steps -/

/-- The ids of the nodes in the ledger. -/
def Ledger.Has (l : Ledger) (id : UInt64) : Prop := (l .node id).isSome

theorem Ledger.Has.apply {l : Ledger} {id : UInt64} (h : l.Has id)
    (act : Action) : (l.apply act).Has id := by
  rw [Ledger.Has] at h ⊢
  cases act with
  | grow => exact h
  | enter kind id' group d =>
    rw [Ledger.apply_enter]
    split
    · rfl
    · exact h
  | remove kind id' =>
    rw [Ledger.apply_remove]
    split
    · next heq =>
        obtain ⟨rfl, rfl⟩ := heq
        rw [Option.isSome_map]
        exact h
    · exact h

section Steps

variable {S S' : UInt64 → Prop} {e e' : GraphStorageEngine} {h : Heap}
  {l : Ledger}

/-- The records of an engine in order are those the ledger has. -/
theorem knownRecord_of_complete (hs : Stored e h) (hl : Linked h e.tree)
    (hc : Complete h e.tree) (hb : booked h e.tree = l) {p : Nat}
    {rs : List Bytes} (hrs : h p = some rs) : ∀ r ∈ rs, KnownRecord l.Has r := by
  intro r hr id label hf
  obtain ⟨i, hi⟩ := mem_iff_getElem?.mp hr
  obtain ⟨hp, hlen, -⟩ := hs.pages.small p rs hrs
  have hlt := (List.getElem?_eq_some_iff.mp hi).1
  have hface : h.faceAt (SlotRef.new p i) = some (.entity .node id label false) := by
    rw [Heap.faceAt, Heap.get, SlotRef.pageId_new hp (by omega),
      SlotRef.slotIndex_new hp (by omega), hrs, Option.bind_some, hi,
      Option.map_some, hf]
  have hbook := (booked_eq_some hl).mpr ⟨_, hc.byId _ _ _ _ _ hface, hface⟩
  rw [Ledger.Has, ← hb, hbook]
  rfl

theorem pagesKnown_of_complete (hs : Stored e h) (hl : Linked h e.tree)
    (hc : Complete h e.tree) (hb : booked h e.tree = l) : PagesKnown l.Has e := by
  intro p pg hpg
  obtain ⟨rs, hrs, hst⟩ := hs.shows.of_page hpg
  exact ⟨rs, hst, knownRecord_of_complete hs hl hc hb hrs⟩

theorem keysKnown_of_booked (hl : Linked h e.tree)
    (hb : booked h e.tree = l) : KeysKnown l.Has e.tree := by
  intro key s hget
  obtain ⟨id, label, d, rfl, hface⟩ := hl.byId .node key s hget
  have hbook : booked h e.tree .node id = some (label, d) :=
    (booked_eq_some hl).mpr ⟨s, hget, hface⟩
  refine ⟨id, rfl, ?_⟩
  rw [Ledger.Has, ← hb, hbook]
  rfl

theorem Versions.step (hv : Versions S e) (hS : ∀ id, S id → S' id)
    (hk : StoreKept e e') (hg : LogGrown e e')
    (himg : ∀ r ∈ e'.log, r ∉ e.log → committed e'.log r.txid = true →
      ∀ p img, r.page = some (p, img) → KnownPage S' img) : Versions S' e' := by
  obtain ⟨recs, hlog, htx⟩ := hg.log
  refine ⟨fun p pg hpg => ?_, fun r hr hcom p img hpage => ?_, fun r hr hor => ?_⟩
  · rcases hk.file p with hf | hf
    · rw [hf] at hpg
      exact (hv.file p pg hpg).mono hS
    · rw [hf] at hpg
      cases hpg
      exact ⟨[], Stores.init .., nofun⟩
  · by_cases hold : r ∈ e.log
    · refine (hv.log r hold ?_ p img hpage).mono hS
      -- a commit since then is of a later transaction
      obtain ⟨c, hc, hctx, hty⟩ := committed_iff.mp hcom
      rw [hlog] at hc
      rcases mem_append.mp hc with hc | hc
      · exact committed_iff.mpr ⟨c, hc, hctx, hty⟩
      · have hlt := hv.ids r hold (Or.inl (by rw [hpage]; rfl))
        have heq := (htx c hc (Or.inr hty)).1
        omega
    · exact himg r hr hold hcom p img hpage
  · rw [hlog] at hr
    rcases mem_append.mp hr with hr | hr
    · exact Nat.lt_of_lt_of_le (hv.ids r hr hor) hg.next
    · obtain ⟨heq, hlt⟩ := htx r hr hor
      rw [heq]
      exact hlt

end Steps

end RGraph.Graph
