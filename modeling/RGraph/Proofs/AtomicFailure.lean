import RGraph.Proofs.EngineFailure
import RGraph.Proofs.EngineTotal
import RGraph.Proofs.EngineVersions

/-!
# A `create_node_atomic` that fails

`create_node_atomic` builds its images aside, so nothing is lost when it gives
up before its commit record is in the log. Two things are not undone, though.
A page that was taken for a new image stays taken, and on the list of pages
that later calls read first, although it was never written. And a commit
record that is in the buffer of the log when the flush fails is flushed with
the next one.
-/

namespace RGraph.Graph

open RGraph.Lib RGraph.Storage RGraph.Wal RGraph.Index Call

/-! ## Calls that give up early -/

/-- The id is new, so the call begins a transaction. -/
def BeginsTx (node : NodeRecord) (e : GraphStorageEngine) : Prop :=
  node.nodeId ≠ 0 ∧ (e.tree .node)[nodeIdKey node.nodeId.toNat]? = none

/-- The commit record gets into the log. -/
def LogsCommit (f : Faults) (node : NodeRecord)
    (properties : List PropertyRecord) (e : GraphStorageEngine) : Prop :=
  BeginsTx node e ∧
    Then (atomicBody f e.nextTxid (nodeResourceId node.nodeId) (nodeBuild f node properties))
      (fun _ e₁ => f.append e₁.lastLsn = false) (begun e)

/-- A page is taken for the node or for one of its properties. -/
def TakesPage (f : Faults) (node : NodeRecord)
    (properties : List PropertyRecord) (e : GraphStorageEngine) : Prop :=
  BeginsTx node e ∧ f.lock = none ∧ ∃ r e₁, withPending (nodeBuild f node properties)
        (locked e (nodeResourceId node.nodeId)) = .ok (r, e₁) ∧
      e₁.store.nextFreePageId ≠ e.store.nextFreePageId

/-- Pages were taken, or nothing has changed. -/
structure Taken (e e' : GraphStorageEngine) : Prop where
  store : e.store.nextFreePageId < e'.store.nextFreePageId ∨
    e'.store = e.store ∧ e'.pageList = e.pageList
  tree : e'.tree = e.tree
  log : e'.log = e.log
  nextTxid : e'.nextTxid = e.nextTxid

section Early

variable {f : Faults} {e e' : GraphStorageEngine} {node : NodeRecord}
  {properties : List PropertyRecord}

instance : IsPreorder _ Taken where
  refl _ := ⟨Or.inr ⟨rfl, rfl⟩, rfl, rfl, rfl⟩
  trans e e₁ e₂ h h' := by
    refine ⟨?_, h'.tree.trans h.tree, h'.log.trans h.log, h'.nextTxid.trans h.nextTxid⟩
    rcases h.store with h₁ | ⟨h₁, h₂⟩ <;> rcases h'.store with h₁' | ⟨h₁', h₂'⟩
    · exact .inl (Nat.lt_trans h₁ h₁')
    · rw [h₁']
      exact .inl h₁
    · rw [← h₁]
      exact .inl h₁'
    · exact .inr ⟨h₁'.trans h₁, h₂'.trans h₂⟩

/-- A page has been taken, and is perhaps on its list. -/
structure NewlyTaken (e e' : GraphStorageEngine) : Prop where
  store : e.store.nextFreePageId < e'.store.nextFreePageId
  tree : e'.tree = e.tree
  log : e'.log = e.log
  nextTxid : e'.nextTxid = e.nextTxid

theorem allocatePage_taken : Frame NewlyTaken allocatePage := by
  intro e r e' h
  rw [allocatePage, get_bind] at h
  cases hs : e.store.allocatePage with
  | none =>
    rw [hs] at h
    cases h
  | some y =>
    rw [hs] at h
    cases h
    obtain ⟨hnew, hst⟩ := PageStore.allocatePage_some hs
    refine ⟨?_, rfl, rfl, rfl⟩
    show _ < y.2.nextFreePageId
    rw [hst]
    exact Nat.lt_succ_of_le hnew.le

/-- Nothing but the lists of pages has changed. -/
structure Listed (e e' : GraphStorageEngine) : Prop where
  store : e'.store = e.store
  tree : e'.tree = e.tree
  log : e'.log = e.log
  nextTxid : e'.nextTxid = e.nextTxid

instance : IsPreorder _ Listed where
  refl _ := ⟨rfl, rfl, rfl, rfl⟩
  trans _ _ _ h h' := ⟨h'.store.trans h.store, h'.tree.trans h.tree,
    h'.log.trans h.log, h'.nextTxid.trans h.nextTxid⟩

theorem NewlyTaken.listed (e e₁ e₂ : GraphStorageEngine) (h : NewlyTaken e e₁)
    (h' : Listed e₁ e₂) : NewlyTaken e e₂ :=
  ⟨h'.store ▸ h.store, h'.tree.trans h.tree, h'.log.trans h.log, h'.nextTxid.trans h.nextTxid⟩

theorem freshPage_taken (r : Bytes) : Frame NewlyTaken (freshPage r) := by
  refine .bind_of allocatePage_taken (fun p => ?_) NewlyTaken.listed
  refine .bind (.lift _) fun x => ?_
  split
  · exact .pure _
  · exact .fail _

/-- What follows the reading of the lists: the image goes to the pending
pages. -/
theorem putRoom_frame {R : GraphStorageEngine → GraphStorageEngine → Prop}
    [IsPreorder _ R] (p i : Nat) (pg : SlottedPage) :
    Frame (OnStore R) (do
      let slot ← slotRef p i
      putPending p pg
      pure slot) :=
  .bind (slotRef_frame _ _) fun _ => .bind (putPending_frame _ _) fun _ => .pure _

theorem prepareIntoPending_taken (k : RecordKind) (r : Bytes) :
    Frame (OnStore Taken) (prepareIntoPending f k r) := by
  refine .bind .get fun s => ?_
  refine .bind (findRoom_frame readPagePending_frame r _) fun x => ?_
  split
  · exact putRoom_frame _ _ _
  · refine Frame.mono (R := OnStore NewlyTaken) ?_ fun s s' h =>
      ⟨Or.inl h.store, h.tree, h.log, h.nextTxid⟩
    refine .bind_of (S := OnStore Listed) (onEngine_frame (freshPage_taken r))
      (fun x => ?_) fun s s₁ s₂ => NewlyTaken.listed _ _ _
    refine .bind (onEngine_frame (.modify fun e => ⟨rfl, rfl, rfl, rfl⟩))
      fun _ => putRoom_frame _ _ _

theorem nodeBuild_taken (node : NodeRecord) (properties : List PropertyRecord) :
    Frame (OnStore Taken) (nodeBuild f node properties) := by
  have hchain : ∀ (props : List PropertyRecord) (next : SlotRef),
      Frame (OnStore Taken) (prepareChain f props next) := by
    intro props
    induction props with
    | nil => exact fun next => .pure _
    | cons prop props ih => exact fun next => .bind (prepareIntoPending_taken _ _) ih
  exact .bind (hchain _ _) fun _ => prepareIntoPending_taken _ _

/-- Nothing but records were added to the log, and no commit record. -/
structure Idle (e e' : GraphStorageEngine) : Prop where
  data : SameData e e'
  log : Logs (·.recordType ≠ .commit) e e'

instance : IsPreorder _ Idle where
  refl e := ⟨refl e, refl e⟩
  trans _ _ _ h h' := ⟨trans_of SameData h.data h'.data, trans_of (Logs _) h.log h'.log⟩

theorem append_idle {txid : Nat} {ty : RecordType}
    {page : Option (Nat × SlottedPage)} (hty : ty ≠ .commit) : Frame Idle (append f txid ty page) :=
  append_frame fun _ _ => ⟨⟨rfl, rfl, rfl⟩, .one hty⟩

/-- The part of the call that is rolled back, if no page is taken for it. -/
theorem atomicBody_idle (hbegins : BeginsTx node e) (htake : ¬ TakesPage f node properties e)
    {r : Except StorageError (SlotRef × List (Nat × SlottedPage))}
    (h : atomicBody f e.nextTxid (nodeResourceId node.nodeId)
      (nodeBuild f node properties) (begun e) = .ok (r, e')) :
    Idle (begun e) e' := by
  -- if the lock is refused nothing else is done
  cases hlock : f.lock with
  | some x =>
    rw [atomicBody, acquireLock, hlock] at h
    cases h
    exact refl_of Idle _
  | none =>
    have hrest : (do
        let x ← withPending (nodeBuild f node properties)
        let images ← logPages f e.nextTxid x.2.toList
        pure (x.1, images) : EngineM _)
          (locked e (nodeResourceId node.nodeId)) = .ok (r, e') := by
      rw [atomicBody, acquireLock, hlock] at h
      exact h
    refine IsTrans.trans _ (locked e (nodeResourceId node.nodeId)) _
      ⟨⟨rfl, rfl, rfl⟩, .of_log rfl rfl⟩ ?_
    have hbuild : ∀ r e₁, withPending (nodeBuild f node properties)
        (locked e (nodeResourceId node.nodeId)) = .ok (r, e₁) →
        Idle (locked e (nodeResourceId node.nodeId)) e₁ := by
      intro r e₁ hb
      have ht := withPending_frame (nodeBuild_taken node properties) _ _ _ hb
      have hnext : e₁.store.nextFreePageId = e.store.nextFreePageId := by
        by_contra hne
        exact htake ⟨hbegins, hlock, r, e₁, hb, hne⟩
      rcases ht.store with hlt | ⟨hstore, hlists⟩
      · exact absurd hnext (Nat.ne_of_gt hlt)
      · exact ⟨⟨hstore, ht.tree, hlists⟩, .of_log ht.nextTxid ht.log⟩
    have hlogs : ∀ images : List (Nat × SlottedPage),
        Frame Idle (logPages f e.nextTxid images) :=
      logPages_frame fun _ _ _ => ⟨⟨rfl, rfl, rfl⟩, .one (by simp)⟩
    have hend : ∀ x : SlotRef × Pending, Frame Idle (do
        let images ← logPages f e.nextTxid x.2.toList
        pure (x.1, images) : EngineM _) := fun x =>
      .bind (hlogs _) fun _ => .pure _
    rcases bind_cases hrest with ⟨err, rfl, hb⟩ | ⟨x, e₁, hb, hl⟩
    · exact hbuild _ _ hb
    · exact trans_of Idle (hbuild _ _ hb) (hend x _ _ _ hl)

theorem commit_refused {txid : Nat} (h : f.append e.lastLsn = true) :
    commit f txid e = .ok (.error .ioError, e) := by
  have happ : append f txid .commit none e = .ok (.error .ioError, e) := by
    rw [append, get_bind, if_pos h]
    rfl
  rw [commit, bind_err]
  exact .inl happ

/-- If the commit record is not appended, nothing comes after it. -/
theorem writeAtomic_idle {resource : UInt64} {build : PendingM SlotRef}
    {r : Except StorageError SlotRef}
    (hbody : ∀ r e₁, atomicBody f e.nextTxid resource build (begun e) =
      .ok (r, e₁) → Idle (begun e) e₁)
    (hrefused : ∀ x e₁, atomicBody f e.nextTxid resource build (begun e) =
      .ok (.ok x, e₁) → f.append e₁.lastLsn = true)
    (h : writeAtomic f resource build e = .ok (r, e')) :
    Idle (begun e) e' ∧ ∃ err, r = .error err := by
  rw [writeAtomic, begin_bind] at h
  cases r with
  | ok slot =>
    obtain ⟨x, e₁, hroll, h₁⟩ := bind_ok.mp h
    obtain ⟨u, e₂, hcom, -⟩ := bind_ok.mp h₁
    rw [commit_refused (hrefused x e₁ (orRollback_ok.mp hroll))] at hcom
    cases hcom
  | error err =>
    refine ⟨?_, err, rfl⟩
    rcases bind_err.mp h with hroll | ⟨x, e₁, hroll, h₁⟩
    · obtain ⟨e₁, r, e₂, hx, happ, rfl⟩ := orRollback_inv hroll
      have hidle := append_idle (by decide) _ _ _ happ
      refine IsTrans.trans _ _ _ (hbody _ _ hx) ⟨?_, hidle.log⟩
      exact ⟨hidle.data.store, hidle.data.tree, hidle.data.pageList⟩
    · have hx := orRollback_ok.mp hroll
      have hcommit := @commit_refused f e₁ e.nextTxid (hrefused x e₁ hx)
      rcases bind_err.mp h₁ with hcom | ⟨u, e₂, hcom, -⟩
      · rw [hcommit] at hcom
        cases hcom
        exact hbody _ _ hx
      · rw [hcommit] at hcom
        cases hcom

theorem createNodeAtomic_idle {err : StorageError} (hlog : ¬ LogsCommit f node properties e)
    (htake : ¬ TakesPage f node properties e)
    (h : createNodeAtomic f node properties e = .ok (.error err, e')) :
    e' = e ∨ Idle (begun e) e' := by
  rcases create_cases h with ⟨-, -, rfl⟩ | ⟨hid, habsent, h⟩
  · exact .inl rfl
  have hbegins : BeginsTx node e := ⟨hid, habsent⟩
  have hwrite : ∀ {r e₁}, writeAtomic f (nodeResourceId node.nodeId)
      (nodeBuild f node properties) e = .ok (r, e₁) →
      Idle (begun e) e₁ ∧ ∃ err, r = .error err := by
    refine writeAtomic_idle (fun r e₁ => atomicBody_idle hbegins htake) fun x e₁ hx => ?_
    by_contra hno
    exact hlog ⟨hbegins, x, e₁, hx, Bool.eq_false_iff.mpr hno⟩
  rcases bind_err.mp h with hw | ⟨slot, e₁, hw, -⟩
  · exact .inr (hwrite hw).1
  · obtain ⟨-, err, herr⟩ := hwrite hw
    cases herr

end Early

/-! ## Sessions with creations that fail -/

/-- The engine, and the ledger of the calls that have returned `Ok`. -/
def bookStep (s : GraphStorageEngine × Ledger) (v : SessionEvent) : GraphStorageEngine × Ledger :=
  (sessionStep s.1 v, if v.returns s.1 then s.2.apply v.action else s.2)

/-- A creation that fails before its commit record is in the log, and without
having taken a page. -/
def GivesUpEarly (v : SessionEvent) (e : GraphStorageEngine) : Prop :=
  ∃ f node properties, v = .call f (.createNodeAtomic node properties) ∧
    ¬ LogsCommit f node properties e ∧ ¬ TakesPage f node properties e

/-- The limits of slot references leave room for `n` more records. -/
structure HasRoom (n : Nat) (e : GraphStorageEngine) : Prop where
  small : n ≤ SlotRef.maxSlotIndex + 1
  slots : ∀ p pg, e.store.page p = some pg → pg.header.slotCount + n ≤ SlotRef.maxSlotIndex + 1
  pages : e.store.nextFreePageId + 2 * n ≤ SlotRef.maxPageId + 1

/-- Nodes that the ledger has not are found neither now nor after a crash that
leaves any part of the log, and they can be created. -/
structure Sound (s : GraphStorageEngine × Ledger) : Prop where
  now : OnlyFinds s.2.Has s.1
  crash : ∀ f k e', reopen f { s.1 with log := s.1.log.take k } =
    .ok (.ok (), e') → OnlyFinds s.2.Has e'
  create : ∀ node properties, node.nodeId ≠ 0 → ¬ s.2.Has node.nodeId →
    (∀ prop ∈ properties, prop.onDiskSize ≤ maxInlineRecordLen) →
    HasRoom (properties.length + 1) s.1 →
    ∃ slot e', createNodeAtomic .none node properties s.1 = .ok (.ok slot, e')

/-- The invariant of such a session. -/
structure Orderly (s : GraphStorageEngine × Ledger) (h : Heap) : Prop where
  stored : Stored s.1 h
  linked : Linked h s.1.tree
  complete : Complete h s.1.tree
  booked : booked h s.1.tree = s.2
  versions : Versions s.2.Has s.1
  fileLen : s.1.store.fileLen ≤ s.1.store.nextFreePageId

namespace Orderly

variable {s : GraphStorageEngine × Ledger} {h : Heap} {e : GraphStorageEngine}
  {l : Ledger} {v : SessionEvent}

theorem init : Orderly (.init, fun _ _ => none) fun _ => none := by
  refine ⟨stored_init, linked_init _, complete_init _, sessionOk_init.booked,
    ⟨nofun, nofun, nofun⟩, Nat.le_refl _⟩

theorem sound (hs : Orderly s h) : Sound s := by
  refine ⟨?_, fun f k e' hopen => hs.versions.reopen hopen,
    fun node properties hid hnew hsize hroom => ?_⟩
  · exact onlyFinds (keysKnown_of_booked hs.linked hs.booked)
      (pagesKnown_of_complete hs.stored hs.linked hs.complete hs.booked)
  · refine createNodeAtomic_total hs.stored hs.fileLen hid ?_ ⟨fun p => ?_, ?_⟩ hsize
    · have hnone : s.2 .node node.nodeId = none := by
        simpa [Ledger.Has] using hnew
      rw [← hs.booked] at hnone
      exact (booked_eq_none hs.linked).mp hnone
    · cases hp : h p with
      | none =>
        rw [Heap.records, hp, Option.getD_none, List.length_nil]
        have := hroom.small
        omega
      | some rs =>
        obtain ⟨pg, hpg, hst⟩ := hs.stored.shows.of_heap hp
        rw [Heap.records, hp, Option.getD_some, ← hst.count]
        exact hroom.slots p pg hpg
    · exact hroom.pages

/-- A call that returned. -/
theorem call (hs : Orderly (e, l) h) {f : Faults} {c : GraphCall} {u : Unit}
    {e' : GraphStorageEngine} (hp : PropsDistinct c.properties)
    (hok : c.run f e = .ok (.ok u, e')) :
    ∃ h', Orderly (e', l.apply (SessionEvent.call f c).action) h' := by
  obtain ⟨h', hout⟩ := GraphCall.run_ok hs.stored hs.linked hok
  have hframe := run_frame hok
  have hlinked := hout.effect.linked hs.linked
  have hcomplete := hout.effect.complete hp hs.complete
  have hbooked : Graph.booked h' e'.tree = l.apply (SessionEvent.call f c).action := by
    rw [hout.effect.booked hs.linked]
    exact congrArg (Ledger.apply · _) hs.booked
  refine ⟨h', hout.stored, hlinked, hcomplete, hbooked, ?_, ?_⟩
  · refine hs.versions.step (fun id hid => Ledger.Has.apply hid _)
      hframe.storeKept hframe.logGrown fun r hr hnew _ p img hpage => ?_
    obtain ⟨rs, hrs, hst⟩ := (hout.images r hr).resolve_left hnew p img hpage
    exact ⟨rs, hst, knownRecord_of_complete hout.stored hlinked hcomplete hbooked hrs⟩
  · have hkept := hframe.storeKept
    rcases hkept.len with hlen | ⟨p, hlen, hp⟩
    · exact hlen ▸ Nat.le_trans hs.fileLen hkept.next
    · obtain ⟨pg, hpg⟩ := Option.isSome_iff_exists.mp hp
      obtain ⟨rs, hrs, -⟩ := hout.stored.shows.of_page hpg
      exact hlen ▸ hout.stored.pages.below p (by rw [hrs]; rfl)

/-- Pages are brought to the file. -/
theorem flushed (hs : Orderly (e, l) h) {e' : GraphStorageEngine}
    (hsame : SamePages e e') (hnext : e'.nextTxid = e.nextTxid)
    (hfile : ∀ p, e'.store.file p = e.store.file p ∨
      e'.store.file p = e.store.page p) : Orderly (e', l) h := by
  have hknown := pagesKnown_of_complete hs.stored hs.linked hs.complete hs.booked
  refine ⟨hsame.stored hs.stored, ?_, ?_, ?_, ⟨fun p pg hpg => ?_, ?_, ?_⟩, ?_⟩
  · rw [hsame.tree]
    exact hs.linked
  · rw [hsame.tree]
    exact hs.complete
  · rw [hsame.tree]
    exact hs.booked
  · rcases hfile p with heq | heq
    · exact hs.versions.file p pg (heq ▸ hpg)
    · exact hknown p pg (heq ▸ hpg)
  · rw [hsame.log]
    exact hs.versions.log
  · rw [hsame.log, hnext]
    exact hs.versions.ids
  · rw [hsame.fileLen, hsame.next]
    exact hs.fileLen

theorem returned (hs : Orderly (e, l) h) (hret : v.returns e) (hp : PropsDistinct v.properties) :
    ∃ h', Orderly (sessionStep e v, l.apply v.action) h' := by
  have hrun := sessionStep_eq hret
  cases v with
  | call f c => exact hs.call hp hrun
  | flush pageId =>
    refine ⟨h, hs.flushed (samePages_flush e pageId) rfl fun p => ?_⟩
    by_cases hq : p = pageId
    · subst hq
      exact .inr (Function.update_self ..)
    · exact .inl (Function.update_of_ne hq ..)
  | sync => exact ⟨h, hs.flushed (samePages_sync e) rfl fun p => Or.inr rfl⟩

/-- Records of a transaction that does not commit. -/
theorem idle (hs : Orderly (e, l) h) {e' : GraphStorageEngine}
    (hidle : Idle (begun e) e') (hgrown : LogGrown e e') : Orderly (e', l) h := by
  have hstore : e'.store = e.store := hidle.data.store
  have htree : e'.tree = e.tree := hidle.data.tree
  refine ⟨hs.stored.congr hstore hidle.data.pageList, ?_, ?_, ?_, ?_, ?_⟩
  · rw [htree]
    exact hs.linked
  · rw [htree]
    exact hs.complete
  · rw [htree]
    exact hs.booked
  · refine hs.versions.step (fun _ hid => hid) (.of_store hstore) hgrown
      fun r hr hnew hcom p img hpage => ?_
    -- the transaction of the image has no commit record, old or new
    obtain ⟨-, recs, hlog, hty⟩ := hidle.log
    obtain ⟨recs', hlog', htx⟩ := hgrown.log
    obtain rfl : recs' = recs := List.append_cancel_left (hlog'.symm.trans hlog)
    obtain ⟨c, hc, hctx, hcty⟩ := committed_iff.mp hcom
    rw [hlog', List.mem_append] at hr hc
    have hrtx := (htx r (hr.resolve_left hnew) (Or.inl (by rw [hpage]; rfl))).1
    rcases hc with hc | hc
    · have hlt : c.txid < e.nextTxid := hs.versions.ids c hc (Or.inr hcty)
      omega
    · exact absurd hcty (hty c hc)
  · rw [hstore]
    exact hs.fileLen

theorem gaveUp (hs : Orderly (e, l) h) (hv : GivesUpEarly v e)
    (hret : ¬ v.returns e) : Orderly (sessionStep e v, l) h := by
  obtain ⟨f, node, properties, rfl, hlog, htake⟩ := hv
  rw [sessionStep]
  split
  · next r e' hrun =>
      have hrun : (GraphCall.createNodeAtomic node properties).run f e = .ok (r, e') := hrun
      have hgrown := (run_frame hrun).logGrown
      cases r with
      | ok u =>
        rw [SessionEvent.returns, SessionEvent.run, hrun] at hret
        exact absurd rfl hret
      | error err =>
        rcases bind_err.mp hrun with hcall | ⟨slot, e₁, -, hpure⟩
        · rcases createNodeAtomic_idle hlog htake hcall with rfl | hidle
          · exact hs
          · exact hs.idle hidle hgrown
        · exact absurd hpure pure_not_err
  · exact hs

end Orderly

/-- Every call returns `Ok`, but for creations that give up early. -/
def Benign (s : GraphStorageEngine × Ledger) (v : SessionEvent) : Prop :=
  PropsDistinct v.properties ∧ (v.returns s.1 ∨ GivesUpEarly v s.1)

theorem orderly_step (s : GraphStorageEngine × Ledger) (v : SessionEvent)
    (hs : ∃ h, Orderly s h) (hv : Benign s v) : ∃ h, Orderly (bookStep s v) h := by
  obtain ⟨h, hs⟩ := hs
  obtain ⟨hp, hv⟩ := hv
  rw [bookStep]
  by_cases hret : v.returns s.1
  · rw [if_pos hret]
    exact hs.returned hret hp
  · rw [if_neg hret]
    exact ⟨h, hs.gaveUp (hv.resolve_left hret) hret⟩

/-- In a session whose calls return `Ok`, but for creations of nodes that fail
early, no node is found that was not created, and every other can be created,
in every state it passes through. -/
theorem failed_creation_leaves_no_node {events : List SessionEvent}
    (hg : Guarded bookStep Benign (.init, fun _ _ => none) events) (n : Nat) :
    Sound (run bookStep (.init, fun _ _ => none) (events.take n)) := by
  obtain ⟨h, hs⟩ := run_inv_take orderly_step ⟨_, Orderly.init⟩ hg n
  exact hs.sound

/-- A node is created, and then another one while nothing can be appended to
the log. -/
theorem failed_creation_leaves_no_node_append :
    let f : Faults := { Faults.none with append := fun _ => true }
    let events : List SessionEvent :=
      [.call .none (.createNodeAtomic (NodeRecord.new 1 7) []),
        .call f (.createNodeAtomic (NodeRecord.new 2 7) [])]
    Sound (run bookStep (.init, fun _ _ => none) (events.take 2)) := by
  intro f events
  let node := NodeRecord.new 2 7
  let e := sessionStep .init events[0]
  have hruns : events[0].returns .init ∧
      (after (withPending (nodeBuild f node []))
        (locked e (nodeResourceId node.nodeId))).store.nextFreePageId =
          e.store.nextFreePageId := by
    decide +kernel
  have hg : Guarded bookStep Benign (.init, fun _ _ => none) events := by
    refine ⟨⟨by decide, Or.inl hruns.1⟩,
      ⟨by decide, Or.inr ⟨f, node, [], rfl, ?_, ?_⟩⟩, trivial⟩
    · rintro ⟨-, x, e₁, -, happ⟩
      cases happ
    · rintro ⟨-, -, r, e₁, hbuild, hne⟩
      have hafter : after (withPending (nodeBuild f node []))
          (locked e (nodeResourceId node.nodeId)) = e₁ := after_eq hbuild
      exact hne (hafter ▸ hruns.2)
  exact failed_creation_leaves_no_node hg 2

/-- A node whose commit record is not flushed, and an edge. The flush of the
edge's commit record brings both to the log. -/
theorem failed_creation_appears_after_crash : ¬ ∀ events : List SessionEvent,
      Guarded bookStep (fun s v => PropsDistinct v.properties ∧
        (v.returns s.1 ∨ ∃ f node properties,
          v = .call f (.createNodeAtomic node properties)))
        (.init, fun _ _ => none) events →
      ∀ n, Sound (run bookStep (.init, fun _ _ => none) (events.take n)) := by
  intro hclaim
  let events : List SessionEvent :=
    [.call { Faults.none with flush := true }
        (.createNodeAtomic (NodeRecord.new 1 7) []),
      .call .none (.putEdge (EdgeRecord.new 1 7 0 0 .null .null))]
  let s := run bookStep (.init, fun _ _ => none) events
  let crashed := { s.1 with log := s.1.log.take 4 }
  have hruns : events[1].returns (sessionStep .init events[0]) ∧
      s.2 .node 1 = none ∧ answer (reopen .none) crashed = .ok (.ok ()) ∧
      answer (getNode .none 1) (after (reopen .none) crashed) =
        .ok (.ok (some (NodeRecord.new 1 7))) := by
    decide +kernel
  obtain ⟨hret, hnew, hopen, hget⟩ := hruns
  have hs := hclaim events ⟨⟨by decide, Or.inr ⟨_, _, _, rfl⟩⟩,
    ⟨by decide, Or.inl hret⟩, trivial⟩ 2
  have hnot : ¬ s.2.Has 1 := by
    rw [Ledger.Has, hnew]
    exact Bool.false_ne_true
  exact (hs.crash .none 4 _ (eq_of_answer hopen) 1 (by decide) hnot).1 _ _
    (eq_of_answer hget)

end RGraph.Graph
