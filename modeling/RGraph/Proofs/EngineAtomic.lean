import RGraph.Proofs.EngineStep

/-!
# Calls that log their pages

`put_node` and the atomic creations: images are built, logged, committed and
written last. The pages that were logged have the LSN of their record then,
and these LSNs are above all earlier ones.
-/

namespace RGraph.Graph

open RGraph.Lib RGraph.Storage RGraph.Wal RGraph.Index Call List Function

theorem committed_self (log recs : List LogRecord) (lsn txid : Nat) :
    committed (log ++ (recs ++ [⟨lsn, txid, .commit, none⟩])) txid = true := by
  simp [committed]

/-! ## Nodes -/

section PutNode

variable {e e' : GraphStorageEngine} {h : Heap} {f : Faults}
  {node : NodeRecord} {slot : SlotRef}

/-- `put_node`, once it has returned. -/
structure NodePut (node : NodeRecord) (e : GraphStorageEngine) (h : Heap)
    (slot : SlotRef) (p : Nat) (e₁ e' : GraphStorageEngine) : Prop where
  id : node.nodeId ≠ 0
  absent : (e.tree .node)[idKey node.nodeId]? = none
  placed : Placed h 32 (locked e (nodeResourceId node.nodeId)) .node p e₁
  slotOn : SlotOn h p slot
  written : ∃ img lsn lsn' txid, Stores img (h.records p ++ [node.encode]) ∧
    PageStore.Written e₁.store p (stampPage img lsn) e'.store ∧
    LogStep e [⟨lsn, txid, .pageInsert, some (p, img)⟩, ⟨lsn', txid, .commit, none⟩] e'
  lists : e'.pageList = e₁.pageList
  tree : e'.tree = ((e.callTree .node (.insert (idKey node.nodeId) slot)).callTree
      .label (.insert (groupKey node.labelId node.nodeId) slot)).tree
  calls : e'.calls = e.calls ++ [(.node, .insert (idKey node.nodeId) slot),
    (.label, .insert (groupKey node.labelId node.nodeId) slot)]

theorem putNode_ok (hs : Shows e.store h) (hb : BelowMark e h)
    (hok : putNode f node e = .ok (.ok slot, e')) : ∃ p e₁, NodePut node e h slot p e₁ e' := by
  obtain ⟨hid, habsent, hok⟩ := create_ok hok
  obtain ⟨txid, e₀, hbegin, hok₁⟩ := bind_ok.mp hok
  obtain ⟨rfl, rfl⟩ := begin_ok.mp hbegin
  obtain ⟨⟨sl, p, img, lsn⟩, e₂, hroll, hok₂⟩ := bind_ok.mp hok₁
  obtain ⟨u₁, e₃, hlock, hbody₁⟩ := bind_ok.mp (orRollback_ok.mp hroll)
  obtain ⟨-, rfl⟩ := acquireLock_ok.mp hlock
  obtain ⟨⟨sl', p', img'⟩, e₁, hprep, hbody₂⟩ := bind_ok.mp hbody₁
  obtain ⟨hplaced, hslot, hstores, -⟩ := prepareRecord_ok
    (show Shows (locked e _).store h from hs)
    (show BelowMark (locked e _) h from hb) hprep
  obtain ⟨u₂, e₄, hkey₁, hbody₃⟩ := bind_ok.mp hbody₂
  obtain ⟨-, rfl⟩ := treeCall_ok.mp hkey₁
  obtain ⟨u₃, e₅, hkey₂, hbody₄⟩ := bind_ok.mp hbody₃
  obtain ⟨-, rfl⟩ := treeCall_ok.mp hkey₂
  obtain ⟨lsn₁, e₆, happ, hbody₅⟩ := bind_ok.mp hbody₄
  obtain ⟨heq, rfl⟩ := pure_ok.mp hbody₅
  cases heq
  obtain ⟨u₄, e₇, hcommit, hok₃⟩ := bind_ok.mp hok₂
  obtain ⟨-, lsn₂, e₉, hcapp, rfl⟩ := commit_ok.mp hcommit
  obtain ⟨u₅, e₈, hwrite, hok₄⟩ := bind_ok.mp hok₃
  obtain ⟨-, st, hst, rfl⟩ := writePage_ok.mp hwrite
  obtain ⟨rfl, rfl⟩ := pure_ok.mp hok₄
  have hsame := hplaced.same
  have hlog : LogStep e _ e₉ :=
    ((LogStep.append happ).trans (LogStep.append hcapp)).start_eq hsame.log hsame.lastLsn
  obtain ⟨-, -, rfl⟩ := append_ok.mp happ
  obtain ⟨-, -, rfl⟩ := append_ok.mp hcapp
  rw [NodeRecord.length_encode] at hplaced
  refine ⟨_, e₁, hid, habsent, hplaced, hslot, ⟨_, lsn, lsn₂, e.nextTxid,
    hstores, PageStore.written hst,
    ⟨hlog.log, hlog.sorted, hlog.above, hlog.last⟩⟩, rfl, ?_, ?_⟩
  · dsimp only [GraphStorageEngine.callTree]
    rw [hsame.tree]
    rfl
  · have hcalls : e₁.calls = e.calls := by cases hplaced <;> rfl
    rw [← hcalls]
    exact List.append_assoc e₁.calls [_] [_]

variable {e₁ : GraphStorageEngine} {p : Nat}

theorem NodePut.shows (hput : NodePut node e h slot p e₁ e')
    (hs : Shows e.store h) : Shows e'.store (h.append p node.encode) := by
  obtain ⟨img, lsn, -, -, hst, hw, -⟩ := hput.written
  exact hw.shows (hput.placed.shows hs) (stores_stampPage hst lsn)

theorem NodePut.entered (hput : NodePut node e h slot p e₁ e') :
    Entered e.tree .node node.nodeId node.labelId slot e'.tree := by
  rw [hput.tree]
  exact entered_insert e .node node.nodeId node.labelId slot

theorem NodePut.effect (hput : NodePut node e h slot p e₁ e') :
    Effect [] h e.tree (.enter .node node.nodeId node.labelId node.isDeleted)
      (h.append p node.encode) e'.tree := by
  refine .enter hput.slotOn.extends_append ?_ hput.absent (fun x hx => Or.inl ?_) hput.entered
  · rw [Heap.faceAt, hput.slotOn.get_append_self, Option.map_some, face_node_encode hput.id]
  · rw [mem_singleton.mp hx]

theorem NodePut.below (hput : NodePut node e h slot p e₁ e')
    (hb : BelowMark e h) : BelowMark e' (h.append p node.encode) := by
  obtain ⟨img, lsn, -, -, -, hw, -⟩ := hput.written
  intro q hq
  rw [hw.next]
  have hplaced := hput.placed
  rw [Heap.append] at hq
  by_cases hqp : q = p
  · subst hqp
    cases hplaced with
    | found hroom hp => exact hb q hp
    | fresh hroom hnew => exact Nat.lt_succ_self q
  · rw [update_of_ne hqp] at hq
    exact Nat.lt_of_lt_of_le (hb q hq) hplaced.next_le

theorem NodePut.outcome (hput : NodePut node e h slot p e₁ e') (hs : Stored e h) :
    Outcome [] (.enter .node node.nodeId node.labelId node.isDeleted) e h e'
      (h.append p node.encode) := by
  obtain ⟨img, lsn, lsn', txid, hst, hw, hlog⟩ := hput.written
  have hpages : PagesOk
      (locked e (nodeResourceId node.nodeId)).store.nextFreePageId h := hs.pages
  refine ⟨⟨hput.shows hs.shows, ?_, ?_⟩,
    fun hl => hl.step hlog (fun hm => ?_) ?_ ?_, fun r hr => ?_, ?_⟩
  · rw [hw.next]
    exact hpages.append hput.placed hput.slotOn
  · intro k q hq
    rw [hput.lists] at hq
    apply Heap.isSome_append
    rcases hput.placed.lists hq with hq | hq
    · exact .inl (hs.lists k q hq)
    · exact .inr hq
  · rw [hw.synced, hw.next, hput.placed.page.2.2]
    exact Nat.le_trans hm hput.placed.next_le
  · intro q
    rw [hw.page, hput.placed.page.1]
    by_cases hq : q = p
    · subst hq
      right
      rw [update_self]
      exact (hlog.above _ mem_cons_self).1
    · left
      rw [update_of_ne hq]
      rfl
  · intro r hr q im hpage
    rcases mem_cons.mp hr with rfl | hr
    · cases hpage
      refine ⟨?_, rfl, ?_⟩
      · rw [hw.page, update_self]
        exact Nat.le_refl _
      · rw [hlog.log]
        exact committed_self e.log [_] lsn' txid
    · rw [mem_singleton.mp hr] at hpage
      cases hpage
  · rw [hlog.log] at hr
    rcases mem_append.mp hr with hr | hr
    · exact .inl hr
    right
    intro q im hpage
    rcases mem_cons.mp hr with rfl | hr
    · cases hpage
      exact ⟨_, update_self .., hst⟩
    · rw [mem_singleton.mp hr] at hpage
      cases hpage
  · exact hput.effect

end PutNode

/-! ## Images -/

theorem withPending_ok {α : Type} {x : PendingM α} {e e' : GraphStorageEngine}
    {a : α} {m : Pending} : withPending x e = .ok (.ok (a, m), e') ↔
      x (e, ∅) = .ok (.ok a, e', m) := by
  rw [withPending]
  constructor
  · intro hok
    split at hok
    · cases hok
    · cases hok
    · next hx =>
        cases hok
        exact hx
  · intro hx
    rw [hx]

/-- A state in which images are built that will make the heap `h`. -/
structure Building (e : GraphStorageEngine) (s : GraphStorageEngine × Pending)
    (h : Heap) : Prop where
  shows : ShowsPending s h
  pages : PagesOk s.1.store.nextFreePageId h
  lists : ∀ k, ∀ p ∈ s.1.pageList k, (h p).isSome
  same : SameButPages e s.1
  page : s.1.store.page = e.store.page
  fileLen : s.1.store.fileLen = e.store.fileLen
  synced : s.1.store.syncedPageId = e.store.syncedPageId
  next : e.store.nextFreePageId ≤ s.1.store.nextFreePageId

namespace Building

variable {e : GraphStorageEngine} {s s' : GraphStorageEngine × Pending}
  {h : Heap} {f : Faults}

theorem start (hs : Stored e h) : Building e (e, ∅) h := by
  refine ⟨fun p => ?_, hs.pages, hs.lists, .refl e, rfl, rfl, rfl, Nat.le_refl _⟩
  rw [overlay, Std.ExtTreeMap.getElem?_empty]
  exact hs.shows.pages p

variable {k : RecordKind} {r : Bytes} {slot : SlotRef}

theorem placed (hb : Building e s h) (hok : prepareIntoPending f k r s = .ok (.ok slot, s')) :
    ∃ p, Placed h r.length s.1 k p s'.1 ∧ SlotOn h p slot ∧ Building e s' (h.append p r) := by
  obtain ⟨p, hpl, hslot, hshows⟩ := prepareIntoPending_ok hb.shows hb.pages.below hok
  obtain ⟨hpage, hlen, hsynced⟩ := hpl.page
  refine ⟨p, hpl, hslot, hshows, hb.pages.append hpl hslot, fun k' q hq => ?_,
    hb.same.trans hpl.same, hpage.trans hb.page, hlen.trans hb.fileLen,
    hsynced.trans hb.synced, Nat.le_trans hb.next hpl.next_le⟩
  apply Heap.isSome_append
  rcases hpl.lists hq with hq | hq
  · exact .inl (hb.lists k' q hq)
  · exact .inr hq

theorem drafted (hb : Building e s h) : Drafted e s h :=
  ⟨hb.shows, hb.pages.below, fun _ => hb.pages.data, hb.pages.first,
    hb.page, hb.fileLen, hb.next, hb.same.tree⟩

theorem prepare (hb : Building e s h) (hok : prepareIntoPending f k r s = .ok (.ok slot, s')) :
    ∃ p, SlotOn h p slot ∧ firstDataPageId ≤ p ∧ Building e s' (h.append p r) := by
  obtain ⟨p, -, hslot, hb'⟩ := hb.placed hok
  exact ⟨p, hslot, hb'.pages.data (Heap.isSome_append (Or.inr rfl)), hb'⟩

theorem extend (hb : Building e s h) (hok : prepareIntoPending f k r s = .ok (.ok slot, s')) :
    ∃ h', Building e s' h' ∧ Extends h [(slot, r)] h' := by
  obtain ⟨p, hslot, -, hb'⟩ := hb.prepare hok
  exact ⟨_, hb', hslot.extends_append⟩

theorem steady (f : Faults) (e : GraphStorageEngine) : (pending f).Steady (Building e) := by
  refine pending_steady f (·.shows) fun {_ _ _ h slot r} hb hs => ?_
  have hshape := SameShape.set h slot r
  refine ⟨hs, hb.pages.of_shape hshape, fun k p hmem => ?_, hb.same, hb.page,
    hb.fileLen, hb.synced, hb.next⟩
  rw [hshape.isSome]
  exact hb.lists k p hmem

theorem chain {props : List PropertyRecord} {first : SlotRef} (hb : Building e s h)
    (hok : prepareChain f props .null s = .ok (.ok first, s')) :
    ∃ h' new, Building e s' h' ∧ Extends h new h' ∧
      ∀ x ∈ new, ∃ prop ∈ props, x.2.length = prop.onDiskSize := by
  obtain ⟨h', new, hb', -, -, hnew⟩ := Prepares.chain (fun hb => hb.prepare) hb
    (show ChainAt h .null [] from rfl) hok
  exact ⟨h', new, hb', hnew⟩

theorem wire (hb : Building e s h) {c : Bool} {side : Side} {edgeSlot nodeSlot : SlotRef} {u : Unit}
    (hok : Call.when c ((pending f).wire side edgeSlot nodeSlot) s = .ok (.ok u, s')) :
    ∃ h', Building e s' h' ∧ h.Rewired h' :=
  Leaves.when ((steady f e).wire_leaves hb side edgeSlot nodeSlot) (.start hb)
    _ _ hok

end Building

section Images

variable {e e' : GraphStorageEngine} {f : Faults} {txid : Nat}
  {imgs out : List (Nat × SlottedPage)}

theorem logPages_ok (hok : logPages f txid imgs e = .ok (.ok out, e')) :
    ∃ recs, Logged txid imgs recs out ∧ LogStep e recs e' ∧
      e'.store = e.store ∧ e'.pageList = e.pageList ∧ e'.tree = e.tree := by
  induction imgs generalizing e out with
  | nil =>
    obtain ⟨rfl, rfl⟩ := pure_ok.mp hok
    exact ⟨[], ⟨nofun, nofun, nofun, rfl⟩, .of_eq rfl rfl, rfl, rfl, rfl⟩
  | cons x imgs ih =>
    obtain ⟨p, img⟩ := x
    obtain ⟨lsn, e₁, happ, hok₁⟩ := bind_ok.mp hok
    obtain ⟨rest, e₂, hrest, hok₂⟩ := bind_ok.mp hok₁
    obtain ⟨rfl, rfl⟩ := pure_ok.mp hok₂
    obtain ⟨recs, hlogged, hstep, hstore, hlists, htree⟩ := ih hrest
    have happ' := LogStep.append happ
    obtain ⟨-, -, rfl⟩ := append_ok.mp happ
    refine ⟨_, ⟨?_, ?_, ?_, ?_⟩, happ'.trans hstep, hstore, hlists, htree⟩
    · intro r hr
      rcases mem_cons.mp hr with rfl | hr
      · exact ⟨rfl, rfl⟩
      · exact hlogged.kind r hr
    · intro x hx
      rcases mem_cons.mp hx with rfl | hx
      · exact ⟨_, mem_cons_self, img, mem_cons_self, rfl⟩
      · obtain ⟨r, hr, img', hmem, himg⟩ := hlogged.image x hx
        exact ⟨r, mem_cons_of_mem _ hr, img', mem_cons_of_mem _ hmem, himg⟩
    · intro r hr p' img' hpage
      rcases mem_cons.mp hr with rfl | hr
      · cases hpage
        exact ⟨mem_cons_self, mem_cons_self⟩
      · obtain ⟨himg, hout⟩ := hlogged.record r hr p' img' hpage
        exact ⟨mem_cons_of_mem _ himg, mem_cons_of_mem _ hout⟩
    · rw [map_cons, map_cons, hlogged.keys]

end Images

/-! ## Atomic creation -/

section Atomic

variable {e e' : GraphStorageEngine} {h : Heap} {f : Faults} {slot : SlotRef}

theorem Stored.locked (hs : Stored e h) (r : UInt64) : Stored (locked e r) h := hs.congr rfl rfl

theorem Stored.inOrder (hs : Stored e h) : InOrder e h :=
  ⟨hs.shows, hs.pages.below, fun _ => hs.pages.data, hs.pages.first⟩

/-- The images that were built are logged and then written. -/
theorem Building.write {e₁ e₂ e₃ : GraphStorageEngine} {m : Pending}
    {txid : Nat} {recs : List LogRecord} {out : List (Nat × SlottedPage)}
    {h' : Heap} {u : Unit} (hb : Building e (e₁, m) h') (hs : Stored e h)
    (hlogged : Logged txid m.toList recs out) (habove : ∀ r ∈ recs, e.lastLsn < r.lsn)
    (hwrite : writePages f out e₂ = .ok (.ok u, e₃))
    (hstore : e₂.store = e₁.store) (hlists : e₂.pageList = e₁.pageList)
    (htree : e₂.tree = e₁.tree) : Stored e₃ h' ∧
      (∀ p, pageLsnOf (e₃.store.page p) = pageLsnOf (e.store.page p) ∨
        e.lastLsn < pageLsnOf (e₃.store.page p)) ∧
      ∀ r ∈ recs, ∀ p img, r.page = some (p, img) → (∃ rs, h' p = some rs ∧ Stores img rs) ∧
          r.lsn ≤ pageLsnOf (e₃.store.page p) := by
  have hu : Untouched e₁ e₂ := by
    refine ⟨?_, ?_, ?_, htree⟩ <;> rw [hstore]
  obtain ⟨h'', hord, -, -, heq⟩ := hb.drafted.write hs.inOrder hlogged hu hwrite
  obtain rfl := heq u rfl
  obtain ⟨st, rfl, hnext, -, -, hpages⟩ := writePages_cases hwrite
  refine ⟨⟨hord.shows, ?_, ?_⟩, fun p => ?_, ?_⟩
  · rw [show st.nextFreePageId = e₁.store.nextFreePageId by
      rw [hnext, hstore]]
    exact hb.pages
  · intro k p hp
    refine hb.lists k p ?_
    rw [← hlists]
    exact hp
  · show pageLsnOf (st.page p) = _ ∨ _ < pageLsnOf (st.page p)
    rcases hpages p with ⟨heq, -⟩ | ⟨img, hmem, heq, -⟩
    · left
      rw [heq, hstore]
      exact congrArg pageLsnOf (congrFun hb.page p)
    · right
      obtain ⟨r, hr, img', -, rfl⟩ := hlogged.image _ hmem
      rw [heq]
      exact habove r hr
  · intro r hr p img hpage
    obtain ⟨himg, hmem⟩ := hlogged.record r hr p img hpage
    refine ⟨?_, ?_⟩
    · -- the image is that of the page in the heap
      have hov := hb.shows p
      rw [overlay, Pending.mem_toList.mp himg, Option.some_or] at hov
      exact rel_some_left hov rfl
    rcases hpages p with ⟨-, hnot⟩ | ⟨img', hmem', heq, -⟩
    · exact absurd (mem_map_of_mem hmem) (hnot rfl)
    · -- a page has one image only
      have hnodup : (out.map Prod.fst).Nodup := by
        rw [hlogged.keys, Std.ExtTreeMap.map_fst_toList_eq_keys]
        exact Std.ExtTreeMap.nodup_keys
      cases inj_on_of_nodup_map hnodup hmem hmem' rfl
      rw [show ({ e₂ with store := st } : GraphStorageEngine).store.page p = _
        from heq]
      exact Nat.le_refl _

theorem writeAtomic_ok {r : UInt64} {build : PendingM SlotRef}
    {P : SlotRef → Heap → Prop} (hs : Stored e h)
    (hbuild : ∀ slot s', build (locked e r, ∅) = .ok (.ok slot, s') →
      ∃ h', Building (locked e r) s' h' ∧ P slot h')
    (hok : writeAtomic f r build e = .ok (.ok slot, e')) :
    ∃ h', Stored e' h' ∧ (LogOk e → LogOk e') ∧ ImagesOf h' e e' ∧
      e'.tree = e.tree ∧ P slot h' := by
  obtain ⟨txid, e₀, hbegin, hok₁⟩ := bind_ok.mp hok
  obtain ⟨rfl, rfl⟩ := begin_ok.mp hbegin
  obtain ⟨⟨sl, out⟩, e₁, hroll, hok₂⟩ := bind_ok.mp hok₁
  obtain ⟨u₁, e₂, hlock, hbody₁⟩ := bind_ok.mp (orRollback_ok.mp hroll)
  obtain ⟨-, rfl⟩ := acquireLock_ok.mp hlock
  obtain ⟨⟨sl', m⟩, e₃, hpend, hbody₂⟩ := bind_ok.mp hbody₁
  obtain ⟨h', hb, hP⟩ := hbuild sl' _ (withPending_ok.mp hpend)
  obtain ⟨out', e₄, hlogs, hbody₃⟩ := bind_ok.mp hbody₂
  obtain ⟨recs, hlogged, hstep, hstore, hlists, htree⟩ := logPages_ok hlogs
  obtain ⟨heq, rfl⟩ := pure_ok.mp hbody₃
  cases heq
  obtain ⟨u₂, e₅, hcommit, hok₃⟩ := bind_ok.mp hok₂
  obtain ⟨-, lsn, e₇, hcapp, rfl⟩ := commit_ok.mp hcommit
  obtain ⟨u₃, e₆, hwrite, hok₄⟩ := bind_ok.mp hok₃
  obtain ⟨rfl, rfl⟩ := pure_ok.mp hok₄
  have hstep₁ : LogStep e recs e₄ := hstep.start_eq hb.same.log hb.same.lastLsn
  have hstep₂ := hstep₁.trans (LogStep.append hcapp)
  obtain ⟨-, -, rfl⟩ := append_ok.mp hcapp
  obtain ⟨hstored, hlsn, hrecs⟩ := hb.write (hs.locked r) hlogged
    (fun r hr => (hstep₁.above r hr).1) hwrite hstore hlists htree
  obtain ⟨st, rfl, hnext, hsynced, -, -⟩ := writePages_cases hwrite
  refine ⟨h', hstored, fun hl => ?_, fun r hr => ?_, ?_, hP⟩
  · refine hl.step ⟨hstep₂.log, hstep₂.sorted, hstep₂.above, hstep₂.last⟩
      (fun hm => ?_) hlsn fun r hr p img hpage => ?_
    · show st.syncedPageId ≤ st.nextFreePageId
      rw [hnext, hsynced]
      show e₄.store.syncedPageId ≤ e₄.store.nextFreePageId
      rw [hstore, hb.synced]
      exact Nat.le_trans hm hb.next
    rcases mem_append.mp hr with hr | hr
    · obtain ⟨hty, htx⟩ := hlogged.kind r hr
      refine ⟨(hrecs r hr p img hpage).2, hty, ?_⟩
      rw [htx]
      refine (congrArg (committed · e.nextTxid = true) hstep₂.log).mpr ?_
      exact committed_self e.log recs _ _
    · rw [mem_singleton.mp hr] at hpage
      cases hpage
  · have hr : r ∈ _ := hstep₂.log ▸ hr
    rcases mem_append.mp hr with hr | hr
    · exact .inl hr
    right
    intro p img hpage
    rcases mem_append.mp hr with hr | hr
    · exact (hrecs r hr p img hpage).1
    · rw [mem_singleton.mp hr] at hpage
      cases hpage
  · exact htree.trans hb.same.tree

/-- The heap with the records of a new entity and of its properties. -/
def Created (props : List PropertyRecord) (x : Face) (h : Heap)
    (slot : SlotRef) (h' : Heap) : Prop :=
  ∃ new, Extends h new h' ∧ h'.faceAt slot = some x ∧
    ∀ y ∈ new, y.1 = slot ∨ ∃ prop ∈ props, y.2.length = prop.onDiskSize

variable {props : List PropertyRecord}

theorem Created.of_chain {h₁ h₂ : Heap} {new : List (SlotRef × Bytes)}
    {r : Bytes} {x : Face} (hext : Extends h new h₁)
    (hnew : ∀ x ∈ new, ∃ prop ∈ props.reverse, x.2.length = prop.onDiskSize)
    (hext' : Extends h₁ [(slot, r)] h₂) (hface : face r = x) : Created props x h slot h₂ := by
  refine ⟨_, hext.trans hext', ?_, fun x hx => ?_⟩
  · obtain ⟨-, r', hr', hf⟩ := hext'.mem _ (mem_singleton_self _)
    rw [Heap.faceAt, hr', Option.map_some, hf, hface]
  · rcases mem_append.mp hx with hx | hx
    · obtain ⟨prop, hprop, hlen⟩ := hnew x hx
      exact .inr ⟨prop, mem_reverse.mp hprop, hlen⟩
    · exact .inl (by rw [mem_singleton.mp hx])

theorem Created.marks {x : Face} {h₁ h₂ : Heap}
    (hc : Created props x h slot h₁) (hm : h₂.marks = h₁.marks) : Created props x h slot h₂ := by
  obtain ⟨new, hext, hface, hnew⟩ := hc
  exact ⟨new, hext.marks_right hm, (Heap.faceAt_congr hm slot).trans hface, hnew⟩

/-- The entity is entered once its pages are written. -/
theorem enter_ok (kind : EntityKind) {e₁ e₂ e₃ : GraphStorageEngine}
    {h' : Heap} {id : UInt64} {group : UInt32} {d : Bool} {u u' : Unit}
    (hs : Stored e₁ h') (hl : LogOk e → LogOk e₁) (himg : ImagesOf h' e e₁)
    (htree : e₁.tree = e.tree) (hcreated : Created props (.entity kind id group d) h slot h')
    (habsent : (e.tree kind.idTree)[idKey id]? = none)
    (hid : insertKey f kind.idTree (idKey id) slot e₁ = .ok (.ok u, e₂))
    (hgroup : insertKey f kind.groupTree (groupKey group id) slot e₂ = .ok (.ok u', e₃)) :
    Outcome props (.enter kind id group d) e h e₃ h' := by
  obtain ⟨new, hext, hface, hnew⟩ := hcreated
  have hb := ((Between.start hs).treeCall hid).treeCall hgroup
  refine ⟨hb.stored, fun h => hb.progress.logOk (hl h), himg.progress hb.progress, ?_⟩
  rw [hb.tree, htree]
  exact .enter hext hface habsent hnew (entered_insert e kind id group slot)

/-- What `create_node_atomic` and `create_edge_atomic` share. -/
theorem createAtomic_ok (kind : EntityKind) {id : UInt64} {group : UInt32}
    {d : Bool} {r : UInt64} {build : PendingM SlotRef} (hs : Stored e h)
    (hbuild : ∀ slot s', id ≠ 0 → build (locked e r, ∅) = .ok (.ok slot, s') →
      ∃ h', Building (locked e r) s' h' ∧ Created props (.entity kind id group d) h slot h')
    (hok : (if id = 0 then fail .invalidId
      else do
        let e ← Call.get
        if (e.tree kind.idTree)[idKey id]?.isSome then fail .alreadyExists
        else do
          let slot ← writeAtomic f r build
          insertKey f kind.idTree (idKey id) slot
          insertKey f kind.groupTree (groupKey group id) slot
          pure slot : EngineM SlotRef) e = .ok (.ok slot, e')) :
    ∃ h', Outcome props (.enter kind id group d) e h e' h' := by
  obtain ⟨hid, habsent, hok⟩ := create_ok hok
  obtain ⟨sl, e₁, hwrite, hok₁⟩ := bind_ok.mp hok
  obtain ⟨u₁, e₂, hkey₁, hok₂⟩ := bind_ok.mp hok₁
  obtain ⟨u₂, e₃, hkey₂, hok₃⟩ := bind_ok.mp hok₂
  obtain ⟨rfl, rfl⟩ := pure_ok.mp hok₃
  obtain ⟨h', hst, hl, himg, htree, hcreated⟩ := writeAtomic_ok hs
    (fun slot s' => hbuild slot s' hid) hwrite
  exact ⟨h', enter_ok kind hst hl himg htree hcreated habsent hkey₁ hkey₂⟩

theorem createNodeAtomic_ok (hs : Stored e h) {node : NodeRecord}
    (hok : createNodeAtomic f node props e = .ok (.ok slot, e')) :
    ∃ h', Outcome props (.enter .node node.nodeId node.labelId node.isDeleted) e h e' h' := by
  refine createAtomic_ok .node hs (fun sl s' hid hbuild => ?_) hok
  obtain ⟨first, s₁, hchain, hbuild₁⟩ := bind_ok.mp hbuild
  obtain ⟨h₁, new, hb₁, hext₁, hnew₁⟩ := (Building.start (hs.locked _)).chain hchain
  obtain ⟨h₂, hb₂, hext₂⟩ := hb₁.extend hbuild₁
  exact ⟨h₂, hb₂, .of_chain hext₁ hnew₁ hext₂ (face_node_encode hid)⟩

theorem createEdgeAtomic_ok (hs : Stored e h) {edge : EdgeRecord}
    (hok : createEdgeAtomic f edge props e = .ok (.ok slot, e')) :
    ∃ h', Outcome props (.enter .edge edge.edgeId edge.typeId edge.isDeleted) e h e' h' := by
  refine createAtomic_ok .edge hs (fun sl s' hid hbuild => ?_) hok
  obtain ⟨first, s₁, hchain, hbuild₁⟩ := bind_ok.mp hbuild
  obtain ⟨h₁, new, hb₁, hext₁, hnew₁⟩ := (Building.start (hs.locked _)).chain hchain
  obtain ⟨sl', s₂, hprep, hbuild₂⟩ := bind_ok.mp hbuild₁
  obtain ⟨h₂, hb₂, hext₂⟩ := hb₁.extend hprep
  obtain ⟨u₃, s₃, hsource, hbuild₃⟩ := bind_ok.mp hbuild₂
  obtain ⟨h₃, hb₃, hm₃⟩ := hb₂.wire hsource
  obtain ⟨u₄, s₄, htarget, hbuild₄⟩ := bind_ok.mp hbuild₃
  obtain ⟨h₄, hb₄, hm₄⟩ := hb₃.wire htarget
  obtain ⟨rfl, rfl⟩ := pure_ok.mp hbuild₄
  have hcreated := Created.of_chain hext₁ hnew₁ hext₂ (face_edge_encode hid)
  exact ⟨h₄, hb₄, hcreated.marks (hm₃.trans hm₄).marks⟩

end Atomic

end RGraph.Graph
