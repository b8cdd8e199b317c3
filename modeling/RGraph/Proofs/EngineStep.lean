import RGraph.Proofs.EngineOutcome

/-!
# What the calls of the engine do

For every call of the engine that has returned: the pages hold a heap again,
what became of it and of the trees is an effect, and the log has grown. `LogOk`
says that no page in a frame is older than a page record in the log, that
every page record is of a committed transaction, and that the mark of the
allocator has not gone back since the last `sync`.
-/

namespace RGraph.Graph

open RGraph.Lib RGraph.Storage RGraph.Wal RGraph.Index Call List

/-! ## The log -/

structure LogOk (e : GraphStorageEngine) : Prop where
  sorted : e.log.Pairwise (·.lsn < ·.lsn)
  lsn : ∀ r ∈ e.log, 0 < r.lsn ∧ r.lsn ≤ e.lastLsn
  page : ∀ r ∈ e.log, ∀ p img, r.page = some (p, img) → r.lsn ≤ pageLsnOf (e.store.page p)
  done : ∀ r ∈ e.log, r.page.isSome → r.recordType = .pageInsert ∧ committed e.log r.txid = true
  mark : e.store.syncedPageId ≤ e.store.nextFreePageId

/-- The log has grown by `recs`. -/
structure LogStep (e : GraphStorageEngine) (recs : List LogRecord)
    (e' : GraphStorageEngine) : Prop where
  log : e'.log = e.log ++ recs
  sorted : recs.Pairwise (·.lsn < ·.lsn)
  above : ∀ r ∈ recs, e.lastLsn < r.lsn ∧ r.lsn ≤ e'.lastLsn
  last : e.lastLsn ≤ e'.lastLsn

namespace LogStep

variable {e e₁ e₂ : GraphStorageEngine} {recs recs' : List LogRecord}

theorem trans (h : LogStep e recs e₁) (h' : LogStep e₁ recs' e₂) :
    LogStep e (recs ++ recs') e₂ := by
  refine ⟨?_, ?_, ?_, Nat.le_trans h.last h'.last⟩
  · rw [h'.log, h.log, append_assoc]
  · refine pairwise_append.mpr ⟨h.sorted, h'.sorted, fun r hr r' hr' => ?_⟩
    exact Nat.lt_of_le_of_lt (h.above r hr).2 (h'.above r' hr').1
  · intro r hr
    rcases mem_append.mp hr with hr | hr
    · exact ⟨(h.above r hr).1, Nat.le_trans (h.above r hr).2 h'.last⟩
    · exact ⟨Nat.lt_of_le_of_lt h.last (h'.above r hr).1, (h'.above r hr).2⟩

/-- The log as it was. -/
theorem of_eq (hlog : e₁.log = e.log) (hlast : e₁.lastLsn = e.lastLsn) : LogStep e [] e₁ :=
  ⟨by rw [hlog, append_nil], .nil, nofun, Nat.le_of_eq hlast.symm⟩

theorem start_eq (h : LogStep e₁ recs e₂) (hlog : e₁.log = e.log)
    (hlast : e₁.lastLsn = e.lastLsn) : LogStep e recs e₂ :=
  (of_eq hlog hlast).trans h

theorem append {f : Faults} {txid lsn : Nat} {ty : RecordType} {page : Option (Nat × SlottedPage)}
    (hok : append f txid ty page e = .ok (.ok lsn, e₁)) : LogStep e [⟨lsn, txid, ty, page⟩] e₁ := by
  obtain ⟨-, hlsn, rfl⟩ := append_ok.mp hok
  refine ⟨rfl, pairwise_singleton _ _, fun r hr => ?_, ?_⟩
  · rw [mem_singleton.mp hr]
    dsimp only
    omega
  · dsimp only
    omega

end LogStep

theorem committed_append {log recs : List LogRecord} {txid : Nat}
    (h : committed log txid = true) : committed (log ++ recs) txid = true := by
  rw [committed, any_append]
  rw [committed] at h
  rw [h, Bool.true_or]

variable {e : GraphStorageEngine}

theorem LogOk.step {e' : GraphStorageEngine} {recs : List LogRecord}
    (hl : LogOk e) (hs : LogStep e recs e') (hmark : e.store.syncedPageId ≤ e.store.nextFreePageId →
      e'.store.syncedPageId ≤ e'.store.nextFreePageId)
    (hpages : ∀ p, pageLsnOf (e'.store.page p) = pageLsnOf (e.store.page p) ∨
      e.lastLsn < pageLsnOf (e'.store.page p))
    (hnew : ∀ r ∈ recs, ∀ p img, r.page = some (p, img) →
      r.lsn ≤ pageLsnOf (e'.store.page p) ∧ r.recordType = .pageInsert ∧
        committed e'.log r.txid = true) : LogOk e' := by
  have hmem : ∀ {P : LogRecord → Prop}, (∀ r ∈ e.log, P r) →
      (∀ r ∈ recs, P r) → ∀ r ∈ e'.log, P r := by
    intro P hold hnew r hr
    rw [hs.log] at hr
    rcases mem_append.mp hr with hr | hr
    · exact hold r hr
    · exact hnew r hr
  refine ⟨?_, ?_, ?_, ?_, hmark hl.mark⟩
  · rw [hs.log]
    refine pairwise_append.mpr ⟨hl.sorted, hs.sorted, fun r hr r' hr' => ?_⟩
    exact Nat.lt_of_le_of_lt (hl.lsn r hr).2 (hs.above r' hr').1
  · refine hmem (fun r hr => ?_) (fun r hr => ?_)
    · exact ⟨(hl.lsn r hr).1, Nat.le_trans (hl.lsn r hr).2 hs.last⟩
    · exact ⟨Nat.lt_of_le_of_lt (Nat.zero_le _) (hs.above r hr).1, (hs.above r hr).2⟩
  · refine hmem (fun r hr p img hp => ?_) (fun r hr p img hp => ?_)
    · have hle := hl.page r hr p img hp
      rcases hpages p with heq | hlt
      · omega
      · have := (hl.lsn r hr).2
        omega
    · exact (hnew r hr p img hp).1
  · refine hmem (fun r hr hp => ?_) (fun r hr hp => ?_)
    · obtain ⟨hty, hcom⟩ := hl.done r hr hp
      refine ⟨hty, ?_⟩
      rw [hs.log]
      exact committed_append hcom
    · obtain ⟨⟨p, img⟩, hp⟩ := Option.isSome_iff_exists.mp hp
      exact (hnew r hr p img hp).2

theorem logOk_init : LogOk GraphStorageEngine.init := ⟨.nil, nofun, nofun, nofun, Nat.le_refl _⟩

/-! ## Progress -/

/-- The log has grown by records without images, and no page has a new LSN. -/
structure Progress (e e' : GraphStorageEngine) : Prop where
  log : ∃ recs, LogStep e recs e' ∧ ∀ r ∈ recs, r.page = none
  lsn : ∀ p, pageLsnOf (e'.store.page p) = pageLsnOf (e.store.page p)
  mark : e.store.syncedPageId ≤ e.store.nextFreePageId →
    e'.store.syncedPageId ≤ e'.store.nextFreePageId

namespace Progress

variable {e e₁ e₂ : GraphStorageEngine} {f : Faults} {h : Heap}

theorem trans (h : Progress e e₁) (h' : Progress e₁ e₂) : Progress e e₂ := by
  obtain ⟨recs, hs, hnone⟩ := h.log
  obtain ⟨recs', hs', hnone'⟩ := h'.log
  refine ⟨⟨recs ++ recs', hs.trans hs', fun r hr => ?_⟩,
    fun p => (h'.lsn p).trans (h.lsn p), fun hm => h'.mark (h.mark hm)⟩
  exact (mem_append.mp hr).elim (hnone r) (hnone' r)

theorem logOk (h : Progress e e₁) (hl : LogOk e) : LogOk e₁ := by
  obtain ⟨recs, hs, hnone⟩ := h.log
  refine hl.step hs h.mark (fun p => Or.inl (h.lsn p)) fun r hr p img hp => ?_
  rw [hnone r hr] at hp
  cases hp

theorem of_store (hlog : e₁.log = e.log) (hlast : e₁.lastLsn = e.lastLsn)
    (hlsn : ∀ p, pageLsnOf (e₁.store.page p) = pageLsnOf (e.store.page p))
    (hmark : e.store.syncedPageId ≤ e.store.nextFreePageId →
      e₁.store.syncedPageId ≤ e₁.store.nextFreePageId) :
    Progress e e₁ :=
  ⟨⟨[], .of_eq hlog hlast, nofun⟩, hlsn, hmark⟩

theorem moved (h : Moved e e₁) : Progress e e₁ := by
  refine .of_store h.same.log h.same.lastLsn h.kept.lsn fun hm => ?_
  rw [h.kept.synced]
  exact Nat.le_trans hm h.kept.next

end Progress

/-- Between two states of a call: the log and the pages, and the trees. -/
structure Between (e : GraphStorageEngine) (tree : Trees)
    (e' : GraphStorageEngine) (h' : Heap) : Prop where
  stored : Stored e' h'
  progress : Progress e e'
  tree : e'.tree = tree

namespace Between

variable {e e₁ e₂ : GraphStorageEngine} {h₁ h₂ : Heap} {tree : Trees}
  {f : Faults} {txid : Nat}

theorem start {h : Heap} (hs : Stored e h) : Between e e.tree e h :=
  ⟨hs, .of_store rfl rfl (fun _ => rfl) id, rfl⟩

/-- What the transaction manager keeps does not matter here. -/
theorem setActive (hb : Between e tree e₁ h₁) (nextTxid : Nat)
    (active : List Nat) (locks : List (UInt64 × Nat)) : Between e tree
      { e₁ with nextTxid := nextTxid, active := active, locks := locks } h₁ :=
  ⟨hb.stored.congr rfl rfl, hb.progress.trans (.of_store rfl rfl (fun _ => rfl) id), hb.tree⟩

theorem begin (hb : Between e tree e₁ h₁)
    (hok : begin e₁ = .ok (.ok txid, e₂)) : Between e tree e₂ h₁ := by
  obtain ⟨-, rfl⟩ := begin_ok.mp hok
  exact hb.setActive _ _ _

theorem append (hb : Between e tree e₁ h₁) {ty : RecordType} {lsn : Nat}
    (hok : append f txid ty none e₁ = .ok (.ok lsn, e₂)) : Between e tree e₂ h₁ := by
  have hstep := LogStep.append hok
  obtain ⟨-, -, rfl⟩ := append_ok.mp hok
  refine ⟨hb.stored.congr rfl rfl,
    hb.progress.trans ⟨⟨_, hstep, fun r hr => ?_⟩, fun _ => rfl, id⟩, hb.tree⟩
  rw [mem_singleton.mp hr]

theorem commit (hb : Between e tree e₁ h₁) {u : Unit}
    (hok : commit f txid e₁ = .ok (.ok u, e₂)) : Between e tree e₂ h₁ := by
  obtain ⟨-, lsn, e₃, happ, rfl⟩ := commit_ok.mp hok
  exact (hb.append happ).setActive _ _ _

theorem acquireLock (hb : Between e tree e₁ h₁) {r : UInt64} {u : Unit}
    (hok : acquireLock f txid r e₁ = .ok (.ok u, e₂)) : Between e tree e₂ h₁ := by
  obtain ⟨-, rfl⟩ := acquireLock_ok.mp hok
  exact hb.setActive _ _ _

theorem treeCall (hb : Between e tree e₁ h₁) {t : EngineTree} {op : TreeOp} {u : Unit}
    (hok : treeCall f t op e₁ = .ok (.ok u, e₂)) :
    Between e (Function.update tree t (op.onMap (tree t))) e₂ h₁ := by
  obtain ⟨-, rfl⟩ := treeCall_ok.mp hok
  refine ⟨hb.stored.congr rfl rfl, hb.progress.trans (.of_store rfl rfl (fun _ => rfl) id), ?_⟩
  rw [GraphStorageEngine.callTree, hb.tree]

theorem insertRecord (hb : Between e tree e₁ h₁) {k : RecordKind} {r : Bytes} {slot : SlotRef}
    (hok : insertRecord f k r e₁ = .ok (.ok slot, e₂)) :
    ∃ h₂, Between e tree e₂ h₂ ∧ Extends h₁ [(slot, r)] h₂ := by
  obtain ⟨h₂, hst, hext, hm⟩ := hb.stored.insertRecord hok
  exact ⟨h₂, ⟨hst, hb.progress.trans (.moved hm), hm.same.tree.trans hb.tree⟩, hext⟩

theorem inPlace (hb : Between e tree e₁ h₁) (hs : Shows e₂.store h₂)
    (hrel : InPlace e₁ e₂) (hm : SameShape h₁ h₂) : Between e tree e₂ h₂ := by
  obtain ⟨hst, hm⟩ := hb.stored.inPlace hs hrel hm
  exact ⟨hst, hb.progress.trans (.moved hm), hm.same.tree.trans hb.tree⟩

theorem overwriteRecord (hb : Between e tree e₁ h₁) {slot : SlotRef}
    {r old : Bytes} {u : Unit} (hget : h₁.get slot = some old) (hlen : r.length = old.length)
    (hok : overwriteRecord f slot r e₁ = .ok (.ok u, e₂)) : Between e tree e₂ (h₁.set slot r) := by
  obtain ⟨hshows, hrel, -⟩ := overwriteRecord_ok hb.stored.shows
    (fun old' hold => by rw [hget] at hold; cases hold; exact hlen) hok
  exact hb.inPlace hshows hrel (.set _ _ _)

theorem steady (f : Faults) : (direct f).Steady (Between e tree) :=
  direct_steady f (·.stored.shows) fun hb hs hrel => hb.inPlace hs hrel (.set _ _ _)

end Between

/-! ## Calls that write in place -/

/-- The images that were logged since hold the records of their pages. -/
def ImagesOf (h' : Heap) (e e' : GraphStorageEngine) : Prop :=
  ∀ r ∈ e'.log, r ∈ e.log ∨
    ∀ p img, r.page = some (p, img) → ∃ rs, h' p = some rs ∧ Stores img rs

theorem ImagesOf.progress {e₁ e₂ : GraphStorageEngine} {h' : Heap}
    (hi : ImagesOf h' e e₁) (hp : Progress e₁ e₂) : ImagesOf h' e e₂ := by
  intro r hr
  obtain ⟨recs, hs, hnone⟩ := hp.log
  rw [hs.log] at hr
  rcases mem_append.mp hr with hr | hr
  · exact hi r hr
  · right
    intro p img hpage
    rw [hnone r hr] at hpage
    cases hpage

theorem Progress.images {e' : GraphStorageEngine} (hp : Progress e e')
    (h' : Heap) : ImagesOf h' e e' :=
  ImagesOf.progress (fun _ hr => Or.inl hr) hp

/-- The outcome of a call: a heap again, and an effect on it and the trees. -/
structure Outcome (props : List PropertyRecord) (act : Action)
    (e : GraphStorageEngine) (h : Heap) (e' : GraphStorageEngine)
    (h' : Heap) : Prop where
  stored : Stored e' h'
  logOk : LogOk e → LogOk e'
  images : ImagesOf h' e e'
  effect : Effect props h e.tree act h' e'.tree

section InPlaceCalls

variable {e e' : GraphStorageEngine} {h : Heap} {f : Faults}

variable {u : Unit}

/-- A patch of an edge's lists that is made if the end is not null. -/
theorem Between.wire {e₁ e₂ : GraphStorageEngine} {h₁ : Heap} {tree : Trees}
    (hb : Between e tree e₁ h₁) {c : Bool} {side : Side} {edgeSlot nodeSlot : SlotRef}
    (hok : Call.when c ((direct f).wire side edgeSlot nodeSlot) e₁ =
      .ok (.ok u, e₂)) : ∃ h₂, Between e tree e₂ h₂ ∧ h₁.Rewired h₂ :=
  Leaves.when ((Between.steady f).wire_leaves hb side edgeSlot nodeSlot) (.start hb) _ _ hok

variable {slot : SlotRef}

theorem Between.unwire {e₁ e₂ : GraphStorageEngine} {h₁ : Heap} {tree : Trees}
    (hb : Between e tree e₁ h₁) {g : EdgeRecord} (hok : unwireBody f slot g e₁ = .ok (.ok u, e₂)) :
    ∃ h₂, Between e tree e₂ h₂ ∧ h₁.Rewired h₂ :=
  (Between.steady f).unwireBody_leaves hb slot g _ _ hok

theorem putEdge_ok (hs : Stored e h) {edge : EdgeRecord}
    (hok : putEdge f edge e = .ok (.ok slot, e')) :
    ∃ h', Outcome [] (.enter .edge edge.edgeId edge.typeId edge.isDeleted) e h e' h' := by
  obtain ⟨hid, habsent, hok⟩ := create_ok hok
  obtain ⟨txid, e₁, hbegin, hok₁⟩ := bind_ok.mp hok
  have hb₁ := (Between.start hs).begin hbegin
  obtain ⟨sl, e₂, hroll, hok₂⟩ := bind_ok.mp hok₁
  obtain ⟨u₁, e₃, hlock, hbody₁⟩ := bind_ok.mp (orRollback_ok.mp hroll)
  have hb₂ := hb₁.acquireLock hlock
  obtain ⟨sl', e₄, hins, hbody₂⟩ := bind_ok.mp hbody₁
  obtain ⟨h₁, hb₃, hext⟩ := hb₂.insertRecord hins
  obtain ⟨u₂, e₅, hkey₁, hbody₃⟩ := bind_ok.mp hbody₂
  have hb₄ := hb₃.treeCall hkey₁
  obtain ⟨u₃, e₆, hkey₂, hbody₄⟩ := bind_ok.mp hbody₃
  have hb₅ := hb₄.treeCall hkey₂
  obtain ⟨u₄, e₇, hsource, hbody₅⟩ := bind_ok.mp hbody₄
  obtain ⟨h₂, hb₆, hm₂⟩ := hb₅.wire hsource
  obtain ⟨u₅, e₈, htarget, hbody₆⟩ := bind_ok.mp hbody₅
  obtain ⟨h₃, hb₇, hm₃⟩ := hb₆.wire htarget
  obtain ⟨o, e₉, hread, hbody₇⟩ := bind_ok.mp hbody₆
  obtain ⟨-, rfl⟩ := readRecord_ok hb₇.stored.shows hread
  obtain ⟨r, e₁₀, hreq, hbody₈⟩ := bind_ok.mp hbody₇
  obtain ⟨-, rfl⟩ := require_ok.mp hreq
  obtain ⟨lsn, e₁₁, happ, hbody₉⟩ := bind_ok.mp hbody₈
  have hb₈ := hb₇.append happ
  obtain ⟨rfl, rfl⟩ := pure_ok.mp hbody₉
  obtain ⟨u₆, e₁₂, hcommit, hok₃⟩ := bind_ok.mp hok₂
  have hb₉ := hb₈.commit hcommit
  obtain ⟨rfl, rfl⟩ := pure_ok.mp hok₃
  have hext' := hext.marks_right (hm₂.trans hm₃).marks
  refine ⟨h₃, hb₉.stored, hb₉.progress.logOk, hb₉.progress.images _, ?_⟩
  obtain ⟨-, r', hr', hf'⟩ := hext'.mem _ (mem_singleton_self _)
  rw [hb₉.tree]
  refine .enter hext' ?_ ?_ (fun x hx => Or.inl ?_)
    (entered_insert e .edge edge.edgeId edge.typeId _)
  · rw [Heap.faceAt, hr', Option.map_some, hf', face_edge_encode hid]
  · exact habsent
  · rw [mem_singleton.mp hx]

/-- A record replaced by the same entity, marked as deleted. -/
theorem faceAt_set {s : SlotRef} {r old : Bytes} {x : Face}
    (hget : h.get s = some old) (hface : face r = x) (t : SlotRef) :
    (h.set s r).faceAt t = if t = s then some x else h.faceAt t := by
  rw [Heap.faceAt]
  split
  · next hts =>
      subst hts
      rw [Heap.get_set_self hget, Option.map_some, hface]
  · next hts => rw [Heap.get_set_ne hts, Heap.faceAt]

theorem deleteNode_ok (hs : Stored e h) (hl : Linked h e.tree)
    {nodeId : UInt64} (hok : deleteNode f nodeId e = .ok (.ok u, e')) :
    ∃ h', Outcome [] (.remove .node nodeId) e h e' h' := by
  rw [deleteNode, get_bind, bind_ok] at hok
  obtain ⟨s, e₀, hreq, hok⟩ := hok
  obtain ⟨hidx, rfl⟩ := require_ok.mp hreq
  obtain ⟨txid, e₁, hbegin, hok₁⟩ := bind_ok.mp hok
  have hb₁ := (Between.start hs).begin hbegin
  obtain ⟨u₁, e₂, hroll, hok₂⟩ := bind_ok.mp hok₁
  have hb₂ := hb₁.acquireLock (orRollback_ok.mp hroll)
  obtain ⟨n, e₃, hnode, hok₃⟩ := bind_ok.mp hok₂
  obtain ⟨rfl, r, hget, hdec⟩ := (Between.steady f).node_ok hb₂ hnode
  obtain ⟨lsn, e₄, hroll₂, hok₄⟩ := bind_ok.mp hok₃
  obtain ⟨u₂, e₅, hover, hbody₁⟩ := bind_ok.mp (orRollback_ok.mp hroll₂)
  have hb₃ := hb₂.overwriteRecord hget (by
    rw [NodeRecord.length_encode, NodeRecord.length_of_decode hdec]) hover
  obtain ⟨u₃, e₆, hkey, happ⟩ := bind_ok.mp hbody₁
  have hb₄ := (hb₃.treeCall hkey).append happ
  have hb₅ := hb₄.commit hok₄
  -- the index leads to a node with the id that was asked for
  obtain ⟨id, label, d, hkeyid, hface⟩ := hl.byId .node _ _ hidx
  obtain rfl := idKey_inj hkeyid
  have hface' := hface
  rw [Heap.faceAt, hget, Option.map_some, Option.some.injEq] at hface'
  obtain ⟨n', hn', hid, hlabel, -, hne⟩ := decode_of_face_node hface'
  rw [hdec] at hn'
  cases hn'
  refine ⟨_, hb₅.stored, hb₅.progress.logOk, hb₅.progress.images _, ?_⟩
  rw [hb₅.tree]
  subst hid hlabel
  refine .remove hidx hface (faceAt_set hget ?_) (removed_erase e .node n.nodeId n.labelId)
  refine (face_node_encode ?_).trans ?_
  · exact hne
  · exact congrArg (Face.entity .node n.nodeId n.labelId) (flags_deleted n.flags)

theorem deleteEdge_ok (hs : Stored e h) (hl : Linked h e.tree)
    {edgeId : UInt64} (hok : deleteEdge f edgeId e = .ok (.ok u, e')) :
    ∃ h', Outcome [] (.remove .edge edgeId) e h e' h' := by
  rw [deleteEdge, get_bind, bind_ok] at hok
  obtain ⟨s, e₀, hreq, hok⟩ := hok
  obtain ⟨hidx, rfl⟩ := require_ok.mp hreq
  obtain ⟨txid, e₁, hbegin, hok₁⟩ := bind_ok.mp hok
  have hb₁ := (Between.start hs).begin hbegin
  obtain ⟨u₁, e₂, hroll, hok₂⟩ := bind_ok.mp hok₁
  have hb₂ := hb₁.acquireLock (orRollback_ok.mp hroll)
  obtain ⟨g₀, e₃, hedge₀, hok₃⟩ := bind_ok.mp hok₂
  obtain ⟨rfl, -⟩ := (Between.steady f).edge_ok hb₂ hedge₀
  obtain ⟨u₂, e₄, hroll₁, hok₄⟩ := bind_ok.mp hok₃
  obtain ⟨h₂, hb₄, hwired⟩ := hb₂.unwire (orRollback_ok.mp hroll₁)
  have hm := hwired.marks
  obtain ⟨g, e₆, hedge, hok₅⟩ := bind_ok.mp hok₄
  obtain ⟨rfl, r, hget, hdec⟩ := (Between.steady f).edge_ok hb₄ hedge
  obtain ⟨lsn, e₇, hroll₂, hok₆⟩ := bind_ok.mp hok₅
  obtain ⟨u₄, e₈, hover, hbody₁⟩ := bind_ok.mp (orRollback_ok.mp hroll₂)
  have hb₅ := hb₄.overwriteRecord hget (by
    rw [EdgeRecord.length_encode, EdgeRecord.length_of_decode hdec]) hover
  obtain ⟨u₅, e₉, hkey, happ⟩ := bind_ok.mp hbody₁
  have hb₆ := (hb₅.treeCall hkey).append happ
  have hb₇ := hb₆.commit hok₆
  obtain ⟨id, type, d, hkeyid, hface⟩ := hl.byId .edge _ _ hidx
  obtain rfl := idKey_inj hkeyid
  have hface' := (Heap.faceAt_congr hm s).trans hface
  rw [Heap.faceAt, hget, Option.map_some, Option.some.injEq] at hface'
  obtain ⟨g', hg', hid, htype, -, hne⟩ := decode_of_face_edge hface'
  rw [hdec] at hg'
  cases hg'
  refine ⟨_, hb₇.stored, hb₇.progress.logOk, hb₇.progress.images _, ?_⟩
  rw [hb₇.tree]
  subst hid htype
  refine .remove hidx hface (fun t => ?_) (removed_erase e .edge g.edgeId g.typeId)
  rw [← Heap.faceAt_congr hm t]
  refine faceAt_set hget ?_ t
  refine (face_edge_encode ?_).trans ?_
  · exact hne
  · exact congrArg (Face.entity .edge g.edgeId g.typeId) (flags_deleted g.flags)

theorem putProperty_ok (hs : Stored e h) {prop : PropertyRecord}
    (hok : putProperty f prop e = .ok (.ok slot, e')) : ∃ h', Outcome [prop] .grow e h e' h' := by
  obtain ⟨sl, e₁, hins, hok₁⟩ := bind_ok.mp hok
  obtain ⟨h₁, hb₁, hext⟩ := (Between.start hs).insertRecord hins
  obtain ⟨lsn, e₂, happ, hok₂⟩ := bind_ok.mp hok₁
  have hb₂ := hb₁.append happ
  obtain ⟨rfl, rfl⟩ := pure_ok.mp hok₂
  refine ⟨h₁, hb₂.stored, hb₂.progress.logOk, hb₂.progress.images _, ?_⟩
  rw [hb₂.tree]
  refine .grow hext fun x hx => ⟨prop, mem_singleton_self _, ?_⟩
  rw [mem_singleton.mp hx, PropertyRecord.length_encode]

/-- A record is overwritten by one with its face, and that is logged. -/
theorem attach_ok (hs : Stored e h) {r old : Bytes} {txid : Nat}
    {ty : RecordType} (hok : (do
      overwriteRecord f slot r
      let _ ← append f txid ty none : EngineM Unit) e = .ok (.ok u, e'))
    (hget : h.get slot = some old) (hface : face r = face old)
    (hlen : r.length = old.length) : ∃ h', Outcome [] .grow e h e' h' := by
  obtain ⟨u₁, e₁, hover, hok₁⟩ := bind_ok.mp hok
  have hb₁ := (Between.start hs).overwriteRecord hget hlen hover
  obtain ⟨lsn, e₂, happ, hok₂⟩ := bind_ok.mp hok₁
  have hb₂ := hb₁.append happ
  obtain ⟨-, rfl⟩ := pure_ok.mp hok₂
  refine ⟨_, hb₂.stored, hb₂.progress.logOk, hb₂.progress.images _, ?_⟩
  rw [hb₂.tree]
  exact .grow (.of_marks (Heap.marks_set hget hface hlen)) nofun

theorem attachPropertyToNode_ok (hs : Stored e h) {nodeId : UInt64} {propSlot : SlotRef}
    (hok : attachPropertyToNode f nodeId propSlot e = .ok (.ok u, e')) :
    ∃ h', Outcome [] .grow e h e' h' := by
  rw [attachPropertyToNode, get_bind, bind_ok] at hok
  obtain ⟨s, e₀, hreq, hok⟩ := hok
  obtain ⟨-, rfl⟩ := require_ok.mp hreq
  obtain ⟨n, e₁, hnode, hok₁⟩ := bind_ok.mp hok
  obtain ⟨rfl, r, hget, hdec⟩ := (Between.steady f).node_ok (.start hs) hnode
  refine attach_ok hs hok₁ hget (face_node hdec rfl rfl rfl) ?_
  rw [NodeRecord.length_encode, NodeRecord.length_of_decode hdec]

theorem attachPropertyToEdge_ok (hs : Stored e h) {edgeId : UInt64} {propSlot : SlotRef}
    (hok : attachPropertyToEdge f edgeId propSlot e = .ok (.ok u, e')) :
    ∃ h', Outcome [] .grow e h e' h' := by
  rw [attachPropertyToEdge, get_bind, bind_ok] at hok
  obtain ⟨s, e₀, hreq, hok⟩ := hok
  obtain ⟨-, rfl⟩ := require_ok.mp hreq
  obtain ⟨g, e₁, hedge, hok₁⟩ := bind_ok.mp hok
  obtain ⟨rfl, r, hget, hdec⟩ := (Between.steady f).edge_ok (.start hs) hedge
  refine attach_ok hs hok₁ hget (face_edge hdec rfl rfl rfl) ?_
  rw [EdgeRecord.length_encode, EdgeRecord.length_of_decode hdec]

end InPlaceCalls

end RGraph.Graph
