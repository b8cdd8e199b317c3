import RGraph.Proofs.EngineReopen
import RGraph.Proofs.EngineTrees

/-!
# What is left of a session

A session whose calls all returned is closed with `sync`, or the process ends
at some point, and the engine is opened again. What it finds then is compared
with the ledger of the session.

`rebuild_indexes` tells nodes and edges from properties by their length alone,
so the properties must not have the length of one of them. `delete_node`,
`put_edge` and `delete_edge` write pages that no record of the log can
restore, so after a crash such a page must be in the file.
-/

namespace RGraph.Graph

open RGraph.Lib RGraph.Storage RGraph.Wal RGraph.Index Call List Function

/-! ## Reading the rebuilt trees -/

section Rebuilt

variable {e e' : GraphStorageEngine} {h : Heap} {l : Ledger}

theorem Rebuilt.linked (hr : Rebuilt h e') : Linked h e'.tree := by
  constructor
  · intro kind key s hget
    obtain ⟨id, group, hkey, -, hface⟩ := (hr.indexes.byId kind key s).mp hget
    exact ⟨id, group, false, hkey, hface⟩
  · intro kind key s hget
    obtain ⟨id, group, hkey, -, hface⟩ := (hr.indexes.byGroup kind key s).mp hget
    exact ⟨id, group, false, hkey, hface,
      (hr.indexes.byId kind _ s).mpr ⟨id, group, rfl, trivial, hface⟩⟩

/-- A slot is in the rebuilt tree if the tree before had it for an entity that
is not deleted. -/
theorem Rebuilt.byId_iff (hr : Rebuilt h e') (hs : SessionOk e h l)
    (hc : Complete h e.tree) (kind : EntityKind) (key : Bytes) (s : SlotRef) :
    (e'.tree kind.idTree)[key]? = some s ↔
      ∃ id group, key = idKey id ∧ l kind id = some (group, false) ∧
        (e.tree kind.idTree)[key]? = some s := by
  rw [hr.indexes.byId kind key s, ← hs.booked]
  constructor
  · rintro ⟨id, group, hkey, -, hface⟩
    have hidx := hc.byId kind id group false s hface
    refine ⟨id, group, hkey, (booked_eq_some hs.linked).mpr ⟨s, hidx, hface⟩, ?_⟩
    rw [hkey]
    exact hidx
  · rintro ⟨id, group, hkey, hbook, hidx⟩
    obtain ⟨s', hidx', hface⟩ := (booked_eq_some hs.linked).mp hbook
    rw [← hkey, hidx] at hidx'
    cases hidx'
    exact ⟨id, group, hkey, trivial, hface⟩

variable {id : UInt64}

/-- What the ledger has as alive is found. -/
theorem Rebuilt.live (hr : Rebuilt h e') (hs : SessionOk e h l)
    {kind : EntityKind} {group : UInt32} (hl : l kind id = some (group, false)) :
    ∃ s, (e'.tree kind.idTree)[idKey id]? = some s ∧
      h.faceAt s = some (.entity kind id group false) := by
  rw [← hs.booked] at hl
  obtain ⟨s, -, hface⟩ := (booked_eq_some hs.linked).mp hl
  exact ⟨s, (hr.indexes.byId kind _ s).mpr ⟨id, group, rfl, trivial, hface⟩, hface⟩

/-- What it has not, or as deleted, is not found. -/
theorem Rebuilt.not_live (hr : Rebuilt h e') (hs : SessionOk e h l)
    (hc : Complete h e.tree) {kind : EntityKind} (hl : ∀ group, l kind id ≠ some (group, false)) :
    (e'.tree kind.idTree)[idKey id]? = none := by
  cases hget : (e'.tree kind.idTree)[idKey id]? with
  | none => rfl
  | some s =>
    obtain ⟨id', group, hid, hbook, -⟩ := (hr.byId_iff hs hc kind _ s).mp hget
    obtain rfl := idKey_inj hid
    exact absurd hbook (hl group)

theorem Rebuilt.getNode_live (hr : Rebuilt h e') (hs : SessionOk e h l)
    {label : UInt32} (hl : l .node id = some (label, false)) :
    ∃ n, answer (getNode .none id) e' = .ok (.ok (some n)) ∧ n.nodeId = id ∧
      n.labelId = label ∧ n.isDeleted = false := by
  obtain ⟨s, hidx, hface⟩ := hr.live hs hl
  obtain ⟨r, hget, hf⟩ := Option.map_eq_some_iff.mp hface
  obtain ⟨n, hn, hid, hlabel, hd, -⟩ := decode_of_face_node hf
  refine ⟨n, ?_, hid, hlabel, hd⟩
  rw [answer, getNode_at hr.shows hidx (Heap.isSome_of_faceAt hface), hget, Option.bind_some, hn]
  rfl

theorem Rebuilt.getEdge_live (hr : Rebuilt h e') (hs : SessionOk e h l)
    {type : UInt32} (hl : l .edge id = some (type, false)) :
    ∃ g, answer (getEdge .none id) e' = .ok (.ok (some g)) ∧ g.edgeId = id ∧
      g.typeId = type ∧ g.isDeleted = false := by
  obtain ⟨s, hidx, hface⟩ := hr.live hs hl
  obtain ⟨r, hget, hf⟩ := Option.map_eq_some_iff.mp hface
  obtain ⟨g, hg, hid, htype, hd, -⟩ := decode_of_face_edge hf
  refine ⟨g, ?_, hid, htype, hd⟩
  have hidx' : (e'.tree .edge)[idKey id]? = some s := hidx
  rw [answer, getEdge_none hr.shows (hr.linked.readable .edge), hidx',
    Option.bind_some, hget, Option.bind_some, hg]
  rfl

end Rebuilt

/-! ## Scans -/

/-- What a scan keeps of a record: an entity that is not deleted. -/
structure KeepsLive {α : Type} (kind : EntityKind) (live : Bytes → Option α) :
    Prop where
  isSome : ∀ {r id group d}, face r = .entity kind id group d →
    (live r).isSome = !d

theorem liveNode_keeps : KeepsLive .node liveNode := by
  constructor
  intro r id group d hf
  obtain ⟨n, hn, -, -, hd, -⟩ := decode_of_face_node hf
  rw [liveNode, hn, Option.filter_some, hd]
  cases d <;> rfl

theorem liveEdge_keeps : KeepsLive .edge liveEdge := by
  constructor
  intro r id group d hf
  obtain ⟨g, hg, -, -, hd, -⟩ := decode_of_face_edge hf
  rw [liveEdge, hg, Option.filter_some, hd]
  cases d <;> rfl

variable {e e' : GraphStorageEngine} {h : Heap}

/-- The rebuilt tree of a group has the live entries of the tree before. -/
theorem Rebuilt.group_toList (hr : Rebuilt h e') (hl : Linked h e.tree)
    (hc : Complete h e.tree) {α : Type} {kind : EntityKind}
    {live : Bytes → Option α} (hlive : KeepsLive kind live) :
    (e'.tree kind.groupTree).toList = (e.tree kind.groupTree).toList.filter
      fun x => ((h.get x.2).bind live).isSome := by
  apply toList_eq_filter
  intro key s
  rw [hr.indexes.byGroup kind key s]
  constructor
  · rintro ⟨id, group, rfl, -, hface⟩
    refine ⟨hc.byGroup kind id group s hface, ?_⟩
    obtain ⟨r, hget, hf⟩ := Option.map_eq_some_iff.mp hface
    rw [hget, Option.bind_some, hlive.isSome hf]
    rfl
  · rintro ⟨hget, hsome⟩
    obtain ⟨id, group, d, rfl, hface, -⟩ := hl.byGroup kind key s hget
    refine ⟨id, group, rfl, trivial, ?_⟩
    obtain ⟨r, hget, hf⟩ := Option.map_eq_some_iff.mp hface
    rw [hget, Option.bind_some, hlive.isSome hf] at hsome
    cases d with
    | true => cases hsome
    | false => exact hface

theorem Rebuilt.found_eq (hr : Rebuilt h e') (hl : Linked h e.tree)
    (hc : Complete h e.tree) {α : Type} {kind : EntityKind}
    {live : Bytes → Option α} (hlive : KeepsLive kind live) (start stop : Bytes) :
    found h live (e'.tree kind.groupTree) start stop =
      found h live (e.tree kind.groupTree) start stop := by
  rw [found, found, rangeSearch, rangeSearch, hr.group_toList hl hc hlive,
    filter_filter, filterMap_filter, filterMap_filter]
  refine filterMap_congr fun x _ => ?_
  cases hx : (h.get x.2).bind live with
  | none => simp
  | some a => simp

/-! ## Closing and opening -/

/-- After the session `e` was closed and opened again as `e'`. -/
structure Restored (l : Ledger) (e e' : GraphStorageEngine) : Prop where
  /-- The node index and the edge index have the live ids, each with the slot
  it had, and no other key. -/
  byId : ∀ kind key s, (e'.tree (EntityKind.idTree kind))[key]? = some s ↔
    ∃ id group, key = idKey id ∧ l kind id = some (group, false) ∧
      (e.tree kind.idTree)[key]? = some s
  node : ∀ id label, l .node id = some (label, false) →
    ∃ n, answer (getNode .none id) e' = .ok (.ok (some n)) ∧ n.nodeId = id ∧
      n.labelId = label ∧ n.isDeleted = false
  edge : ∀ id type, l .edge id = some (type, false) →
    ∃ g, answer (getEdge .none id) e' = .ok (.ok (some g)) ∧ g.edgeId = id ∧
      g.typeId = type ∧ g.isDeleted = false
  labels : ∀ labelId, answer (scanNodesByLabel .none labelId) e' =
    answer (scanNodesByLabel .none labelId) e
  types : ∀ typeId, answer (scanEdgesByType .none typeId) e' =
    answer (scanEdgesByType .none typeId) e

variable {l : Ledger}

theorem Rebuilt.restored (hr : Rebuilt h e') (hs : SessionOk e h l)
    (hc : Complete h e.tree) : Restored l e e' := by
  refine ⟨hr.byId_iff hs hc, fun id label hl => hr.getNode_live hs hl,
    fun id type hl => hr.getEdge_live hs hl, fun labelId => ?_,
    fun typeId => ?_⟩
  · rw [answer, answer, scanNodesByLabel_none hr.shows (hr.linked.readable .label),
      scanNodesByLabel_none hs.stored.shows (hs.linked.readable .label)]
    exact congrArg (fun ns => Except.ok (Except.ok ns))
      (hr.found_eq hs.linked hc liveNode_keeps _ _)
  · rw [answer, answer, scanEdgesByType_none hr.shows (hr.linked.readable .type),
      scanEdgesByType_none hs.stored.shows (hs.linked.readable .type)]
    exact congrArg (fun gs => Except.ok (Except.ok gs))
      (hr.found_eq hs.linked hc liveEdge_keeps _ _)

theorem inRange_groupKey {label : UInt32} {id : UInt64} {labelId : Nat} (hl : labelId < 2 ^ 64) :
    ((compare (labelIndexKey labelId 0) (groupKey label id)).isLE &&
      (compare (groupKey label id) (labelIndexKey labelId maxId)).isLT) = true ↔
      label.toNat = labelId := by
  have hlabel : label.toNat < 256 ^ 8 := by
    have := label.toNat_lt
    omega
  have hid : id.toNat < 2 ^ 64 := id.toNat_lt
  rw [labelIndexKey, labelIndexKey, show groupKey label id =
    natToBE 8 label.toNat ++ natToBE 16 id.toNat from rfl,
    compare_natToBE_append (by omega) hlabel (by omega) (by omega),
    compare_natToBE_append hlabel (by omega) (by omega)
      (by rw [maxId]; omega), Bool.and_eq_true]
  rcases Nat.lt_trichotomy labelId label.toNat with hlt | rfl | hgt
  · rw [Nat.compare_eq_gt.mpr hlt]
    exact ⟨fun h => absurd h.2 Bool.false_ne_true, fun h => by omega⟩
  · have hmax : id.toNat < maxId := by
      rw [maxId]
      omega
    rw [Nat.compare_eq_eq.mpr rfl, Nat.compare_eq_lt.mpr hmax]
    exact ⟨fun _ => rfl, fun _ => ⟨Nat.isLE_compare.mpr (Nat.zero_le _), rfl⟩⟩
  · rw [Nat.compare_eq_gt.mpr hgt]
    exact ⟨fun h => absurd h.1 Bool.false_ne_true, fun h => by omega⟩

section Scan

variable {e e' : GraphStorageEngine} {h : Heap} {l : Ledger}

/-- An entry of the rebuilt label index leads to a node that is alive. -/
theorem Rebuilt.label_entry (hr : Rebuilt h e') {key : Bytes} {s : SlotRef}
    (hget : (e'.tree .label)[key]? = some s) :
    ∃ n, (h.get s).bind liveNode = some n ∧ key = groupKey n.labelId n.nodeId ∧
      h.faceAt s = some (.entity .node n.nodeId n.labelId false) := by
  obtain ⟨id, label, hkey, -, hface⟩ := (hr.indexes.byGroup .node key s).mp hget
  obtain ⟨r, hget, hf⟩ := Option.map_eq_some_iff.mp hface
  obtain ⟨n, hn, rfl, rfl, hd, -⟩ := decode_of_face_node hf
  refine ⟨n, ?_, hkey, hface⟩
  rw [hget, Option.bind_some, liveNode, hn, Option.filter_some, hd]
  rfl

theorem Rebuilt.mem_found (hr : Rebuilt h e') {labelId : Nat}
    (hl : labelId < 2 ^ 64) {id : UInt64} :
    id ∈ (found h liveNode (e'.tree .label) (labelIndexKey labelId 0)
        (labelIndexKey labelId maxId)).map (·.nodeId) ↔
      ∃ label s, label.toNat = labelId ∧ h.faceAt s = some (.entity .node id label false) := by
  rw [mem_map]
  constructor
  · rintro ⟨n, hn, rfl⟩
    obtain ⟨⟨key, s⟩, hmem, hlive⟩ := mem_filterMap.mp hn
    obtain ⟨hmem, hrange⟩ := mem_filter.mp hmem
    obtain ⟨n', hn', rfl, hface⟩ := hr.label_entry
      (Std.ExtTreeMap.mem_toList_iff_getElem?_eq_some.mp hmem)
    rw [hn'] at hlive
    cases hlive
    exact ⟨n.labelId, s, (inRange_groupKey hl).mp hrange, hface⟩
  · rintro ⟨label, s, hlabel, hface⟩
    have hget : (e'.tree .label)[groupKey label id]? = some s :=
      (hr.indexes.byGroup .node _ s).mpr ⟨id, label, rfl, trivial, hface⟩
    obtain ⟨n, hn, hkey, -⟩ := hr.label_entry hget
    refine ⟨n, mem_filterMap.mpr ⟨(groupKey label id, s),
      mem_filter.mpr ⟨?_, ?_⟩, hn⟩, (groupKey_inj hkey).2.symm⟩
    · exact Std.ExtTreeMap.mem_toList_iff_getElem?_eq_some.mpr hget
    · exact (inRange_groupKey hl).mpr hlabel

theorem Rebuilt.nodup_found (hr : Rebuilt h e') (hu : Unique h) (start stop : Bytes) :
    ((found h liveNode (e'.tree .label) start stop).map (·.nodeId)).Nodup := by
  have hkeys : ((e'.tree .label).toList.map Prod.fst).Nodup := by
    rw [Std.ExtTreeMap.map_fst_toList_eq_keys]
    exact Std.ExtTreeMap.nodup_keys
  have hpairs := (pairwise_map.mp hkeys).filter fun x =>
    (compare start x.1).isLE && (compare x.1 stop).isLT
  refine pairwise_map.mpr (List.Pairwise.filterMap _ ?_ (hpairs.imp_of_mem
    fun hx hy hne => (⟨hx, hy, hne⟩ : _ ∧ _ ∧ _)))
  rintro ⟨key, s⟩ ⟨key', s'⟩ ⟨hx, hy, hne⟩ n hn n' hn' heq
  apply hne
  obtain ⟨m, hm, rfl, hface⟩ := hr.label_entry
    (Std.ExtTreeMap.mem_toList_iff_getElem?_eq_some.mp (mem_of_mem_filter hx))
  obtain ⟨m', hm', rfl, hface'⟩ := hr.label_entry
    (Std.ExtTreeMap.mem_toList_iff_getElem?_eq_some.mp (mem_of_mem_filter hy))
  rw [hm] at hn
  rw [hm'] at hn'
  cases hn
  cases hn'
  -- the same id, so the same slot and the same node
  rw [heq] at hface
  obtain rfl := hu hface hface'
  rw [hm] at hm'
  cases hm'
  rfl

end Scan

/-! ## A crash -/

def SessionEvent.isPlain : SessionEvent → Bool
  | .call _ c => c.isPlain
  | _ => true

/-- The engine shows what the ledger has: the nodes and edges that were
created and not deleted, and no others. -/
structure Sees (l : Ledger) (e : GraphStorageEngine) : Prop where
  node : ∀ id label, l .node id = some (label, false) →
    ∃ n, answer (getNode .none id) e = .ok (.ok (some n)) ∧ n.nodeId = id ∧
      n.labelId = label ∧ n.isDeleted = false
  noNode : ∀ id, (∀ label, l .node id ≠ some (label, false)) →
    answer (getNode .none id) e = .ok (.ok none)
  edge : ∀ id type, l .edge id = some (type, false) →
    ∃ g, answer (getEdge .none id) e = .ok (.ok (some g)) ∧ g.edgeId = id ∧
      g.typeId = type ∧ g.isDeleted = false
  noEdge : ∀ id, (∀ type, l .edge id ≠ some (type, false)) →
    answer (getEdge .none id) e = .ok (.ok none)
  labels : ∀ labelId : UInt64, ∃ ns,
    answer (scanNodesByLabel .none labelId.toNat) e = .ok (.ok ns) ∧ (ns.map (·.nodeId)).Nodup ∧
      ∀ id, id ∈ ns.map (·.nodeId) ↔
        ∃ label, label.toNat = labelId.toNat ∧ l .node id = some (label, false)

theorem Rebuilt.sees (hr : Rebuilt h e') (hs : SessionOk e h l)
    (hc : Complete h e.tree) : Sees l e' := by
  refine ⟨fun id label hl => hr.getNode_live hs hl, fun id hl => ?_,
    fun id type hl => hr.getEdge_live hs hl, fun id hl => ?_,
    fun labelId => ⟨found h liveNode (e'.tree .label)
      (labelIndexKey labelId.toNat 0) (labelIndexKey labelId.toNat maxId), ?_,
      hr.nodup_found hc.unique _ _, fun id => ?_⟩⟩
  · rw [answer, getNode_absent (hr.not_live hs hc hl)]
    rfl
  · rw [answer, getEdge_none hr.shows (hr.linked.readable .edge),
      show (e'.tree .edge)[idKey id]? = none from hr.not_live hs hc hl]
    rfl
  · rw [answer, scanNodesByLabel_none hr.shows (hr.linked.readable .label)]
    rfl
  · rw [hr.mem_found labelId.toNat_lt]
    refine exists_congr fun label => ?_
    rw [← hs.booked, booked_eq_some hs.linked]
    constructor
    · rintro ⟨s, hlabel, hface⟩
      exact ⟨hlabel, s, hc.byId .node id label false s hface, hface⟩
    · rintro ⟨hlabel, s, -, hface⟩
      exact ⟨s, hlabel, hface⟩

theorem PropsDistinct.of_isPlain {v : SessionEvent} (hv : v.isPlain = true) :
    PropsDistinct v.properties := by
  have hnil : v.properties = [] := by
    cases v with
    | call f c => cases c <;> first | rfl | cases hv
    | flush pageId => rfl
    | sync => rfl
  rw [hnil]
  exact nofun

/-! ## Pages that the log covers -/

/-- `put_node` logs the image of the page it writes. So after it every page is
covered, if before it they were all in the file. -/
theorem covered_of_putNode {e e' : GraphStorageEngine} {h : Heap} {f : Faults}
    (hs : Shows e.store h) (hb : BelowMark e h) (hsaved : ∀ q, e.store.file q = e.store.page q ∧
      pageLsnOf (e.store.file q) ≤ e.lastLsn)
    {node : NodeRecord} {slot : SlotRef}
    (hok : putNode f node e = .ok (.ok slot, e')) (q : Nat) : Covered e' q := by
  obtain ⟨p, e₁, hput⟩ := putNode_ok hs hb hok
  obtain ⟨img, lsn, lsn', txid, -, hw, hlog⟩ := hput.written
  have hpage₁ : e₁.store.page = e.store.page := hput.placed.page.1
  have hfile₁ : e₁.store.file = e.store.file := by
    cases hput.placed with
    | found hroom hp => rfl
    | fresh hroom hnew => rfl
  have hlt : e.lastLsn < lsn := (hlog.above _ mem_cons_self).1
  by_cases hq : q = p
  · subst hq
    have hfile : pageLsnOf (e'.store.file q) ≤ e.lastLsn := by
      refine Nat.le_trans hw.fileLsn ?_
      rw [hfile₁]
      exact (hsaved q).2
    refine .inr ⟨⟨lsn, txid, .pageInsert, some (q, img)⟩, ?_,
      stampPage img lsn, ?_, ?_, Nat.lt_of_le_of_lt hfile hlt⟩
    · rw [hlog.log]
      exact mem_append_right _ mem_cons_self
    · have hcom : committed e'.log txid = true := by
        rw [hlog.log]
        exact committed_self e.log [_] lsn' txid
      rw [redoImage, if_neg]
      · rfl
      · rw [not_or, not_not, not_not]
        exact ⟨rfl, hcom⟩
    · rw [hw.page, update_self]
  · left
    rw [hw.file q hq, hw.page, update_of_ne hq, hfile₁, hpage₁]
    exact (hsaved q).1

/-! ## What is seen after a crash -/

theorem crash_shows_ledger {events : List SessionEvent}
    (hg : Guarded sessionStep (fun e v => v.returns e ∧ v.isPlain) .init events)
    (hcov : ∀ p, Covered (run sessionStep .init events) p)
    (htrees : TreesOk (run sessionStep .init events).calls)
    (hrebuild : TreesOk (after (reopen .none) (run sessionStep .init events)).calls) :
    ∃ e', reopen .none (run sessionStep .init events) = .ok (.ok (), e') ∧ Sees (ledger events) e' ∧
      TreesHold (run sessionStep .init events) ∧ TreesHold e' := by
  obtain ⟨h, hs, hc⟩ := session_ok (hg.mono fun e v hv => hv.1)
  have hc := hc (hg.of_mem fun e v hv => .of_isPlain hv.2)
  obtain ⟨e', hok, hr⟩ := reopen_rebuilt hs.stored hs.logOk hc.unique hcov
  rw [after_eq hok] at hrebuild
  exact ⟨e', hok, hr.sees hs hc, (recorded_session events).treesHold htrees,
    (reopen_recorded hok).treesHold hrebuild⟩

/-- One node that is in the log and not in the file. -/
theorem crash_shows_ledger_put_node :
    let events : List SessionEvent :=
      [.call .none (.putNode (NodeRecord.new 1 7))]
    ∃ e', reopen .none (run sessionStep .init events) = .ok (.ok (), e') ∧
      Sees (ledger events) e' ∧
      TreesHold (run sessionStep .init events) ∧ TreesHold e' := by
  intro events
  have hret : (SessionEvent.call .none (.putNode (NodeRecord.new 1 7))).returns
      .init = true := by decide +kernel
  have hfirst : firsts (run sessionStep .init events).calls = true ∧
      firsts (after (reopen .none) (run sessionStep .init events)).calls = true := by
    decide +kernel
  have hg : Guarded sessionStep (fun e v => v.returns e ∧ v.isPlain) .init events :=
    ⟨⟨hret, rfl⟩, trivial⟩
  have hcov : ∀ q, Covered (run sessionStep .init events) q := by
    intro q
    obtain ⟨slot, e₁, hput, hpure⟩ := bind_ok.mp (sessionStep_eq hret)
    have hcov := covered_of_putNode sessionOk_init.stored.shows
      sessionOk_init.stored.pages.below (fun _ => ⟨rfl, Nat.le_refl _⟩) hput q
    rw [(pure_ok.mp hpure).2] at hcov
    exact hcov
  clear_value events
  exact crash_shows_ledger hg hcov (treesOk_of_firsts hfirst.1) (treesOk_of_firsts hfirst.2)

/-- `put_edge` returns, and the page of the edge does not reach the file. -/
theorem crash_loses_edge : ¬ ∀ events : List SessionEvent,
      Guarded sessionStep (fun e v => v.returns e ∧ v.isPlain) .init events →
      ∃ e', reopen .none (run sessionStep .init events) = .ok (.ok (), e') ∧
        Sees (ledger events) e' := by
  intro hclaim
  let events : List SessionEvent :=
    [.call .none (.putEdge (EdgeRecord.new 1 7 0 0 .null .null))]
  have hruns : events.all (·.returns .init) = true ∧
      answer (getEdge .none 1)
        (after (reopen .none) (run sessionStep .init events)) =
          .ok (.ok none) := by
    decide +kernel
  obtain ⟨hret, hlost⟩ := hruns
  obtain ⟨e', hok, hsees⟩ := hclaim events
    ⟨⟨all_eq_true.mp hret _ mem_cons_self, rfl⟩, trivial⟩
  obtain ⟨g, hg, -⟩ := hsees.edge 1 7 (by decide)
  rw [after_eq hok, hg] at hlost
  cases hlost

/-! ## What is seen in a session -/

/-- A record behind the index of ids reads as the ledger has it. -/
theorem Linked.read_booked {h : Heap} {tree : Trees} (hl : Linked h tree)
    {α : Type} {decode : Bytes → Option α} {view : α → UInt64 × UInt32 × Bool}
    (kind : EntityKind) (hview : ∀ r id group d,
      face r = .entity kind id group d → (decode r).map view = some (id, group, d))
    (id : UInt64) : (((tree kind.idTree)[idKey id]?).bind fun s => (h.get s).bind decode).map
      view = (booked h tree kind id).map (id, ·) := by
  cases hb : booked h tree kind id with
  | none => rw [(booked_eq_none hl).mp hb]; rfl
  | some entry =>
    obtain ⟨s, hidx, hface⟩ := (booked_eq_some hl).mp hb
    obtain ⟨r, hget, hf⟩ := Option.map_eq_some_iff.mp hface
    rw [hidx, Option.bind_some, hget]
    exact hview r id _ _ hf

theorem SessionOk.reads {e : GraphStorageEngine} {h : Heap} {l : Ledger} (hs : SessionOk e h l)
    (id : UInt64) :
    (∃ n, answer (getNode .none id) e = .ok (.ok n) ∧
      n.map (fun r => (r.nodeId, r.labelId, r.isDeleted)) = (l .node id).map (id, ·)) ∧
    ∃ g, answer (getEdge .none id) e = .ok (.ok g) ∧
      g.map (fun r => (r.edgeId, r.typeId, r.isDeleted)) = (l .edge id).map (id, ·) := by
  rw [answer, answer, getNode_none hs.stored.shows (hs.linked.readable .node),
    getEdge_none hs.stored.shows (hs.linked.readable .edge), ← hs.booked]
  refine ⟨⟨_, rfl, hs.linked.read_booked .node (fun r id label d hf => ?_) id⟩,
    ⟨_, rfl, hs.linked.read_booked .edge (fun r id type d hf => ?_) id⟩⟩
  · obtain ⟨n, hn, rfl, rfl, rfl, -⟩ := decode_of_face_node hf
    rw [hn]
    rfl
  · obtain ⟨g, hg, rfl, rfl, rfl, -⟩ := decode_of_face_edge hf
    rw [hg]
    rfl

/-- At every point of a session whose calls return, an id is answered with what
the ledger has for it, and the record says whether it was deleted. -/
theorem session_reads_ledger {events : List SessionEvent}
    (hg : Guarded sessionStep (fun e v => v.returns e) .init events)
    (htrees : TreesOk (run sessionStep .init events).calls) (id : UInt64) :
    let e := run sessionStep .init events
    TreesHold e ∧ (∃ n, answer (getNode .none id) e = .ok (.ok n) ∧
      n.map (fun r => (r.nodeId, r.labelId, r.isDeleted)) =
        (ledger events .node id).map (id, ·)) ∧
    ∃ g, answer (getEdge .none id) e = .ok (.ok g) ∧
      g.map (fun r => (r.edgeId, r.typeId, r.isDeleted)) =
        (ledger events .edge id).map (id, ·) := by
  intro e
  obtain ⟨h, hs, -⟩ := session_ok hg
  exact ⟨(recorded_session events).treesHold htrees, hs.reads id⟩

theorem session_reads_ledger_created :
    let events : List SessionEvent := [.call .none (.putNode (NodeRecord.new 1 7))]
    TreesHold (run sessionStep .init events) ∧
      ∃ n, answer (getNode .none 1) (run sessionStep .init events) = .ok (.ok n) ∧
        n.map (fun r => (r.nodeId, r.labelId, r.isDeleted)) =
          (ledger events .node 1).map (1, ·) := by
  intro events
  have h := @session_reads_ledger events ⟨by decide +kernel, trivial⟩
    (treesOk_of_firsts (by decide +kernel)) 1
  exact ⟨h.1, h.2.1⟩

end RGraph.Graph
