import RGraph.Proofs.EngineIndex

/-!
# What the engine reads

Without faults around them the reads of the engine are functions of the heap
and the trees, as long as every entry of a tree leads to a page that can be
read.
-/

namespace RGraph.Graph

open RGraph.Lib RGraph.Storage RGraph.Wal RGraph.Index Call

section Reads

variable {e : GraphStorageEngine} {h : Heap}

variable {s : SlotRef}

theorem readRecord_none (hs : Shows e.store h) (hp : (h s.pageId).isSome) :
    readRecord .none s e = .ok (.ok (h.get s), e) := by
  obtain ⟨rs, hrs⟩ := Option.isSome_iff_exists.mp hp
  obtain ⟨pg, hpg, hst⟩ := hs.of_heap hrs
  have hread : readPage .none s.pageId e = .ok (.ok pg, e) := readPage_ok.mpr ⟨rfl, hpg, rfl⟩
  rw [readRecord, bind_of_ok hread, hst.read, Heap.get, hrs]
  rfl

/-- The entries of a tree lead to pages. -/
def Readable (h : Heap) (m : Std.ExtTreeMap Bytes SlotRef) : Prop :=
  ∀ (key : Bytes) (s : SlotRef), m[key]? = some s → (h s.pageId).isSome

theorem Heap.isSome_of_get {r : Bytes} (hget : h.get s = some r) : (h s.pageId).isSome := by
  rw [Heap.get, Option.bind_eq_some_iff] at hget
  obtain ⟨rs, hrs, -⟩ := hget
  rw [hrs]
  rfl

theorem Heap.isSome_of_faceAt {x : Face} (hface : h.faceAt s = some x) : (h s.pageId).isSome := by
  obtain ⟨r, hr, -⟩ := Option.map_eq_some_iff.mp hface
  exact Heap.isSome_of_get hr

theorem Linked.readable {tree : Trees} (hl : Linked h tree) (t : EngineTree) :
    Readable h (tree t) := by
  intro key s hget
  cases t with
  | node =>
    obtain ⟨id, group, d, -, hface⟩ := hl.byId .node key s hget
    exact Heap.isSome_of_faceAt hface
  | edge =>
    obtain ⟨id, group, d, -, hface⟩ := hl.byId .edge key s hget
    exact Heap.isSome_of_faceAt hface
  | label =>
    obtain ⟨id, group, d, -, hface, -⟩ := hl.byGroup .node key s hget
    exact Heap.isSome_of_faceAt hface
  | type =>
    obtain ⟨id, group, d, -, hface, -⟩ := hl.byGroup .edge key s hget
    exact Heap.isSome_of_faceAt hface

variable {id : UInt64}

theorem getNode_absent (hidx : (e.tree .node)[idKey id]? = none) :
    getNode .none id e = .ok (.ok none, e) := by
  rw [getNode, get_bind, ← idKey, hidx]
  rfl

theorem getNode_at (hs : Shows e.store h)
    (hidx : (e.tree .node)[idKey id]? = some s) (hp : (h s.pageId).isSome) : getNode .none id e =
      .ok (.ok ((h.get s).bind NodeRecord.decode), e) := by
  rw [getNode, get_bind, ← idKey, hidx]
  refine (bind_of_ok (readRecord_none hs hp) _).trans ?_
  cases h.get s with
  | none => rfl
  | some r => rfl

theorem getNode_none (hs : Shows e.store h) (hr : Readable h (e.tree .node))
    (id : UInt64) : getNode .none id e = .ok (.ok (((e.tree .node)[idKey id]?).bind fun s =>
        (h.get s).bind NodeRecord.decode), e) := by
  cases hidx : (e.tree .node)[idKey id]? with
  | none => exact getNode_absent hidx
  | some s => exact getNode_at hs hidx (hr _ s hidx)

theorem getEdge_none (hs : Shows e.store h) (hr : Readable h (e.tree .edge))
    (id : UInt64) : getEdge .none id e = .ok (.ok (((e.tree .edge)[idKey id]?).bind fun s =>
        (h.get s).bind EdgeRecord.decode), e) := by
  rw [getEdge, get_bind, show edgeIdKey id.toNat = idKey id from rfl]
  cases hidx : (e.tree .edge)[idKey id]? with
  | none => rfl
  | some s =>
    refine (bind_of_ok (readRecord_none hs (hr _ s hidx)) _).trans ?_
    cases hget : h.get s with
    | none => simp only [Option.bind_some, hget]; rfl
    | some r => simp only [Option.bind_some, hget]; rfl

theorem readLive_none {α : Type} (hs : Shows e.store h)
    (live : Bytes → Option α) {list : List (Bytes × SlotRef)}
    (hlist : ∀ x ∈ list, (h x.2.pageId).isSome) : readLive .none live list e =
      .ok (.ok (list.filterMap fun x => (h.get x.2).bind live), e) := by
  induction list with
  | nil => rfl
  | cons x rest ih =>
    obtain ⟨key, s⟩ := x
    have hrec := readRecord_none hs (hlist _ List.mem_cons_self)
    have hrest := ih fun y hy => hlist y (List.mem_cons_of_mem _ hy)
    rw [readLive, bind_of_ok hrec, bind_of_ok hrest, List.filterMap_cons]
    cases hget : (h.get s).bind live with
    | none => rfl
    | some a => rfl

/-- What a scan of a tree finds. -/
def found {α : Type} (h : Heap) (live : Bytes → Option α)
    (m : Std.ExtTreeMap Bytes SlotRef) (start stop : Bytes) : List α :=
  (rangeSearch m start stop).filterMap fun x => (h.get x.2).bind live

theorem Readable.rangeSearch {m : Std.ExtTreeMap Bytes SlotRef}
    (hr : Readable h m) (start stop : Bytes) :
    ∀ x ∈ rangeSearch m start stop, (h x.2.pageId).isSome := by
  rintro ⟨key, s⟩ hx
  have hmem := List.mem_of_mem_filter hx
  exact hr key s (Std.ExtTreeMap.mem_toList_iff_getElem?_eq_some.mp hmem)

theorem scanNodesByLabel_none (hs : Shows e.store h)
    (hr : Readable h (e.tree .label)) (labelId : Nat) : scanNodesByLabel .none labelId e =
      .ok (.ok (found h liveNode (e.tree .label) (labelIndexKey labelId 0)
        (labelIndexKey labelId maxId)), e) := by
  rw [scanNodesByLabel, get_bind]
  exact readLive_none hs liveNode (hr.rangeSearch _ _)

theorem scanEdgesByType_none (hs : Shows e.store h)
    (hr : Readable h (e.tree .type)) (typeId : Nat) : scanEdgesByType .none typeId e =
      .ok (.ok (found h liveEdge (e.tree .type) (typeIndexKey typeId 0)
        (typeIndexKey typeId maxId)), e) := by
  rw [scanEdgesByType, get_bind]
  exact readLive_none hs liveEdge (hr.rangeSearch _ _)

end Reads

end RGraph.Graph
