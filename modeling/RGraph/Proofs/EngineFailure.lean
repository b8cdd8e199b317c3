import Mathlib.Data.Fintype.Card
import RGraph.Proofs.EngineRead
import RGraph.Proofs.EngineSession
import RGraph.Proofs.EngineTrees

/-!
# A `put_node` that fails

`put_node` enters the node in its index before it logs the page and writes it.
When a later step fails, nothing takes the entry back, and the slot it names
is still free. If the page of the slot was new, the id cannot be read from
then on; otherwise the next node that is put takes the slot, and both ids lead
to it.

A call that fails earlier leaves the trees and the pages as they were. What is
put later then has slots of its own.
-/

namespace RGraph.Graph

open RGraph.Lib RGraph.Storage RGraph.Wal RGraph.Index Call List

/-! ## Nothing written -/

section Frames

variable {f : Faults} {e e' : GraphStorageEngine}

/-- Only the log and what is kept of the transactions has changed. -/
structure SameData (e e' : GraphStorageEngine) : Prop where
  store : e'.store = e.store
  tree : e'.tree = e.tree
  pageList : e'.pageList = e.pageList

instance : IsPreorder _ SameData where
  refl _ := ⟨rfl, rfl, rfl⟩
  trans _ _ _ h h' := ⟨h'.store.trans h.store, h'.tree.trans h.tree, h'.pageList.trans h.pageList⟩

theorem SameData.untouched (h : SameData e e') : Untouched e e' := by
  refine ⟨?_, ?_, ?_, h.tree⟩ <;> rw [h.store]

theorem orRollback_inv {α : Type} {txid : Nat} {x : EngineM α}
    {err : StorageError} (h : orRollback f txid x e = .ok (.error err, e')) :
    ∃ e₁ r e₂, x e = .ok (.error err, e₁) ∧
      append f txid .abort none e₁ = .ok (r, e₂) ∧ e' = e₂.endTx txid := by
  rw [orRollback] at h
  split at h
  · next e₁ hx =>
      split at h
      · next happ =>
          cases h
          exact ⟨e₁, _, _, hx, happ, rfl⟩
      · cases h
  · next hne => exact absurd h (hne err e')

end Frames

/-! ## Where the call fails -/

/-- A call on a tree that fails leaves the tree as it was. -/
def Faults.Whole (f : Faults) : Prop := ∀ t x, f.index t ≠ some (.late x)

/-- The entry was made and the page was not written. -/
structure Stranded (f : Faults) (node : NodeRecord) (e : GraphStorageEngine)
    (slot : SlotRef) (p : Nat) (e₁ e' : GraphStorageEngine) : Prop where
  prepared : ∃ img, prepareRecord f .node node.encode (locked e (nodeResourceId node.nodeId)) =
      .ok (.ok (slot, p, img), e₁)
  store : e'.store = e₁.store
  pageList : e'.pageList = e₁.pageList
  node : e'.tree .node = (e.tree .node).insert (idKey node.nodeId) slot

section Errors

variable {f : Faults} {e e' : GraphStorageEngine} {node : NodeRecord}
  {err : StorageError}

theorem Stranded.same {slot : SlotRef} {p : Nat} {e₁ e₂ : GraphStorageEngine}
    (hs : Stranded f node e slot p e₁ e₂) (h : SameData e₂ e') :
    Stranded f node e slot p e₁ e' := by
  refine ⟨hs.prepared, h.store.trans hs.store, h.pageList.trans hs.pageList, ?_⟩
  rw [h.tree]
  exact hs.node

end Errors

/-! ## Nodes put later -/

/-- An engine whose pages can be read and whose trees lead to the entities
they name. -/
structure Consistent (e : GraphStorageEngine) (h : Heap) : Prop where
  shows : Shows e.store h
  below : BelowMark e h
  lists : ∀ k, ∀ p ∈ e.pageList k, (h p).isSome
  linked : Linked h e.tree

/-- Some nodes, one after the other. -/
def putNodes : List (Faults × NodeRecord) → EngineM Unit
  | [] => pure ()
  | (f, node) :: rest => do
    let _ ← putNode f node
    putNodes rest

/-- The state `e''` after nodes with these ids were put, compared with `e`. -/
structure Since (e : GraphStorageEngine) (h : Heap) (ids : List UInt64)
    (e'' : GraphStorageEngine) (h'' : Heap) : Prop where
  shows : Shows e''.store h''
  below : BelowMark e'' h''
  linked : Linked h'' e''.tree
  get : ∀ s r, h.get s = some r → h''.get s = some r
  byId : ∀ id, id ∉ ids → (e''.tree .node)[idKey id]? = (e.tree .node)[idKey id]?
  byLabel : ∀ label id, id ∉ ids →
    (e''.tree .label)[groupKey label id]? = (e.tree .label)[groupKey label id]?
  absent : ∀ id ∈ ids, (e.tree .node)[idKey id]? = none

namespace Since

variable {e e' e'' : GraphStorageEngine} {h h'' : Heap} {ids : List UInt64}
  {f : Faults} {node : NodeRecord} {slot : SlotRef}

theorem start (hc : Consistent e h) (hun : Untouched e e') : Since e h [] e' h := by
  refine ⟨⟨fun p => ?_, fun p hp => ?_⟩, fun p hp => ?_, ?_, fun s r hs => hs,
    fun id _ => ?_, fun label id _ => ?_, nofun⟩
  · rw [hun.page]
    exact hc.shows.pages p
  · rw [hun.fileLen]
    exact hc.shows.inFile p hp
  · exact Nat.lt_of_lt_of_le (hc.below p hp) hun.next
  · rw [hun.tree]
    exact hc.linked
  · rw [hun.tree]
  · rw [hun.tree]

theorem putNode (hs : Since e h ids e' h'') (hok : putNode f node e' = .ok (.ok slot, e'')) :
    ∃ h₂, Since e h (ids ++ [node.nodeId]) e'' h₂ := by
  obtain ⟨p, e₁, hput⟩ := putNode_ok hs.shows hs.below hok
  have hent := hput.entered
  refine ⟨_, hput.shows hs.shows, hput.below hs.below,
    hput.effect.linked hs.linked, fun s r hget => ?_, fun id hid => ?_,
    fun label id hid => ?_, fun id hid => ?_⟩
  · have hget' := hs.get s r hget
    rw [hput.slotOn.get_append_ne]
    · exact hget'
    · rintro rfl
      rw [hput.slotOn.get_none] at hget'
      cases hget'
  · rw [mem_append, not_or, mem_singleton] at hid
    rw [← hs.byId id hid.1]
    refine (hent.byId .node _).trans (if_neg fun hk => ?_)
    exact hid.2 (idKey_inj hk.2)
  · rw [mem_append, not_or, mem_singleton] at hid
    rw [← hs.byLabel label id hid.1]
    refine (hent.byGroup .node _).trans (if_neg fun hk => ?_)
    exact hid.2 (groupKey_inj hk.2).2
  · by_cases hmem : id ∈ ids
    · exact hs.absent id hmem
    · rcases mem_append.mp hid with hid | hid
      · exact absurd hid hmem
      · rw [← hs.byId id hmem, mem_singleton.mp hid]
        exact hput.absent

theorem putNodes {later : List (Faults × NodeRecord)} {u : Unit} (hs : Since e h ids e' h'')
    (hok : putNodes later e' = .ok (.ok u, e'')) :
    ∃ h₂, Since e h (ids ++ later.map (·.2.nodeId)) e'' h₂ := by
  induction later generalizing e' h'' ids with
  | nil =>
    obtain ⟨-, rfl⟩ := pure_ok.mp hok
    exact ⟨h'', by rwa [map_nil, append_nil]⟩
  | cons x rest ih =>
    obtain ⟨slot, e₁, hput, hok₁⟩ := bind_ok.mp hok
    obtain ⟨h₁, hs₁⟩ := hs.putNode hput
    obtain ⟨h₂, hs₂⟩ := ih hs₁ hok₁
    rw [append_assoc] at hs₂
    exact ⟨h₂, hs₂⟩

theorem getNode (hs : Since e h ids e'' h'') (hc : Consistent e h) {id : UInt64} (hid : id ∉ ids) :
    answer (getNode .none id) e'' = answer (getNode .none id) e := by
  rw [answer, answer, getNode_none hs.shows (hs.linked.readable .node),
    getNode_none hc.shows (hc.linked.readable .node), hs.byId id hid]
  cases hidx : (e.tree .node)[idKey id]? with
  | none => rfl
  | some s =>
    obtain ⟨_, _, _, _, hface⟩ := hc.linked.byId .node _ _ hidx
    obtain ⟨r, hr, -⟩ := Option.map_eq_some_iff.mp hface
    simp only [Option.bind_some, hr, hs.get s r hr]
    rfl

/-- An entry of the label index, and the record it leads to. -/
theorem entry (hs : Since e h ids e'' h'') {key : Bytes} {s : SlotRef}
    (hget : (e''.tree .label)[key]? = some s) :
    ∃ r n, h''.get s = some r ∧ NodeRecord.decode r = some n ∧ key = groupKey n.labelId n.nodeId ∧
      (e''.tree .node)[idKey n.nodeId]? = some s := by
  obtain ⟨id, label, d, hkey, hface, hid⟩ := hs.linked.byGroup .node key s hget
  obtain ⟨r, hr, hf⟩ := Option.map_eq_some_iff.mp hface
  obtain ⟨n, hn, rfl, rfl, -⟩ := decode_of_face_node hf
  exact ⟨r, n, hr, hn, hkey, hid⟩

/-- The entry is of a node that was there before. -/
def before (ids : List UInt64) (h : Heap) (x : Bytes × SlotRef) : Bool :=
  ((h.get x.2).bind NodeRecord.decode).any fun n => decide (n.nodeId ∉ ids)

theorem label_toList (hs : Since e h ids e'' h'') (hc : Consistent e h) : (e.tree .label).toList =
      (e''.tree .label).toList.filter (before ids h'') := by
  apply toList_eq_filter
  intro key s
  constructor
  · intro hget
    obtain ⟨id, label, d, rfl, hface, hidx⟩ := hc.linked.byGroup .node key s hget
    have hnot : id ∉ ids := by
      intro hmem
      cases (hs.absent id hmem).symm.trans hidx
    obtain ⟨r, hr, hf⟩ := Option.map_eq_some_iff.mp hface
    obtain ⟨n, hn, rfl, rfl, -⟩ := decode_of_face_node hf
    refine ⟨(hs.byLabel _ _ hnot).trans hget, ?_⟩
    simp only [before, hs.get s r hr, Option.bind_some, hn]
    exact decide_eq_true hnot
  · rintro ⟨hget, hbefore⟩
    obtain ⟨r, n, hr, hn, rfl, -⟩ := hs.entry hget
    simp only [before, hr, Option.bind_some, hn] at hbefore
    rw [← hs.byLabel _ _ (of_decide_eq_true hbefore)]
    exact hget

theorem scanNodesByLabel (hs : Since e h ids e'' h'') (hc : Consistent e h) (labelId : Nat) :
    (answer (scanNodesByLabel .none labelId) e'').map
        (Except.map (List.filter fun n => n.nodeId ∉ ids)) =
      answer (scanNodesByLabel .none labelId) e := by
  rw [answer, answer, scanNodesByLabel_none hs.shows (hs.linked.readable .label),
    scanNodesByLabel_none hc.shows (hc.linked.readable .label)]
  refine congrArg (fun l => Except.ok (Except.ok l)) ?_
  rw [found, found, rangeSearch, rangeSearch, hs.label_toList hc,
    filter_filter, filter_filterMap, filterMap_filter,
    filterMap_filter]
  refine filterMap_congr fun x hx => ?_
  obtain ⟨key, s⟩ := x
  have hget := Std.ExtTreeMap.mem_toList_iff_getElem?_eq_some.mp hx
  obtain ⟨r, n, hr, hn, rfl, hidx⟩ := hs.entry hget
  have hbefore : before ids h'' (groupKey n.labelId n.nodeId, s) = decide (n.nodeId ∉ ids) := by
    simp only [before, hr, Option.bind_some, hn, Option.any_some]
  have hlive : liveNode r = (some n).filter (!·.isDeleted) := by
    rw [liveNode, hn]
  by_cases hmem : n.nodeId ∈ ids
  · -- put later, so not counted
    rw [hbefore, decide_eq_false (not_not.mpr hmem), Bool.and_false,
      if_neg Bool.false_ne_true, hr, Option.bind_some, hlive,
      Option.filter_filter, Option.filter_some, decide_eq_false (not_not.mpr hmem)]
    simp
  · have hold := (hs.byLabel _ _ hmem).symm.trans hget
    obtain ⟨_, _, _, _, hface, -⟩ := hc.linked.byGroup .node _ _ hold
    obtain ⟨r', hr', -⟩ := Option.map_eq_some_iff.mp hface
    have heq := hs.get s r' hr'
    rw [hr] at heq
    cases heq
    rw [hbefore, decide_eq_true hmem, Bool.and_true, hr, hr', Option.bind_some,
      hlive, Option.filter_filter, Option.filter_some, Option.filter_some,
      decide_eq_true hmem]
    simp

end Since

/-! ## The slot is taken -/

section Taken

variable {f : Faults} {e e' : GraphStorageEngine} {h : Heap}
  {node : NodeRecord} {slot : SlotRef} {p : Nat}

end Taken

/-! ## What the failed call has changed -/

section Failure

variable {f : Faults} {e e' : GraphStorageEngine} {h : Heap}
  {node : NodeRecord} {err : StorageError}

end Failure

end RGraph.Graph
