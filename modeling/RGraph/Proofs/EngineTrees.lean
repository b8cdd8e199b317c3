import RGraph.Lib.OrderedMap
import RGraph.Proofs.BTree
import RGraph.Proofs.BTreeRange
import RGraph.Proofs.EngineFrame

/-!
# The trees behind the engine are the maps of its model

As long as each call on a tree acts on it as on an ordered map (`TreesOk`,
which the call that splits a full branch does not), the four trees of an engine
are the maps that its model has in their place: a lookup finds the same slot,
and a range the same entries in the same order (`TreesHold`).
-/

namespace RGraph.Graph

open RGraph.Lib RGraph.Storage RGraph.Wal RGraph.Index Call List

/-! ## Values -/

theorem decodeSlotRef_slotBytes (slot : SlotRef) : decodeSlotRef (slotBytes slot) = some slot := by
  have hlen : (slotBytes slot).length = 4 := length_natToBE 4 _
  have hlt : slot.raw.toNat < 256 ^ 4 := slot.raw.toNat_lt
  rw [decodeSlotRef, if_neg (by omega), take_of_length_le (by omega), slotBytes,
    beToNat_natToBE 4 _ hlt, UInt32.ofNat_toNat]

/-! ## One tree -/

/-- The tree has the entries of the map. -/
def Mirrors (t : BPlusTree) (m : Std.ExtTreeMap Bytes SlotRef) : Prop :=
  Denotes t fun key => m[key]?.map slotBytes

/-- On this tree, the call acts as on an ordered map. -/
def TreeOp.Ok (t : BPlusTree) : TreeOp → Prop
  | .insert key slot => InsertsOk t key (slotBytes slot)
  | .delete key => DeletesOk t key

section Mirrors

variable {t : BPlusTree} {m : Std.ExtTreeMap Bytes SlotRef}

theorem mirrors_new (config : BPlusTreeConfig) : Mirrors (.new config) ∅ :=
  ⟨[], (leafTree_new config).represents, fun k v => by simp⟩

theorem Mirrors.call (h : Mirrors t m) {op : TreeOp} (hok : op.Ok t) :
    Mirrors (op.onTree t) (op.onMap m) := by
  cases op with
  | insert key slot =>
    obtain ⟨t', hins, hden⟩ := hok _ h
    rw [TreeOp.onTree, after_eq hins, Mirrors]
    convert hden using 1
    funext k
    rw [TreeOp.onMap, getElem?_insert_eq, Function.update_apply]
    split <;> rfl
  | delete key =>
    obtain ⟨t', hdel, hden⟩ := hok _ h
    rw [TreeOp.onTree, after_eq hdel, Mirrors]
    convert hden using 1
    funext k
    rw [TreeOp.onMap, getElem?_erase_eq, Function.update_apply]
    split <;> rfl

theorem Mirrors.lookupSlot (h : Mirrors t m) (key : Bytes) :
    lookupSlot t key = .ok (.ok m[key]?) := by
  obtain ⟨es, ⟨rows, hwf, rfl⟩, hmem⟩ := h
  obtain ⟨d, hd, hsub⟩ := hwf.subtree
  rcases hsub.search hd.le key with ⟨c, i, page, es, v, hs, hpage, hleaf, hi, hv⟩ | ⟨hs, hno⟩
  · obtain ⟨slot, hslot, rfl⟩ := Option.map_eq_some_iff.mp ((hmem key v).mp hv)
    have hkv := hleaf.decode_getElem? i
    rw [hi] at hkv
    obtain ⟨kv, hget, hdec⟩ := Option.bind_eq_some_iff.mp hkv
    simp only [Graph.lookupSlot, hs, Res.ok_bind, hpage, hleaf.holds.key, hget, hdec, Res.unwrap,
      decodeSlotRef_slotBytes, hslot]
  · have hnone : m[key]? = none := by
      cases hm : m[key]? with
      | none => rfl
      | some slot =>
        exact absurd ((hmem key _).mpr (Option.map_eq_some_iff.mpr ⟨slot, hm, rfl⟩)) (hno _)
    rw [Graph.lookupSlot, hs, Res.ok_bind, hnone]

/-- The entries of the tree are those of the map, in the same order. -/
theorem entries_eq_toList {es : List Entry} (h : Represents t es)
    (hmem : ∀ k v, (k, v) ∈ es ↔ m[k]?.map slotBytes = some v) :
    es = m.toList.map fun x => (x.1, slotBytes x.2) := by
  have hsorted : (m.toList.map fun x => (x.1, slotBytes x.2)).Pairwise
      fun a b : Entry => a.1 < b.1 :=
    pairwise_map.mpr (Std.ExtTreeMap.ordered_keys_toList.imp compare_eq_lt.mp)
  have hnodup : ∀ {l : List Entry}, l.Pairwise (fun a b => a.1 < b.1) → l.Nodup :=
    fun hl => hl.imp fun hlt heq => (heq ▸ hlt).false
  refine Perm.eq_of_pairwise (fun a b _ _ hab hba => absurd hab hba.not_gt) h.sorted hsorted ?_
  rw [perm_ext_iff_of_nodup (hnodup h.sorted) (hnodup hsorted)]
  rintro ⟨k, v⟩
  rw [hmem, mem_map, Option.map_eq_some_iff]
  constructor
  · rintro ⟨slot, hget, rfl⟩
    exact ⟨(k, slot), Std.ExtTreeMap.mem_toList_iff_getElem?_eq_some.mpr hget, rfl⟩
  · rintro ⟨⟨k', slot⟩, hx, heq⟩
    cases heq
    exact ⟨slot, Std.ExtTreeMap.mem_toList_iff_getElem?_eq_some.mp hx, rfl⟩

theorem Mirrors.rangeSearch (h : Mirrors t m) (start stop : Bytes) : t.rangeSearch start stop =
      .ok ((rangeSearch m start stop).map fun x => (x.1, slotBytes x.2)) := by
  obtain ⟨es, hes, hmem⟩ := h
  have hlist := entries_eq_toList hes hmem
  obtain ⟨rows, hwf, rfl⟩ := hes
  rw [hwf.rangeSearch, hlist, filter_map, Graph.rangeSearch]
  congr 2
  refine filter_congr fun x _ => ?_
  rw [Function.comp_apply, InRange, Bool.decide_and, isLE_compare, isLT_compare]

end Mirrors

/-! ## The four trees -/

/-- Each call acts as on an ordered map, on the tree it finds. -/
def TreesOk (calls : List (EngineTree × TreeOp)) : Prop :=
  Guarded treeStep (fun ts c => c.2.Ok (ts c.1)) (fun _ => BPlusTree.new .default) calls

/-- The trees behind the engine are the maps of its model. -/
structure TreesHold (e : GraphStorageEngine) : Prop where
  mirrors : ∀ t, Mirrors (treesAfter e.calls t) (e.tree t)
  lookup : ∀ t key, lookupSlot (treesAfter e.calls t) key = .ok (.ok (e.tree t)[key]?)
  range : ∀ t start stop, (treesAfter e.calls t).rangeSearch start stop =
    .ok ((rangeSearch (e.tree t) start stop).map fun x => (x.1, slotBytes x.2))

def mapStep (ms : EngineTree → Std.ExtTreeMap Bytes SlotRef) (c : EngineTree × TreeOp) :
    EngineTree → Std.ExtTreeMap Bytes SlotRef :=
  Function.update ms c.1 (c.2.onMap (ms c.1))

/-- The maps are those that the listed calls make. -/
def Recorded (e : GraphStorageEngine) : Prop := e.tree = run mapStep (fun _ => ∅) e.calls

theorem mirrors_run {ts : EngineTree → BPlusTree}
    {ms : EngineTree → Std.ExtTreeMap Bytes SlotRef} {calls : List (EngineTree × TreeOp)}
    (hstart : ∀ t, Mirrors (ts t) (ms t))
    (hok : Guarded treeStep (fun ts c => c.2.Ok (ts c.1)) ts calls) (t : EngineTree) :
    Mirrors (run treeStep ts calls t) (run mapStep ms calls t) := by
  induction calls generalizing ts ms with
  | nil => exact hstart t
  | cons c calls ih =>
    refine ih (fun t' => ?_) hok.2
    by_cases ht : t' = c.1
    · subst ht
      rw [treeStep, mapStep, Function.update_self, Function.update_self]
      exact (hstart c.1).call hok.1
    · rw [treeStep, mapStep, Function.update_of_ne ht, Function.update_of_ne ht]
      exact hstart t'

theorem Recorded.treesHold {e : GraphStorageEngine} (hr : Recorded e) (hok : TreesOk e.calls) :
    TreesHold e := by
  have hm : ∀ t, Mirrors (treesAfter e.calls t) (e.tree t) := by
    intro t
    rw [hr]
    exact mirrors_run (fun _ => mirrors_new _) hok t
  exact ⟨hm, fun t key => (hm t).lookupSlot key, fun t start stop => (hm t).rangeSearch start stop⟩

/-- One insertion into a tree, of a key that fits a page. -/
def TreeOp.isFirst : TreeOp → Bool
  | .insert key _ => key.length ≤ 2042
  | .delete _ => false

theorem TreeOp.ok_new {op : TreeOp} (h : op.isFirst = true) : op.Ok (.new .default) := by
  cases op with
  | insert key slot =>
    have hkey : key.length ≤ 2042 := of_decide_eq_true h
    have hlen : (slotBytes slot).length = 4 := length_natToBE 4 _
    refine insertsOk_new .default (e := (key, slotBytes slot)) ?_
    show 2 + key.length + (slotBytes slot).length ≤ 2048
    omega
  | delete key => cases h

/-- At most one insertion into each tree. -/
def firsts (calls : List (EngineTree × TreeOp)) : Bool :=
  (calls.map Prod.fst).Nodup && calls.all (·.2.isFirst)

theorem guarded_firsts {ts : EngineTree → BPlusTree} {calls : List (EngineTree × TreeOp)}
    (hnew : ∀ c ∈ calls, ts c.1 = .new .default) (hdiff : (calls.map Prod.fst).Nodup)
    (hfirst : ∀ c ∈ calls, c.2.isFirst) :
    Guarded treeStep (fun ts c => c.2.Ok (ts c.1)) ts calls := by
  induction calls generalizing ts with
  | nil => trivial
  | cons c calls ih =>
    rw [map_cons, nodup_cons] at hdiff
    have hfree : c.2.Ok (ts c.1) := by
      rw [hnew c mem_cons_self]
      exact TreeOp.ok_new (hfirst c mem_cons_self)
    refine ⟨hfree, ih (fun d hd => ?_) hdiff.2 fun d hd => hfirst d (mem_cons_of_mem _ hd)⟩
    rw [treeStep, Function.update_of_ne, hnew d (mem_cons_of_mem _ hd)]
    exact fun heq => hdiff.1 (heq ▸ mem_map_of_mem hd)

theorem treesOk_of_firsts {calls : List (EngineTree × TreeOp)} (h : firsts calls = true) :
    TreesOk calls := by
  rw [firsts, Bool.and_eq_true, decide_eq_true_iff, all_eq_true] at h
  exact guarded_firsts (fun _ _ => rfl) h.1 h.2

/-! ## The list of calls is kept -/

section Kept

variable {e e' : GraphStorageEngine} {f : Faults}

theorem recorded_init : Recorded .init := rfl

theorem Recorded.callTree (h : Recorded e) (t : EngineTree) (op : TreeOp) :
    Recorded (e.callTree t op) := by
  show Function.update e.tree t (op.onMap (e.tree t)) = run mapStep _ (e.calls ++ [(t, op)])
  rw [run_append, ← h]
  rfl

/-- What is recorded before a step is recorded after it. -/
def KeepsRecord (e e' : GraphStorageEngine) : Prop := Recorded e → Recorded e'

instance : IsPreorder _ KeepsRecord where
  refl _ := id
  trans _ _ _ h h' hr := h' (h hr)

theorem ending_keepsRecord (txid : Nat) : Ending txid KeepsRecord where
  allocate _ _ _ _ := id
  push _ _ _ := id
  write _ _ _ _ _ := id
  tree _ _ _ h := h.callTree _ _
  append _ _ _ _ := id
  lock _ _ := id
  image _ _ _ := id
  commit _ _ := id
  endTx _ := id

theorem GraphCall.run_recorded {c : GraphCall} {r : Except StorageError Unit}
    (h : Recorded e) (hok : c.run f e = .ok (r, e')) : Recorded e' := by
  rcases run_frame hok with hR | hR
  · exact hR KeepsRecord (ending_keepsRecord _).toWorking h
  · exact hR KeepsRecord (ending_keepsRecord _) h

theorem Recorded.sessionStep (h : Recorded e) (v : SessionEvent) : Recorded (sessionStep e v) := by
  rw [Graph.sessionStep]
  split
  · next r e₁ hrun =>
    cases v with
    | call f c => exact GraphCall.run_recorded h hrun
    | flush pageId =>
      cases hrun
      exact h
    | sync =>
      cases hrun
      exact h
  · exact h

theorem recorded_session (events : List SessionEvent) : Recorded (run sessionStep .init events) :=
  have hg : Guarded sessionStep (fun _ _ => True) .init events := .of_forall (fun _ _ => trivial) ..
  run_inv (fun _ v h _ => h.sessionStep v) recorded_init hg

theorem Recorded.rebuildSlot {s : GraphStorageEngine × PageKinds} (h : Recorded s.1)
    (pageId slotIdx : Nat) (bytes : Bytes) : Recorded (rebuildSlot pageId slotIdx bytes s).1 := by
  have hset : ∀ {e : GraphStorageEngine} (d : Bool) (t t' : EngineTree) (op op' : TreeOp),
      Recorded e → Recorded (if d then e else (e.callTree t op).callTree t' op') := by
    intro e d t t' op op' he
    split
    · exact he
    · exact (he.callTree t op).callTree t' op'
  rw [Graph.rebuildSlot]
  dsimp only
  cases (NodeRecord.decode bytes).filter (·.nodeId != 0) with
  | none =>
    cases (EdgeRecord.decode bytes).filter (·.edgeId != 0) with
    | none => exact h
    | some edge => exact hset _ _ _ _ _ h
  | some node =>
    cases (EdgeRecord.decode bytes).filter (·.edgeId != 0) with
    | none => exact hset _ _ _ _ _ h
    | some edge => exact hset _ _ _ _ _ (hset _ _ _ _ _ h)

theorem Recorded.rebuildSlots {pageId : Nat} {page : SlottedPage} {n i : Nat}
    {s s' : GraphStorageEngine × PageKinds} (h : Recorded s.1)
    (hok : rebuildSlots pageId page n i s = .ok s') : Recorded s'.1 := by
  induction n generalizing i s with
  | zero =>
    cases hok
    exact h
  | succ n ih =>
    rw [Graph.rebuildSlots] at hok
    cases hread : page.read i with
    | error x =>
      rw [hread] at hok
      cases hok
    | ok bytes =>
      rw [hread, Res.ok_bind] at hok
      cases bytes with
      | none => exact ih h hok
      | some bytes => exact ih (h.rebuildSlot pageId i bytes) hok

theorem Recorded.trackPage (h : Recorded e) (k : RecordKind) (pageId : Nat) (found : Bool) :
    Recorded (trackPage e k pageId found) := by
  rw [Graph.trackPage]
  split <;> exact h

theorem rebuildPage_recorded (pageId : Nat) : Frame KeepsRecord (rebuildPage f pageId) := by
  refine .bind (readPage_frame pageId) fun page e r e' hok hr => ?_
  rw [get_bind] at hok
  cases hslots : Graph.rebuildSlots pageId page page.header.slotCount 0 (e, ⟨false, false⟩) with
  | error x =>
    rw [hslots] at hok
    cases hok
  | ok s =>
    rw [hslots, lift_bind] at hok
    cases hok
    exact ((Recorded.rebuildSlots hr hslots).trackPage .node _ _).trackPage .edge _ _

theorem rebuildPages_recorded (pages : List Nat) : Frame KeepsRecord (rebuildPages f pages) := by
  induction pages with
  | nil => exact .pure _
  | cons pageId rest ih => exact .bind (rebuildPage_recorded pageId) fun _ => ih

theorem reopen_recorded {r : Except StorageError Unit} (hok : reopen f e = .ok (r, e')) :
    Recorded e' :=
  rebuildPages_recorded _ _ _ _ hok recorded_init

end Kept

end RGraph.Graph
