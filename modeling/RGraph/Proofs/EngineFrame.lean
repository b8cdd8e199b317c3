import RGraph.Graph.Session

/-!
# Relations that every step of a call keeps

Many facts about a call do not depend on its result: what it leaves alone, or
lets only grow, is related before and after every single step, so it is before
and after the call, however it returns. The steps fall into groups that the
parts of a call are made of: preparing records takes pages, the body of a
transaction also writes pages, changes trees and logs records, and around it
the transaction takes its lock, commits and ends.
-/

namespace RGraph.Graph

open RGraph.Lib RGraph.Storage RGraph.Wal RGraph.Index Call

variable {R : GraphStorageEngine → GraphStorageEngine → Prop} {f : Faults}
  {txid : Nat} {α : Type} {x : EngineM α}

/-! ## The steps -/

/-- Records are prepared: pages are read, and taken if need be. -/
structure Preparing (R : GraphStorageEngine → GraphStorageEngine → Prop) :
    Prop where
  allocate : ∀ e p st, e.store.allocatePage = some (p, st) →
    R e { e with store := st }
  push : ∀ e k p, R e (e.pushPage k p)

/-- The work of a transaction is done. -/
structure Working (txid : Nat)
    (R : GraphStorageEngine → GraphStorageEngine → Prop) : Prop
    extends Preparing R where
  write : ∀ e p pg st, e.store.write p pg = some st → R e { e with store := st }
  tree : ∀ e t op, R e (e.callTree t op)
  append : ∀ e lsn ty, ty ≠ RecordType.commit →
    R e { e with log := e.log ++ [⟨lsn, txid, ty, none⟩], lastLsn := lsn }

/-- The transaction also takes its lock, and may log images of pages. -/
structure Locking (txid : Nat)
    (R : GraphStorageEngine → GraphStorageEngine → Prop) : Prop
    extends Working txid R where
  lock : ∀ e r, R e (e.holdLock txid r)
  image : ∀ e lsn page, R e { e with
    log := e.log ++ [⟨lsn, txid, .pageInsert, some page⟩], lastLsn := lsn }

/-- The transaction also ends. -/
structure Ending (txid : Nat)
    (R : GraphStorageEngine → GraphStorageEngine → Prop) : Prop
    extends Locking txid R where
  commit : ∀ e lsn, R e { e with
    log := e.log ++ [⟨lsn, txid, .commit, none⟩], lastLsn := lsn }
  endTx : ∀ e, R e (e.endTx txid)

/-! ## Preparing records -/

section Slots

variable {σ : Type} {S : σ → σ → Prop} [IsPreorder σ S]

theorem slotRef_frame (p i : Nat) : Frame S (slotRef p i : Call σ StorageError SlotRef) := by
  rw [slotRef]
  split
  · exact .fail _
  · exact .pure _

/-- A call that changes nothing. -/
theorem frame_of_eq {α : Type} {x : Call σ StorageError α}
    (hx : Frame (fun s s' => s' = s) x) : Frame S x :=
  hx.mono fun s _ h => by rw [h]; exact refl s

theorem findRoom_frame {read : Nat → Call σ StorageError SlottedPage}
    (hread : ∀ p, Frame S (read p)) (r : Bytes) :
    ∀ list, Frame S (findRoom read r list)
  | [] => .pure _
  | p :: rest => by
    refine .bind (hread p) fun pg => ?_
    refine .bind (.lift _) fun x => ?_
    split
    · exact .pure _
    · exact findRoom_frame hread r rest

end Slots

theorem readPage_eq (f : Faults) (p : Nat) : Frame (fun e e' => e' = e) (readPage f p) := by
  intro e r e' h
  rw [readPage, get_bind] at h
  split at h
  · cases h
    rfl
  · cases hp : e.store.page p with
    | none =>
      rw [hp] at h
      cases h
      rfl
    | some pg =>
      rw [hp] at h
      cases h
      rfl

theorem readPagePending_eq (f : Faults) (p : Nat) :
    Frame (fun s s' => s' = s) (readPagePending f p) := by
  intro s r s' h
  rw [readPagePending, get_bind] at h
  cases hm : s.2[p]? with
  | some pg =>
    rw [hm] at h
    cases h
    rfl
  | none =>
    rw [hm] at h
    dsimp only [onEngine] at h
    split at h
    · cases h
    · next hr =>
        cases h
        rw [readPage_eq f p _ _ _ hr]

/-- The same relation, for calls that build images. -/
def OnStore (R : GraphStorageEngine → GraphStorageEngine → Prop)
    (s s' : GraphStorageEngine × Pending) : Prop := R s.1 s'.1

instance [IsPreorder _ R] : IsPreorder _ (OnStore R) where
  refl s := refl s.1
  trans _ _ _ h h' := trans_of R h h'

theorem onEngine_frame (hx : Frame R x) : Frame (OnStore R) (onEngine x) := by
  intro s r s' h
  rw [onEngine] at h
  split at h
  · cases h
  · next e' hr =>
      cases h
      exact hx _ _ _ hr

theorem withPending_frame {x : PendingM α} (hx : Frame (OnStore R) x) :
    Frame R (withPending x) := by
  intro e r e' h
  rw [withPending] at h
  split at h
  · cases h
  · next hr =>
      cases h
      exact hx _ _ _ hr
  · next hr =>
      cases h
      exact hx _ _ _ hr

section Reads

variable [IsPreorder _ R]

theorem readPage_frame (p : Nat) : Frame R (readPage f p) := frame_of_eq (readPage_eq f p)

theorem readRecord_frame (slot : SlotRef) : Frame R (readRecord f slot) :=
  .bind (readPage_frame _) fun _ => .lift _

theorem readPagePending_frame (p : Nat) : Frame (OnStore R) (readPagePending f p) :=
  frame_of_eq (readPagePending_eq f p)

theorem putPending_frame (p : Nat) (pg : SlottedPage) : Frame (OnStore R) (putPending p pg) :=
  .modify fun s => refl s.1

theorem readRecordPending_frame (slot : SlotRef) : Frame (OnStore R) (readRecordPending f slot) :=
  .bind (readPagePending_frame _) fun _ => .lift _

theorem overwriteIntoPending_frame (slot : SlotRef) (r : Bytes) :
    Frame (OnStore R) (overwriteIntoPending f slot r) := by
  refine .bind (readPagePending_frame _) fun pg => ?_
  exact .bind (.ofResult _) fun _ => putPending_frame _ _

end Reads

namespace Preparing

variable [IsPreorder _ R] (hR : Preparing R)

include hR

omit [IsPreorder _ R] in
theorem allocatePage : Frame R allocatePage := by
  intro e r e' h
  rw [Graph.allocatePage, get_bind] at h
  cases hs : e.store.allocatePage with
  | none =>
    rw [hs] at h
    cases h
  | some x =>
    rw [hs] at h
    cases h
    exact hR.allocate e _ _ hs

theorem freshPage (r : Bytes) : Frame R (freshPage r) := by
  refine .bind hR.allocatePage fun p => ?_
  refine .bind (.lift _) fun x => ?_
  split
  · exact .pure _
  · exact .fail _

theorem prepareRecord (k : RecordKind) (r : Bytes) : Frame R (prepareRecord f k r) := by
  refine .bind .get fun e => ?_
  refine .bind (findRoom_frame readPage_frame r _) fun x => ?_
  split
  · exact .bind (slotRef_frame _ _) fun _ => .pure _
  · refine .bind (hR.freshPage r) fun x => ?_
    refine .bind (.modify fun e => hR.push e k _) fun _ => ?_
    exact .bind (slotRef_frame _ _) fun _ => .pure _

theorem prepareIntoPending (k : RecordKind) (r : Bytes) :
    Frame (OnStore R) (prepareIntoPending f k r) := by
  refine .bind .get fun s => ?_
  refine .bind (findRoom_frame readPagePending_frame r _) fun x => ?_
  split
  · refine .bind (slotRef_frame _ _) fun _ => ?_
    exact .bind (putPending_frame _ _) fun _ => .pure _
  · refine .bind (onEngine_frame (hR.freshPage r)) fun x => ?_
    refine .bind (onEngine_frame (.modify fun e => hR.push e k _)) fun _ => ?_
    refine .bind (slotRef_frame _ _) fun _ => ?_
    exact .bind (putPending_frame _ _) fun _ => .pure _

theorem prepareChain : ∀ (props : List PropertyRecord) (next : SlotRef),
    Frame (OnStore R) (prepareChain f props next)
  | [], _ => .pure _
  | _ :: props, _ => .bind (hR.prepareIntoPending _ _) fun slot => prepareChain props slot

end Preparing

/-! ## Adjacency lists -/

namespace RecordAccess

variable {σ : Type} {S : σ → σ → Prop} {a : RecordAccess σ}
  [IsPreorder σ S]
  (hread : ∀ slot, Frame S (a.read slot))
  (hover : ∀ slot r, Frame S (a.overwrite slot r))

include hread

theorem node_frame (slot : SlotRef) : Frame S (a.node slot) :=
  .bind (hread slot) fun _ => .bind (.require _ _) fun _ => .require _ _

theorem edge_frame (slot : SlotRef) : Frame S (a.edge slot) :=
  .bind (hread slot) fun _ => .bind (.require _ _) fun _ => .require _ _

include hover

theorem patchEdge_frame (slot : SlotRef) (g : EdgeRecord → EdgeRecord) :
    Frame S (a.patchEdge slot g) :=
  .bind (edge_frame hread slot) fun _ => hover _ _

theorem wire_frame (side : Side) (edgeSlot nodeSlot : SlotRef) :
    Frame S (a.wire side edgeSlot nodeSlot) := by
  have hpatch := patchEdge_frame hread hover
  refine .bind (node_frame hread _) fun node => ?_
  refine .bind (hpatch _ _) fun _ => ?_
  exact .bind (.when _ (hpatch _ _)) fun _ => hover _ _

theorem unwire_frame (side : Side) (edgeSlot nodeSlot : SlotRef) :
    Frame S (a.unwire side edgeSlot nodeSlot) := by
  have hpatch := patchEdge_frame hread hover
  refine .bind (edge_frame hread _) fun edge => ?_
  refine .bind (.when _ (hpatch _ _)) fun _ => ?_
  refine .bind (.when _ (hpatch _ _)) fun _ => ?_
  refine .bind (hpatch _ _) fun _ => ?_
  split
  · refine .bind (node_frame hread _) fun node => ?_
    exact .bind (hover _ _) fun _ => .pure _
  · exact .pure _

end RecordAccess

section Reads

variable [IsPreorder _ R] (slot : SlotRef)

theorem node_frame : Frame R ((direct f).node slot) := RecordAccess.node_frame readRecord_frame slot

theorem edge_frame : Frame R ((direct f).edge slot) := RecordAccess.edge_frame readRecord_frame slot

end Reads

theorem Preparing.nodeBuild [IsPreorder _ R] (hR : Preparing R)
    (node : NodeRecord) (properties : List PropertyRecord) :
    Frame (OnStore R) (nodeBuild f node properties) :=
  .bind (hR.prepareChain _ _) fun _ => hR.prepareIntoPending _ _

theorem Preparing.edgeBuild [IsPreorder _ R] (hR : Preparing R)
    (edge : EdgeRecord) (properties : List PropertyRecord) :
    Frame (OnStore R) (edgeBuild f edge properties) := by
  have hwire : ∀ side slot slot', Frame (OnStore R) ((pending f).wire side slot slot') :=
    RecordAccess.wire_frame readRecordPending_frame overwriteIntoPending_frame
  refine .bind (hR.prepareChain _ _) fun _ => ?_
  refine .bind (hR.prepareIntoPending _ _) fun slot => ?_
  refine .bind (.when _ (hwire _ _ _)) fun _ => ?_
  refine .bind (.when _ (hwire _ _ _)) fun _ => ?_
  exact .pure _

/-- A record is appended or not. -/
theorem append_frame {ty : RecordType} {page : Option (Nat × SlottedPage)}
    [IsPreorder _ R]
    (happ : ∀ e lsn, R e { e with
      log := e.log ++ [⟨lsn, txid, ty, page⟩], lastLsn := lsn }) :
    Frame R (append f txid ty page) := by
  intro e r e' h
  rw [append, get_bind] at h
  split at h
  · cases h
    exact refl e
  · cases h
    exact happ e _

section Logged

variable [IsPreorder _ R]

theorem logPages_frame
    (himage : ∀ e lsn page, R e { e with
      log := e.log ++ [⟨lsn, txid, .pageInsert, some page⟩], lastLsn := lsn }) :
    ∀ images : List (Nat × SlottedPage), Frame R (logPages f txid images)
  | [] => .pure _
  | _ :: images =>
    .bind (append_frame fun e lsn => himage e lsn _) fun _ =>
      .bind (logPages_frame himage images) fun _ => .pure _

theorem acquireLock_frame {r : UInt64} (hlock : ∀ e, R e (e.holdLock txid r)) :
    Frame R (acquireLock f txid r) := by
  rw [acquireLock]
  cases f.lock with
  | none => exact .modify hlock
  | some err => exact .fail _

theorem atomicBody_frame {r : UInt64} {build : PendingM SlotRef}
    (hlock : ∀ e, R e (e.holdLock txid r))
    (himage : ∀ e lsn page, R e { e with
      log := e.log ++ [⟨lsn, txid, .pageInsert, some page⟩], lastLsn := lsn })
    (hb : Frame (OnStore R) build) : Frame R (atomicBody f txid r build) := by
  refine .bind (acquireLock_frame hlock) fun _ => ?_
  refine .bind (withPending_frame hb) fun x => ?_
  exact .bind (logPages_frame himage _) fun _ => .pure _

theorem commit_frame
    (hcommit : ∀ e lsn, R e { e with
      log := e.log ++ [⟨lsn, txid, .commit, none⟩], lastLsn := lsn })
    (hend : ∀ e, R e (e.endTx txid)) : Frame R (commit f txid) := by
  refine .bind (append_frame hcommit) fun _ => ?_
  split
  · exact .fail _
  · exact .modify hend

end Logged

namespace Working

variable [IsPreorder _ R] (hR : Working txid R)

include hR

theorem writePage (p : Nat) (pg : SlottedPage) : Frame R (writePage f p pg) := by
  intro e r e' h
  rw [Graph.writePage, get_bind] at h
  split at h
  · cases h
    exact refl e
  · cases hst : e.store.write p pg with
    | none =>
      rw [hst] at h
      cases h
      exact refl e
    | some st =>
      rw [hst] at h
      cases h
      exact hR.write e p pg st hst

theorem treeCall (t : EngineTree) (op : TreeOp) : Frame R (treeCall f t op) := by
  intro e r e' h
  rw [Graph.treeCall] at h
  split at h
  · cases h
    exact hR.tree e t _
  · cases h
    exact refl e
  · cases h
    exact hR.tree e t _

theorem log (ty : RecordType) (hty : ty ≠ .commit) : Frame R (Graph.append f txid ty none) :=
  append_frame fun e lsn => hR.append e lsn ty hty

theorem insertRecord (k : RecordKind) (r : Bytes) : Frame R (insertRecord f k r) := by
  refine .bind .get fun e => ?_
  refine .bind (findRoom_frame readPage_frame r _) fun x => ?_
  split
  · exact .bind (hR.writePage _ _) fun _ => slotRef_frame _ _
  · refine .bind (hR.freshPage r) fun x => ?_
    refine .bind (hR.writePage _ _) fun _ => ?_
    refine .bind (.modify fun e => hR.push e k _) fun _ => ?_
    exact slotRef_frame _ _

theorem overwriteRecord (slot : SlotRef) (r : Bytes) : Frame R (overwriteRecord f slot r) := by
  refine .bind (readPage_frame _) fun pg => ?_
  exact .bind (.ofResult _) fun _ => hR.writePage _ _

theorem wire (side : Side) (edgeSlot nodeSlot : SlotRef) :
    Frame R ((direct f).wire side edgeSlot nodeSlot) :=
  RecordAccess.wire_frame readRecord_frame hR.overwriteRecord _ _ _

theorem unwire (side : Side) (edgeSlot nodeSlot : SlotRef) :
    Frame R ((direct f).unwire side edgeSlot nodeSlot) :=
  RecordAccess.unwire_frame readRecord_frame hR.overwriteRecord _ _ _

theorem writePages : ∀ images : List (Nat × SlottedPage),
    Frame R (writePages f images)
  | [] => .pure _
  | _ :: images => .bind (hR.writePage _ _) fun _ => writePages images

theorem deleteNodeBody (nodeId : UInt64) (slot : SlotRef) (node : NodeRecord) :
    Frame R (deleteNodeBody f txid nodeId slot node) := by
  refine .bind (hR.overwriteRecord _ _) fun _ => ?_
  exact .bind (hR.treeCall _ _) fun _ => hR.log _ (by decide)

theorem unwireBody (slot : SlotRef) (edge : EdgeRecord) : Frame R (unwireBody f slot edge) := by
  refine .bind (.when _ ?_) fun _ => .when _ ?_
  · exact .bind (hR.unwire _ _ _) fun _ => .pure _
  · exact .bind (hR.unwire _ _ _) fun _ => .pure _

theorem deleteEdgeBody (edgeId : UInt64) (slot : SlotRef) (edge : EdgeRecord) :
    Frame R (deleteEdgeBody f txid edgeId slot edge) := by
  refine .bind (hR.overwriteRecord _ _) fun _ => ?_
  exact .bind (hR.treeCall _ _) fun _ => hR.log _ (by decide)

/-- What an atomic creation does after its commit. -/
theorem enter (t t' : EngineTree) (key key' : Bytes) (slot : SlotRef) :
    Frame R (do
      insertKey f t key slot
      insertKey f t' key' slot
      pure slot) :=
  .bind (hR.treeCall _ _) fun _ => .bind (hR.treeCall _ _) fun _ => .pure _

end Working

namespace Locking

variable [IsPreorder _ R] (hR : Locking txid R)

include hR

theorem acquireLock (r : UInt64) : Frame R (acquireLock f txid r) := acquireLock_frame (hR.lock · r)

theorem putNodeBody (node : NodeRecord) : Frame R (putNodeBody f txid node) := by
  refine .bind (hR.acquireLock _) fun _ => ?_
  refine .bind (hR.prepareRecord _ _) fun x => ?_
  refine .bind (hR.treeCall _ _) fun _ => ?_
  refine .bind (hR.treeCall _ _) fun _ => ?_
  exact .bind (append_frame fun e lsn => hR.image e lsn _) fun _ => .pure _

theorem putEdgeBody (edge : EdgeRecord) : Frame R (putEdgeBody f txid edge) := by
  refine .bind (hR.acquireLock _) fun _ => ?_
  refine .bind (hR.insertRecord _ _) fun slot => ?_
  refine .bind (hR.treeCall _ _) fun _ => ?_
  refine .bind (hR.treeCall _ _) fun _ => ?_
  refine .bind (.when _ (hR.wire _ _ _)) fun _ => ?_
  refine .bind (.when _ (hR.wire _ _ _)) fun _ => ?_
  refine .bind (readRecord_frame _) fun _ => ?_
  refine .bind (.require _ _) fun _ => ?_
  exact .bind (hR.log _ (by decide)) fun _ => .pure _

theorem atomicBody (r : UInt64) {build : PendingM SlotRef}
    (hb : Frame (OnStore R) build) : Frame R (atomicBody f txid r build) :=
  atomicBody_frame (hR.lock · r) hR.image hb

end Locking

/-! ## Whole calls -/

namespace Ending

variable [IsPreorder _ R] (hR : Ending txid R)

include hR

theorem commitTx : Frame R (Graph.commit f txid) := commit_frame hR.commit hR.endTx

theorem orRollback (hx : Frame R x) : Frame R (orRollback f txid x) := by
  intro e r e' h
  rw [Graph.orRollback] at h
  split at h
  · next e₁ hxe =>
      split at h
      · next happ =>
          cases h
          refine trans_of R (hx _ _ _ hxe) (trans_of R ?_ (hR.endTx _))
          exact hR.log _ (by decide) _ _ _ happ
      · cases h
  · exact hx _ _ _ h

end Ending

/-- The state after `begin`. -/
def begun (e : GraphStorageEngine) : GraphStorageEngine :=
  { e with
    nextTxid := e.nextTxid + 1, active := e.active ++ [e.nextTxid] }

/-- The state after `begin` and `acquire_lock`. -/
def locked (e : GraphStorageEngine) (resource : UInt64) : GraphStorageEngine :=
  (begun e).holdLock e.nextTxid resource

theorem begin_bind (k : Nat → EngineM α) (e : GraphStorageEngine) :
    (begin >>= k) e = k e.nextTxid (begun e) := rfl

/-- A call whose result is dropped. -/
theorem of_bind_pure {e e' : GraphStorageEngine} {r : Except StorageError Unit}
    (h : (do let _ ← x : EngineM Unit) e = .ok (r, e')) :
    ∃ r', x e = .ok (r', e') := by
  cases r with
  | ok u =>
    obtain ⟨a, e₁, hx, hp⟩ := bind_ok.mp h
    obtain ⟨-, rfl⟩ := pure_ok.mp hp
    exact ⟨_, hx⟩
  | error err =>
    rcases bind_err.mp h with hx | ⟨a, e₁, -, hp⟩
    · exact ⟨_, hx⟩
    · exact absurd hp pure_not_err

/-- The record of the commit cannot be appended, or not flushed. -/
def CommitFails (f : Faults) (e : GraphStorageEngine) : Prop :=
  f.append e.lastLsn = true ∨ f.flush = true

/-- The call gets to a step whose error is not followed by a rollback, and
the step fails: the commit, or a read of the record that is to be deleted. -/
def LeftOpen (f : Faults) (e : GraphStorageEngine) : GraphCall → Prop
  | .putNode node =>
    node.nodeId ≠ 0 ∧ (e.tree .node)[nodeIdKey node.nodeId.toNat]? = none ∧
      Then (putNodeBody f e.nextTxid node) (fun _ => CommitFails f) (begun e)
  | .deleteNode nodeId =>
    ∃ slot, (e.tree .node)[nodeIdKey nodeId.toNat]? = some slot ∧
      Then (acquireLock f e.nextTxid (nodeResourceId nodeId)) (fun _ e₁ =>
        Fails ((direct f).node slot) e₁ ∨ Then ((direct f).node slot) (fun node =>
            Then (deleteNodeBody f e.nextTxid nodeId slot node) fun _ =>
              CommitFails f) e₁) (begun e)
  | .putEdge edge =>
    edge.edgeId ≠ 0 ∧ (e.tree .edge)[edgeIdKey edge.edgeId.toNat]? = none ∧
      Then (putEdgeBody f e.nextTxid edge) (fun _ => CommitFails f) (begun e)
  | .deleteEdge edgeId =>
    ∃ slot, (e.tree .edge)[edgeIdKey edgeId.toNat]? = some slot ∧
      Then (acquireLock f e.nextTxid (edgeResourceId edgeId)) (fun _ e₁ =>
        Fails ((direct f).edge slot) e₁ ∨ Then ((direct f).edge slot) (fun edge =>
            Then (unwireBody f slot edge) fun _ e₂ =>
              Fails ((direct f).edge slot) e₂ ∨ Then ((direct f).edge slot) (fun edge =>
                  Then (deleteEdgeBody f e.nextTxid edgeId slot edge) fun _ =>
                    CommitFails f) e₂) e₁) (begun e)
  | .createNodeAtomic node properties =>
    node.nodeId ≠ 0 ∧ (e.tree .node)[nodeIdKey node.nodeId.toNat]? = none ∧
      Then (atomicBody f e.nextTxid (nodeResourceId node.nodeId)
        (nodeBuild f node properties)) (fun _ => CommitFails f) (begun e)
  | .createEdgeAtomic edge properties =>
    edge.edgeId ≠ 0 ∧ (e.tree .edge)[edgeIdKey edge.edgeId.toNat]? = none ∧
      Then (atomicBody f e.nextTxid (edgeResourceId edge.edgeId)
        (edgeBuild f edge properties)) (fun _ => CommitFails f) (begun e)
  | .putProperty _ | .attachPropertyToNode _ _ | .attachPropertyToEdge _ _ => False

/-- What a call does once its transaction has begun: parts that are rolled
back, steps whose failure nothing is done about, the commit, and what comes
after it. The states are those in which the transaction is left open. -/
inductive Script (f : Faults) (txid : Nat) :
    ∀ {α : Type}, EngineM α → (GraphStorageEngine → Prop) → Prop
  | commit : Script f txid (commit f txid) (CommitFails f)
  | rolled {α β : Type} {x : EngineM α} {k : α → EngineM β}
      {D : α → GraphStorageEngine → Prop}
      (hx : ∀ R [IsPreorder _ R], Locking txid R → Frame R x)
      (hk : ∀ a, Script f txid (k a) (D a)) :
      Script f txid (orRollback f txid x >>= k) (Then x D)
  | plain {α β : Type} {x : EngineM α} {k : α → EngineM β}
      {D : α → GraphStorageEngine → Prop}
      (hx : ∀ R [IsPreorder _ R], Locking txid R → Frame R x)
      (hk : ∀ a, Script f txid (k a) (D a)) :
      Script f txid (x >>= k) (fun e => Fails x e ∨ Then x D e)
  | closing {α β : Type} {x : EngineM α} {k : α → EngineM β}
      {C : GraphStorageEngine → Prop} (hx : Script f txid x C)
      (hk : ∀ R [IsPreorder _ R], Working txid R → ∀ a, Frame R (k a)) :
      Script f txid (x >>= k) C

theorem Script.frame {C : GraphStorageEngine → Prop} [IsPreorder _ R]
    (hs : Script f txid x C) (hR : Ending txid R) : Frame R x := by
  induction hs with
  | commit => exact hR.commitTx
  | rolled hx _ ih => exact .bind (hR.orRollback (hx R hR.toLocking)) ih
  | plain hx _ ih => exact .bind (hx R hR.toLocking) ih
  | closing _ hk ih => exact .bind ih (hk R hR.toWorking)

/-- What a call does: steps outside of a transaction, if any, or a transaction
of its own. It leaves a transaction open if `P`. -/
inductive CallShape (f : Faults) (e : GraphStorageEngine) (P : Prop)
    (e' : GraphStorageEngine) : Prop
  | shared (h : ¬ P) (hR : ∀ R [IsPreorder _ R], Working sharedTxid R → R e e')
  | tx {α : Type} {x : EngineM α} {C : GraphStorageEngine → Prop}
      {r : Except StorageError α} (hs : Script f e.nextTxid x C)
      (hP : P ↔ C (begun e)) (h : x (begun e) = .ok (r, e'))

section Calls

variable {e e' : GraphStorageEngine} {r : Except StorageError α}

section Create

variable {id : UInt64} {t : EngineTree} {key : Bytes} {rest : EngineM α}

/-- A call that creates something with an id of its own fails at once if the id
is zero or taken. -/
theorem create_cases (h : (if id = 0 then fail .invalidId
      else do
        let e ← Call.get
        if (e.tree t)[key]?.isSome then fail .alreadyExists
        else rest : EngineM α) e = .ok (r, e')) :
    (¬ (id ≠ 0 ∧ (e.tree t)[key]? = none) ∧ (∃ err, r = .error err) ∧ e' = e) ∨
      id ≠ 0 ∧ (e.tree t)[key]? = none ∧ rest e = .ok (r, e') := by
  split at h
  · next hid =>
      cases h
      exact .inl ⟨fun hn => hn.1 hid, ⟨_, rfl⟩, rfl⟩
  next hid =>
  rw [get_bind] at h
  split at h
  · next hsome =>
      cases h
      refine .inl ⟨fun hn => ?_, ⟨_, rfl⟩, rfl⟩
      rw [hn.2] at hsome
      cases hsome
  · next hnone => exact .inr ⟨hid, Option.not_isSome_iff_eq_none.mp hnone, h⟩

theorem create_ok {a : α} (h : (if id = 0 then fail .invalidId
      else do
        let e ← Call.get
        if (e.tree t)[key]?.isSome then fail .alreadyExists
        else rest : EngineM α) e = .ok (.ok a, e')) :
    id ≠ 0 ∧ (e.tree t)[key]? = none ∧ rest e = .ok (.ok a, e') := by
  rcases create_cases h with ⟨-, ⟨err, herr⟩, -⟩ | h
  · cases herr
  · exact h

end Create

variable {key : Bytes} {t : EngineTree}

theorem create_shape {id : UInt64} {rest x : EngineM α}
    {C : GraphStorageEngine → Prop} (hrest : rest e = x (begun e))
    (hx : Script f e.nextTxid x C) (h : (if id = 0 then fail .invalidId
      else do
        let e ← Call.get
        if (e.tree t)[key]?.isSome then fail .alreadyExists
        else rest : EngineM α) e = .ok (r, e')) :
    CallShape f e (id ≠ 0 ∧ (e.tree t)[key]? = none ∧ C (begun e)) e' := by
  rcases create_cases h with ⟨hnot, -, rfl⟩ | ⟨hid, habsent, h⟩
  · exact .shared (fun hl => hnot ⟨hl.1, hl.2.1⟩) fun R _ _ => refl _
  · rw [hrest] at h
    exact .tx hx ⟨fun hl => hl.2.2, fun hl => ⟨hid, habsent, hl⟩⟩ h

/-- A call on something that is there. -/
theorem delete_shape {k : SlotRef → Nat → EngineM α}
    {C : SlotRef → GraphStorageEngine → Prop}
    (hx : ∀ slot, Script f e.nextTxid (k slot e.nextTxid) (C slot)) (h : (do
      let e ← Call.get
      let slot ← require .notFound (e.tree t)[key]?
      let txid ← begin
      k slot txid : EngineM α) e = .ok (r, e')) :
    CallShape f e (∃ slot, (e.tree t)[key]? = some slot ∧ C slot (begun e)) e' := by
  rw [get_bind] at h
  cases hslot : (e.tree t)[key]? with
  | none =>
    rw [hslot] at h
    cases h
    exact .shared nofun fun R _ _ => refl _
  | some slot =>
    rw [hslot, require_bind, begin_bind] at h
    refine .tx (hx slot) ⟨fun hl => ?_, fun hl => ⟨slot, rfl, hl⟩⟩ h
    obtain ⟨slot', hslot', hC⟩ := hl
    cases hslot'
    exact hC

/-- The atomic creations enter what they have created after the commit. -/
theorem atomic_shape {id : UInt64} {resource : UInt64}
    {build : PendingM SlotRef} {enter : SlotRef → EngineM SlotRef}
    {r : Except StorageError SlotRef}
    (hb : ∀ R [IsPreorder _ R], Preparing R → Frame (OnStore R) build)
    (henter : ∀ R [IsPreorder _ R], Working e.nextTxid R → ∀ s, Frame R (enter s))
    (h : (if id = 0 then fail .invalidId
      else do
        let e ← Call.get
        if (e.tree t)[key]?.isSome then fail .alreadyExists
        else writeAtomic f resource build >>= enter) e = .ok (r, e')) :
    CallShape f e (id ≠ 0 ∧ (e.tree t)[key]? = none ∧
      Then (atomicBody f e.nextTxid resource build) (fun _ => CommitFails f) (begun e)) e' := by
  have hrest (k : Nat → EngineM SlotRef) :
      (begin >>= k >>= enter) e = (k e.nextTxid >>= enter) (begun e) := rfl
  refine create_shape (hrest _) (.closing ?_ henter) h
  refine .rolled (fun _ _ hR => hR.atomicBody _ (hb _ hR.toPreparing)) fun x => ?_
  exact .closing .commit fun _ _ hR _ => .bind (hR.writePages _) fun _ => .pure _

variable {c : GraphCall}

/-- The calls on properties begin no transaction. -/
theorem property_frame {r : Except StorageError Unit}
    (hc : c matches .putProperty _ | .attachPropertyToNode _ _ |
      .attachPropertyToEdge _ _) (h : c.run f e = .ok (r, e')) :
    ∀ R [IsPreorder _ R], Working sharedTxid R → R e e' := by
  intro R _ hR
  cases c with
  | putProperty prop =>
    obtain ⟨r', h⟩ := of_bind_pure h
    refine Frame.bind (hR.insertRecord _ _) (fun slot => ?_) _ _ _ h
    exact .bind (hR.log _ (by decide)) fun _ => .pure _
  | attachPropertyToNode nodeId slot =>
    refine Frame.bind .get (fun e => ?_) _ _ _ h
    refine .bind (.require _ _) fun _ => ?_
    refine .bind (node_frame _) fun node => ?_
    refine .bind (hR.overwriteRecord _ _) fun _ => ?_
    exact .bind (hR.log _ (by decide)) fun _ => .pure _
  | attachPropertyToEdge edgeId slot =>
    refine Frame.bind .get (fun e => ?_) _ _ _ h
    refine .bind (.require _ _) fun _ => ?_
    refine .bind (edge_frame _) fun edge => ?_
    refine .bind (hR.overwriteRecord _ _) fun _ => ?_
    exact .bind (hR.log _ (by decide)) fun _ => .pure _
  | putNode | deleteNode | putEdge | deleteEdge | createNodeAtomic |
    createEdgeAtomic => cases hc

theorem run_shape {r : Except StorageError Unit} (h : c.run f e = .ok (r, e')) :
    CallShape f e (LeftOpen f e c) e' := by
  cases c with
  | putNode node =>
    obtain ⟨r', h⟩ := of_bind_pure h
    refine create_shape (begin_bind _ e)
      (.rolled (fun _ _ hR => hR.putNodeBody node) fun x => ?_) h
    exact .closing .commit fun _ _ hR _ => .bind (hR.writePage _ _) fun _ => .pure _
  | deleteNode nodeId =>
    refine delete_shape (fun slot => ?_) h
    refine .rolled (fun _ _ hR => hR.acquireLock _) fun _ => ?_
    refine .plain (fun _ _ hR => node_frame slot) fun node => ?_
    exact .rolled (fun _ _ hR => hR.deleteNodeBody nodeId slot node) fun _ => .commit
  | putEdge edge =>
    obtain ⟨r', h⟩ := of_bind_pure h
    refine create_shape (begin_bind _ e)
      (.rolled (fun _ _ hR => hR.putEdgeBody edge) fun x => ?_) h
    exact .closing .commit fun _ _ hR _ => .pure _
  | deleteEdge edgeId =>
    refine delete_shape (fun slot => ?_) h
    refine .rolled (fun _ _ hR => hR.acquireLock _) fun _ => ?_
    refine .plain (fun _ _ hR => edge_frame slot) fun edge => ?_
    refine .rolled (fun _ _ hR => hR.unwireBody slot edge) fun _ => ?_
    refine .plain (fun _ _ hR => edge_frame slot) fun edge => ?_
    exact .rolled (fun _ _ hR => hR.deleteEdgeBody edgeId slot edge) fun _ => .commit
  | putProperty | attachPropertyToNode | attachPropertyToEdge =>
    exact .shared id (property_frame rfl h)
  | createNodeAtomic node properties =>
    obtain ⟨r', h⟩ := of_bind_pure h
    exact atomic_shape (fun _ _ hR => hR.nodeBuild node properties)
      (fun _ _ hR s => hR.enter _ _ _ _ s) h
  | createEdgeAtomic edge properties =>
    obtain ⟨r', h⟩ := of_bind_pure h
    exact atomic_shape (fun _ _ hR => hR.edgeBuild edge properties)
      (fun _ _ hR s => hR.enter _ _ _ _ s) h

/-- A call that did not begin a transaction, or what one did that has. -/
def CallFrame (e e' : GraphStorageEngine) : Prop :=
  (∀ R [IsPreorder _ R], Working sharedTxid R → R e e') ∨
    ∀ R [IsPreorder _ R], Ending e.nextTxid R → R (begun e) e'

theorem run_frame {r : Except StorageError Unit} (h : c.run f e = .ok (r, e')) :
    CallFrame e e' := by
  cases run_shape h with
  | shared _ hR => exact .inl hR
  | tx hs _ h => exact .inr fun _ _ hR => hs.frame hR _ _ _ h

end Calls

end RGraph.Graph
