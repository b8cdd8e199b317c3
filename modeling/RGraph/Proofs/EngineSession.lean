import RGraph.Proofs.EngineAtomic

/-!
# What a session keeps

One step of a session in which every call returns keeps the pages, the log and
the trees in order, and the trees agree with the ledger. The trees miss no
record as long as no property is as long as a node or an edge.
-/

namespace RGraph.Graph

open RGraph.Lib RGraph.Storage RGraph.Wal RGraph.Index Call

/-! ## The ledger -/

def Face.entry : Face → Option (UInt32 × Bool)
  | .entity _ _ group deleted => some (group, deleted)
  | .other => none

/-- The ledger that can be read off the trees and the records. -/
def booked (h : Heap) (tree : Trees) : Ledger := fun kind id =>
  ((tree kind.idTree)[idKey id]?).bind fun s => (h.faceAt s).bind Face.entry

section Booked

variable {props : List PropertyRecord} {h h' : Heap} {tree tree' : Trees}
  {act : Action}

theorem booked_eq_some (hl : Linked h tree) {kind : EntityKind} {id : UInt64}
    {group : UInt32} {d : Bool} : booked h tree kind id = some (group, d) ↔
      ∃ s, (tree kind.idTree)[idKey id]? = some s ∧
        h.faceAt s = some (.entity kind id group d) := by
  rw [booked, Option.bind_eq_some_iff]
  constructor
  · rintro ⟨s, hidx, hentry⟩
    obtain ⟨id', group', d', hid, hface⟩ := hl.byId kind _ s hidx
    obtain rfl := idKey_inj hid
    rw [hface] at hentry
    cases hentry
    exact ⟨s, hidx, hface⟩
  · rintro ⟨s, hidx, hface⟩
    exact ⟨s, hidx, by rw [hface]; rfl⟩

theorem booked_eq_none (hl : Linked h tree) {kind : EntityKind} {id : UInt64} :
    booked h tree kind id = none ↔ (tree kind.idTree)[idKey id]? = none := by
  rw [booked]
  constructor
  · intro hnone
    cases hidx : (tree kind.idTree)[idKey id]? with
    | none => rfl
    | some s =>
      obtain ⟨_, _, _, _, hface⟩ := hl.byId kind _ s hidx
      rw [hidx, Option.bind_some, hface] at hnone
      cases hnone
  · intro hnone
    rw [hnone]
    rfl

/-- Entries that lead to the same faces. -/
theorem Linked.entry_congr (hl : Linked h tree)
    (hface : ∀ s x, h.faceAt s = some x → h'.faceAt s = some x) (kind : EntityKind) (key : Bytes) :
    (((tree kind.idTree)[key]?).bind fun s => (h'.faceAt s).bind Face.entry) =
      ((tree kind.idTree)[key]?).bind fun s => (h.faceAt s).bind Face.entry := by
  cases hidx : (tree kind.idTree)[key]? with
  | none => rfl
  | some s =>
    obtain ⟨_, _, _, _, hs⟩ := hl.byId kind key s hidx
    rw [Option.bind_some, Option.bind_some, hs, hface s _ hs]

theorem Ledger.apply_enter (l : Ledger) (kind kind' : EntityKind)
    (id id' : UInt64) (group : UInt32) (d : Bool) : l.apply (.enter kind id group d) kind' id' =
      if kind' = kind ∧ id' = id then some (group, d) else l kind' id' := by
  rw [Ledger.apply]
  by_cases hk : kind' = kind
  · subst hk
    by_cases hid : id' = id
    · subst hid
      simp
    · simp [hid]
  · simp [hk]

theorem Ledger.apply_remove (l : Ledger) (kind kind' : EntityKind)
    (id id' : UInt64) : l.apply (.remove kind id) kind' id' =
      if kind' = kind ∧ id' = id then (l kind id).map fun x => (x.1, true)
      else l kind' id' := by
  rw [Ledger.apply]
  by_cases hk : kind' = kind
  · subst hk
    by_cases hid : id' = id
    · subst hid
      simp
    · simp [hid]
  · simp [hk]

theorem Effect.booked (heff : Effect props h tree act h' tree')
    (hl : Linked h tree) : booked h' tree' = (booked h tree).apply act := by
  funext kind' id'
  cases heff with
  | grow hext hnew => exact hl.entry_congr (fun s x hs => hext.faceAt hs) kind' (idKey id')
  | @enter kind id group d s new h' tree' hext hface habsent hnew hent =>
    rw [Ledger.apply_enter, Graph.booked, hent.byId]
    by_cases hk : kind' = kind ∧ id' = id
    · obtain ⟨rfl, rfl⟩ := hk
      rw [if_pos ⟨rfl, rfl⟩, if_pos ⟨rfl, rfl⟩, Option.bind_some, hface]
      rfl
    · rw [if_neg hk, if_neg fun h => hk ⟨h.1, idKey_inj h.2⟩]
      exact hl.entry_congr (fun s x hs => hext.faceAt hs) kind' (idKey id')
  | @remove kind id group d s h' tree' hidx hface hrest hrem =>
    rw [Ledger.apply_remove, Graph.booked, hrem.byId]
    by_cases hk : kind' = kind ∧ id' = id
    · obtain ⟨rfl, rfl⟩ := hk
      rw [if_pos ⟨rfl, rfl⟩, (booked_eq_some hl).mpr ⟨s, hidx, hface⟩, hidx,
        Option.bind_some, hrest, if_pos rfl]
      rfl
    · rw [if_neg hk]
      cases hidx' : (tree kind'.idTree)[idKey id']? with
      | none =>
        rw [Graph.booked, hidx']
        rfl
      | some t =>
        -- another entity has another slot
        have hne : t ≠ s := by
          rintro rfl
          obtain ⟨_, _, _, hid, hface'⟩ := hl.byId kind' _ t hidx'
          rw [hface] at hface'
          cases hface'
          exact hk ⟨rfl, idKey_inj hid⟩
        rw [Graph.booked, hidx', Option.bind_some, Option.bind_some, hrest, if_neg hne]

end Booked

/-! ## Steps -/

/-- The state of a session whose calls have all returned. -/
structure SessionOk (e : GraphStorageEngine) (h : Heap) (l : Ledger) : Prop where
  stored : Stored e h
  linked : Linked h e.tree
  logOk : LogOk e
  booked : booked h e.tree = l

section Steps

variable {e e' : GraphStorageEngine} {h : Heap} {l : Ledger} {f : Faults}

theorem GraphCall.run_ok {c : GraphCall} {u : Unit} (hs : Stored e h)
    (hl : Linked h e.tree) (hok : c.run f e = .ok (.ok u, e')) :
    ∃ h', Outcome c.properties (SessionEvent.call f c).action e h e' h' := by
  cases c with
  | putNode node =>
    obtain ⟨slot, e₁, hput, hok₁⟩ := bind_ok.mp hok
    obtain ⟨-, rfl⟩ := pure_ok.mp hok₁
    obtain ⟨p, e₂, hput⟩ := putNode_ok hs.shows hs.pages.below hput
    exact ⟨_, hput.outcome hs⟩
  | deleteNode nodeId => exact deleteNode_ok hs hl hok
  | putEdge edge =>
    obtain ⟨slot, e₁, hput, hok₁⟩ := bind_ok.mp hok
    obtain ⟨-, rfl⟩ := pure_ok.mp hok₁
    exact putEdge_ok hs hput
  | deleteEdge edgeId => exact deleteEdge_ok hs hl hok
  | putProperty prop =>
    obtain ⟨slot, e₁, hput, hok₁⟩ := bind_ok.mp hok
    obtain ⟨-, rfl⟩ := pure_ok.mp hok₁
    exact putProperty_ok hs hput
  | attachPropertyToNode nodeId propSlot => exact attachPropertyToNode_ok hs hok
  | attachPropertyToEdge edgeId propSlot => exact attachPropertyToEdge_ok hs hok
  | createNodeAtomic node properties =>
    obtain ⟨slot, e₁, hput, hok₁⟩ := bind_ok.mp hok
    obtain ⟨-, rfl⟩ := pure_ok.mp hok₁
    exact createNodeAtomic_ok hs hput
  | createEdgeAtomic edge properties =>
    obtain ⟨slot, e₁, hput, hok₁⟩ := bind_ok.mp hok
    obtain ⟨-, rfl⟩ := pure_ok.mp hok₁
    exact createEdgeAtomic_ok hs hput

theorem PageStore.page_flush (s : PageStore) (p : Nat) : (s.flush p).page = s.page := by
  funext q
  show (s.frames q).or (Function.update s.file p (s.page p) q) = s.page q
  by_cases hq : q = p
  · subst hq
    rw [Function.update_self, PageStore.page]
    cases s.frames q <;> rfl
  · rw [Function.update_of_ne hq]
    rfl

theorem PageStore.page_sync (s : PageStore) : s.sync.page = s.page := by
  funext q
  show (s.frames q).or ((s.frames q).or (s.file q)) = (s.frames q).or (s.file q)
  cases s.frames q <;> rfl

/-- The file and the superblock may have changed. -/
structure SamePages (e e' : GraphStorageEngine) : Prop where
  page : e'.store.page = e.store.page
  fileLen : e'.store.fileLen = e.store.fileLen
  next : e'.store.nextFreePageId = e.store.nextFreePageId
  synced : e.store.syncedPageId ≤ e.store.nextFreePageId →
    e'.store.syncedPageId ≤ e.store.nextFreePageId
  log : e'.log = e.log
  lastLsn : e'.lastLsn = e.lastLsn
  tree : e'.tree = e.tree
  pageList : e'.pageList = e.pageList

theorem SamePages.stored (hsame : SamePages e e') (hs : Stored e h) : Stored e' h := by
  refine ⟨⟨fun p => ?_, fun p hp => ?_⟩, ?_, ?_⟩
  · rw [hsame.page]
    exact hs.shows.pages p
  · rw [hsame.fileLen]
    exact hs.shows.inFile p hp
  · rw [hsame.next]
    exact hs.pages
  · rw [hsame.pageList]
    exact hs.lists

theorem SamePages.sessionOk (hsame : SamePages e e') (hs : SessionOk e h l) : SessionOk e' h l := by
  refine ⟨hsame.stored hs.stored, ?_, ⟨?_, ?_, ?_, ?_, ?_⟩, ?_⟩
  · rw [hsame.tree]
    exact hs.linked
  · rw [hsame.log]
    exact hs.logOk.sorted
  · rw [hsame.log, hsame.lastLsn]
    exact hs.logOk.lsn
  · rw [hsame.log, hsame.page]
    exact hs.logOk.page
  · rw [hsame.log]
    exact hs.logOk.done
  · rw [hsame.next]
    exact hsame.synced hs.logOk.mark
  · rw [hsame.tree]
    exact hs.booked

theorem samePages_flush (e : GraphStorageEngine) (pageId : Nat) : SamePages e (e.flush pageId) :=
  ⟨e.store.page_flush pageId, rfl, rfl, id, rfl, rfl, rfl, rfl⟩

theorem samePages_sync (e : GraphStorageEngine) : SamePages e e.sync :=
  ⟨e.store.page_sync, rfl, rfl, fun _ => Nat.le_refl _, rfl, rfl, rfl, rfl⟩

theorem sessionStep_eq {v : SessionEvent} (hret : v.returns e) :
    v.run e = .ok (.ok (), sessionStep e v) := by
  rw [SessionEvent.returns] at hret
  rw [sessionStep]
  split at hret
  · next heq => rw [heq]
  · cases hret

/-- What one event of a session does. -/
theorem SessionOk.step (hs : SessionOk e h l) {v : SessionEvent} (hret : v.returns e) :
    ∃ h', SessionOk (sessionStep e v) h' (l.apply v.action) ∧
      (PropsDistinct v.properties → Complete h e.tree → Complete h' (sessionStep e v).tree) := by
  have hrun := sessionStep_eq hret
  cases v with
  | call f c =>
    obtain ⟨h', hout⟩ := GraphCall.run_ok hs.stored hs.linked hrun
    refine ⟨h', ⟨hout.stored, hout.effect.linked hs.linked,
      hout.logOk hs.logOk, ?_⟩, hout.effect.complete⟩
    rw [hout.effect.booked hs.linked, hs.booked]
  | flush pageId => exact ⟨h, (samePages_flush e pageId).sessionOk hs, fun _ hc => hc⟩
  | sync => exact ⟨h, (samePages_sync e).sessionOk hs, fun _ hc => hc⟩

theorem sessionOk_init : SessionOk .init (fun _ => none) fun _ _ => none := by
  refine ⟨stored_init, linked_init _, logOk_init, ?_⟩
  funext kind id
  exact (booked_eq_none (linked_init _)).mpr Std.ExtTreeMap.getElem?_empty

end Steps

/-! ## Sessions -/

theorem SessionOk.run {e : GraphStorageEngine} {h : Heap} {l : Ledger}
    {events : List SessionEvent} (hs : SessionOk e h l)
    (hg : Guarded sessionStep (fun e v => v.returns e) e events) :
    ∃ h', SessionOk (run sessionStep e events) h'
        (run Ledger.apply l (events.map SessionEvent.action)) ∧
      ((∀ v ∈ events, PropsDistinct v.properties) → Complete h e.tree →
        Complete h' (run sessionStep e events).tree) := by
  induction events generalizing e h l with
  | nil => exact ⟨h, hs, fun _ hc => hc⟩
  | cons v rest ih =>
    obtain ⟨h₁, hs₁, hc₁⟩ := hs.step hg.1
    obtain ⟨h₂, hs₂, hc₂⟩ := ih hs₁ hg.2
    exact ⟨h₂, hs₂, fun hp hc =>
      hc₂ (fun w hw => hp w (List.mem_cons_of_mem _ hw)) (hc₁ (hp v List.mem_cons_self) hc)⟩

/-- Every session from an empty engine, if its calls return. -/
theorem session_ok {events : List SessionEvent}
    (hg : Guarded sessionStep (fun e v => v.returns e) .init events) :
    ∃ h, SessionOk (run sessionStep .init events) h (ledger events) ∧
      ((∀ v ∈ events, PropsDistinct v.properties) →
        Complete h (run sessionStep .init events).tree) := by
  obtain ⟨h, hs, hc⟩ := sessionOk_init.run hg
  exact ⟨h, hs, fun hp => hc hp (complete_init _)⟩

end RGraph.Graph
