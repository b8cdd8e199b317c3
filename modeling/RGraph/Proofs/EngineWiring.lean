import RGraph.Proofs.EngineFrame
import RGraph.Proofs.EngineState

/-!
# Wiring edges

Linking an edge into the lists of its nodes and unlinking it reads and patches
records, in pages at once or in pages not yet written. However it returns, a
patch changes pointers and generations only, so every record keeps its face
and its length. Of a record that is marked as deleted some of this is still
true: its length, the id of a node and whether it is deleted, the id and the
ends of an edge; and a deleted edge stays deleted.
-/

namespace RGraph.Graph

open RGraph.Lib RGraph.Storage RGraph.Wal RGraph.Index Call

/-! ## Records -/

/-- The id of a node, and whether it is deleted. -/
def nodeTie (r : Bytes) : Option (UInt64 × Bool) :=
  (NodeRecord.decode r).map fun n => (n.nodeId, n.isDeleted)

/-- The id of an edge and the ids of its ends. -/
def edgeTie (r : Bytes) : Option (UInt64 × UInt64 × UInt64) :=
  (EdgeRecord.decode r).map fun g => (g.edgeId, g.sourceId, g.targetId)

def edgeLive (r : Bytes) : Bool := (EdgeRecord.decode r).any (!·.isDeleted)

structure Follows (r r' : Bytes) : Prop where
  length : r'.length = r.length
  node : nodeTie r' = nodeTie r
  edge : edgeTie r' = edgeTie r
  live : edgeLive r' = true → edgeLive r = true

namespace Follows

variable {r r₁ r₂ : Bytes}

theorem refl (r : Bytes) : Follows r r := ⟨rfl, rfl, rfl, id⟩

theorem trans (h : Follows r r₁) (h' : Follows r₁ r₂) : Follows r r₂ :=
  ⟨h'.length.trans h.length, h'.node.trans h.node, h'.edge.trans h.edge,
    fun hl => h.live (h'.live hl)⟩

theorem of_node {n n' : NodeRecord} (h : NodeRecord.decode r = some n)
    (hid : n'.nodeId = n.nodeId) (hdel : n'.isDeleted = n.isDeleted) : Follows r n'.encode := by
  have hlen := NodeRecord.length_of_decode h
  have hr : EdgeRecord.decode r = none :=
    EdgeRecord.decode_eq_none (by rw [hlen]; decide)
  have hn : EdgeRecord.decode n'.encode = none :=
    EdgeRecord.decode_eq_none (by rw [n'.length_encode]; decide)
  refine ⟨by rw [n'.length_encode, hlen], ?_, ?_, ?_⟩
  · rw [nodeTie, nodeTie, NodeRecord.decode_encode, h]
    rw [Option.map_some, Option.map_some, hid, hdel]
  · rw [edgeTie, edgeTie, hn, hr]
  · rw [edgeLive, hn]
    nofun

theorem of_edge {g g' : EdgeRecord} (h : EdgeRecord.decode r = some g)
    (hid : g'.edgeId = g.edgeId) (hsource : g'.sourceId = g.sourceId)
    (htarget : g'.targetId = g.targetId) (hlive : g'.isDeleted = false → g.isDeleted = false) :
    Follows r g'.encode := by
  have hlen := EdgeRecord.length_of_decode h
  have hr : NodeRecord.decode r = none :=
    NodeRecord.decode_eq_none (by rw [hlen]; decide)
  have hn : NodeRecord.decode g'.encode = none :=
    NodeRecord.decode_eq_none (by rw [g'.length_encode]; decide)
  refine ⟨by rw [g'.length_encode, hlen], ?_, ?_, ?_⟩
  · rw [nodeTie, nodeTie, hn, hr]
  · rw [edgeTie, edgeTie, EdgeRecord.decode_encode, h]
    simp only [Option.map_some, hid, hsource, htarget]
  · rw [edgeLive, edgeLive, EdgeRecord.decode_encode, h]
    simpa using hlive

end Follows

/-! ## Heaps -/

namespace Heap

variable {h h₁ h₂ : Heap} {s : SlotRef} {r : Bytes}

def Evolves (h h' : Heap) : Prop :=
  ∀ s r, h.get s = some r → ∃ r', h'.get s = some r' ∧ Follows r r'

/-- Every record stays as it is. -/
def Grows (h h' : Heap) : Prop := ∀ s r, h.get s = some r → h'.get s = some r

theorem Evolves.refl (h : Heap) : Evolves h h := fun _ r hget => ⟨r, hget, .refl r⟩

theorem Evolves.trans (h₀ : Evolves h h₁) (h' : Evolves h₁ h₂) : Evolves h h₂ := by
  intro s r hget
  obtain ⟨r₁, hget₁, hf₁⟩ := h₀ s r hget
  obtain ⟨r₂, hget₂, hf₂⟩ := h' s r₁ hget₁
  exact ⟨r₂, hget₂, hf₁.trans hf₂⟩

theorem Evolves.set {old : Bytes} (hget : h.get s = some old)
    (hf : Follows old r) : Evolves h (h.set s r) := by
  intro t x hx
  by_cases hts : t = s
  · subst hts
    rw [hget] at hx
    cases hx
    exact ⟨r, get_set_self hget, hf⟩
  · exact ⟨x, (get_set_ne hts).trans hx, .refl x⟩

theorem Grows.refl (h : Heap) : Grows h h := fun _ _ hget => hget

theorem Grows.trans (h₀ : Grows h h₁) (h' : Grows h₁ h₂) : Grows h h₂ :=
  fun s r hget => h' s r (h₀ s r hget)

theorem Grows.append {p : Nat} {slot : SlotRef} (hs : SlotOn h p slot) :
    Grows h (h.append p r) := by
  intro s x hx
  rw [hs.get_append_ne]
  · exact hx
  · rintro rfl
    rw [hs.get_none] at hx
    cases hx

/-- Every page is the old one or the new one. -/
def Mixed (h h₁ h' : Heap) : Prop := ∀ p, h' p = h p ∨ h' p = h₁ p

/-- Pointers and generations have changed at most. -/
structure Rewired (h h' : Heap) : Prop where
  evolves : h.Evolves h'
  marks : h'.marks = h.marks

theorem Rewired.refl (h : Heap) : Rewired h h := ⟨.refl h, rfl⟩

theorem Rewired.trans (h₀ : Rewired h h₁) (h' : Rewired h₁ h₂) : Rewired h h₂ :=
  ⟨h₀.evolves.trans h'.evolves, h'.marks.trans h₀.marks⟩

theorem Rewired.set {old : Bytes} (hget : h.get s = some old)
    (hf : Follows old r) (hface : face r = face old) : Rewired h (h.set s r) :=
  ⟨.set hget hf, marks_set hget hface hf.length⟩

end Heap

/-! ## Patches -/

/-- An access that reads the records of the heap that `View` shows, and
replaces one or fails. -/
structure RecordAccess.Steady {σ : Type} (a : RecordAccess σ)
    (View : σ → Heap → Prop) : Prop where
  read : ∀ {s s' h slot r}, View s h → a.read slot s = .ok (r, s') →
    s' = s ∧ ∀ o, r = .ok o → o = h.get slot
  overwrite : ∀ {s s' h slot r res}, View s h →
    (∀ old, h.get slot = some old → r.length = old.length) →
    a.overwrite slot r s = .ok (res, s') →
    View s' h ∨ View s' (h.set slot r)

namespace RecordAccess.Steady

variable {σ : Type} {a : RecordAccess σ} {View : σ → Heap → Prop} {s : σ}
  {h : Heap} {slot : SlotRef}

/-- A heap is shown that is wired in another way than `h` at most. -/
def Wired (View : σ → Heap → Prop) (h : Heap) (s : σ) : Prop := ∃ h', View s h' ∧ h.Rewired h'

theorem Wired.start (hv : View s h) : Wired View h s := ⟨h, hv, .refl h⟩

theorem Wired.of_rewired {h₁ : Heap} (he : h.Rewired h₁) (hs : Wired View h₁ s) :
    Wired View h s := by
  obtain ⟨h₂, hv₂, he₂⟩ := hs
  exact ⟨h₂, hv₂, he.trans he₂⟩

variable {s' : σ}

/-- A record is read and decoded; the state stays. -/
theorem decoded_cases {α : Type} (ha : a.Steady View) (hv : View s h)
    {dec : Bytes → Option α} {res : Except StorageError α} (hok : (do
      let bytes ← require .notFound (← a.read slot)
      require .notFound (dec bytes) : Call σ StorageError α) s = .ok (res, s')) :
    s' = s ∧ ∀ x, res = .ok x → ∃ r, h.get slot = some r ∧ dec r = some x := by
  cases res with
  | ok x =>
    obtain ⟨o, s₁, hread, hok₁⟩ := bind_ok.mp hok
    obtain ⟨rfl, ho⟩ := ha.read hv hread
    obtain ⟨r, s₂, hreq, hok₂⟩ := bind_ok.mp hok₁
    obtain ⟨hget, rfl⟩ := require_ok.mp hreq
    obtain ⟨hdec, rfl⟩ := require_ok.mp hok₂
    rw [ho _ rfl] at hget
    refine ⟨rfl, fun y hy => ?_⟩
    cases hy
    exact ⟨r, hget, hdec⟩
  | error err =>
    refine ⟨?_, nofun⟩
    rcases bind_err.mp hok with hread | ⟨o, s₁, hread, hok₁⟩
    · exact (ha.read hv hread).1
    obtain ⟨rfl, -⟩ := ha.read hv hread
    rcases bind_err.mp hok₁ with hreq | ⟨r, s₂, hreq, hok₂⟩
    · exact (require_err.mp hreq).2.2.symm
    · obtain ⟨-, rfl⟩ := require_ok.mp hreq
      exact (require_err.mp hok₂).2.2.symm

theorem node_cases (ha : a.Steady View) (hv : View s h) {res : Except StorageError NodeRecord}
    (hok : a.node slot s = .ok (res, s')) : s' = s ∧ ∀ n, res = .ok n →
      ∃ r, h.get slot = some r ∧ NodeRecord.decode r = some n :=
  ha.decoded_cases hv hok

theorem edge_cases (ha : a.Steady View) (hv : View s h) {res : Except StorageError EdgeRecord}
    (hok : a.edge slot s = .ok (res, s')) : s' = s ∧ ∀ g, res = .ok g →
      ∃ r, h.get slot = some r ∧ EdgeRecord.decode r = some g :=
  ha.decoded_cases hv hok

theorem node_ok (ha : a.Steady View) (hv : View s h) {n : NodeRecord}
    (hok : a.node slot s = .ok (.ok n, s')) :
    s' = s ∧ ∃ r, h.get slot = some r ∧ NodeRecord.decode r = some n :=
  ⟨(ha.node_cases hv hok).1, (ha.node_cases hv hok).2 n rfl⟩

theorem edge_ok (ha : a.Steady View) (hv : View s h) {g : EdgeRecord}
    (hok : a.edge slot s = .ok (.ok g, s')) :
    s' = s ∧ ∃ r, h.get slot = some r ∧ EdgeRecord.decode r = some g :=
  ⟨(ha.edge_cases hv hok).1, (ha.edge_cases hv hok).2 g rfl⟩

/-- A record is replaced by one as long as it, or it is not. -/
theorem overwrite_leaves (ha : a.Steady View) (hv : View s h) {r old : Bytes}
    {Q : Heap → Prop} (hget : h.get slot = some old)
    (hlen : r.length = old.length) (hold : Q h) (hset : Q (h.set slot r)) :
    Leaves (fun s' => ∃ h', View s' h' ∧ Q h') (a.overwrite slot r) s := by
  intro res s' hok
  rcases ha.overwrite hv (fun old' hold => by
    rw [hget] at hold
    cases hold
    exact hlen) hok with hv' | hv'
  · exact ⟨h, hv', hold⟩
  · exact ⟨_, hv', hset⟩

/-- A change of pointers and of the generation. -/
structure KeepsTie (g : EdgeRecord → EdgeRecord) : Prop where
  id : ∀ x, (g x).edgeId = x.edgeId
  type : ∀ x, (g x).typeId = x.typeId
  source : ∀ x, (g x).sourceId = x.sourceId
  target : ∀ x, (g x).targetId = x.targetId
  flags : ∀ x, (g x).flags = x.flags

theorem keepsTie_setPrev (side : Side) (slot : SlotRef) : KeepsTie (side.setPrev slot) := by
  cases side <;> exact ⟨fun _ => rfl, fun _ => rfl, fun _ => rfl, fun _ => rfl, fun _ => rfl⟩

theorem keepsTie_setNext (side : Side) (slot : SlotRef) : KeepsTie (side.setNext slot) := by
  cases side <;> exact ⟨fun _ => rfl, fun _ => rfl, fun _ => rfl, fun _ => rfl, fun _ => rfl⟩

theorem KeepsTie.comp {g g' : EdgeRecord → EdgeRecord} (hg : KeepsTie g)
    (hg' : KeepsTie g') : KeepsTie fun x => g (g' x) :=
  ⟨fun x => (hg.id _).trans (hg'.id x), fun x => (hg.type _).trans (hg'.type x),
    fun x => (hg.source _).trans (hg'.source x),
    fun x => (hg.target _).trans (hg'.target x),
    fun x => (hg.flags _).trans (hg'.flags x)⟩

theorem patchEdge_leaves (ha : a.Steady View) (hv : View s h)
    {g : EdgeRecord → EdgeRecord} (hg : KeepsTie g) :
    Leaves (Wired View h) (a.patchEdge slot g) s := by
  refine .bind (fun res s' hok => ?_) fun x s' hok => ?_
  · rw [(ha.edge_cases hv hok).1]
    exact .start hv
  · obtain ⟨rfl, r, hget, hdec⟩ := ha.edge_ok hv hok
    have hf : Follows r (g x).encode := by
      refine .of_edge hdec (hg.id x) (hg.source x) (hg.target x) ?_
      rw [EdgeRecord.isDeleted, EdgeRecord.isDeleted, hg.flags]
      exact id
    exact ha.overwrite_leaves hv hget hf.length (.refl h) (.set hget hf
      (face_edge hdec (hg.id x) (hg.type x) (hg.flags x)))

/-- One more patch, of the heap that the patches before it have left. -/
theorem next_leaves {α β : Type} {x : Call σ StorageError α}
    {f : α → Call σ StorageError β} (hx : Leaves (Wired View h) x s)
    (hf : ∀ a s' h', View s' h' → h.Rewired h' → Leaves (Wired View h') (f a) s') :
    Leaves (Wired View h) (x >>= f) s := by
  refine hx.bind fun a s' hok => ?_
  obtain ⟨h', hv', he⟩ := hx _ s' hok
  exact (hf a s' h' hv' he).mono fun _ => .of_rewired he

/-- The node is written back after the patches of edges, which have left its
face. -/
theorem overwriteNode_leaves (ha : a.Steady View) {h' : Heap}
    (hv : View s h') (he : h.Rewired h') {r : Bytes} {n n' : NodeRecord}
    (hget : h.get slot = some r) (hdec : NodeRecord.decode r = some n)
    (hid : n'.nodeId = n.nodeId) (hlabel : n'.labelId = n.labelId) (hflags : n'.flags = n.flags) :
    Leaves (Wired View h') (a.overwrite slot n'.encode) s := by
  obtain ⟨r', hget', hf⟩ := he.evolves slot r hget
  obtain ⟨r'', hget'', hface, -⟩ := Heap.get_congr he.marks hget
  obtain rfl := Option.some.inj (hget'.symm.trans hget'')
  have htie := hf.node
  rw [nodeTie, nodeTie, hdec, Option.map_some] at htie
  obtain ⟨m, hm, hmn⟩ := Option.map_eq_some_iff.mp htie
  obtain ⟨hmid, hmdel⟩ := Prod.mk.inj hmn
  have hdel : n'.isDeleted = n.isDeleted := by
    rw [NodeRecord.isDeleted, NodeRecord.isDeleted, hflags]
  have hf' : Follows r' n'.encode := .of_node hm (hid.trans hmid.symm) (hdel.trans hmdel.symm)
  exact ha.overwrite_leaves hv hget' hf'.length (.refl h') (.set hget' hf'
    ((face_node hdec hid hlabel hflags).trans hface.symm))

theorem setHead_face (side : Side) (slot : SlotRef) (n : NodeRecord) :
    (side.setHead slot n).touched.nodeId = n.nodeId ∧
      (side.setHead slot n).touched.labelId = n.labelId ∧
      (side.setHead slot n).touched.flags = n.flags := by
  cases side <;> exact ⟨rfl, rfl, rfl⟩

theorem wire_leaves (ha : a.Steady View) (hv : View s h) (side : Side)
    (edgeSlot nodeSlot : SlotRef) : Leaves (Wired View h) (a.wire side edgeSlot nodeSlot) s := by
  refine .bind (fun res s' hok => ?_) fun n s' hok => ?_
  · rw [(ha.node_cases hv hok).1]
    exact .start hv
  obtain ⟨rfl, r, hget, hdec⟩ := ha.node_ok hv hok
  obtain ⟨hid, hlabel, hflags⟩ := setHead_face side edgeSlot n
  refine next_leaves (ha.patchEdge_leaves hv
    ((keepsTie_setPrev side _).comp (keepsTie_setNext side _)))
    fun _ s₁ h₁ hv₁ he₁ => ?_
  refine next_leaves (.when (ha.patchEdge_leaves hv₁
    (keepsTie_setPrev side _)) (.start hv₁)) fun _ s₂ h₂ hv₂ he₂ => ?_
  exact ha.overwriteNode_leaves hv₂ (he₁.trans he₂) hget hdec hid hlabel hflags

theorem unwire_leaves (ha : a.Steady View) (hv : View s h) (side : Side)
    (edgeSlot nodeSlot : SlotRef) : Leaves (Wired View h) (a.unwire side edgeSlot nodeSlot) s := by
  refine .bind (fun res s' hok => ?_) fun x s' hok => ?_
  · rw [(ha.edge_cases hv hok).1]
    exact .start hv
  obtain ⟨rfl, -⟩ := ha.edge_cases hv hok
  refine next_leaves (.when (ha.patchEdge_leaves hv
    (keepsTie_setNext side _)) (.start hv)) fun _ s₁ h₁ hv₁ _ => ?_
  refine next_leaves (.when (ha.patchEdge_leaves hv₁
    (keepsTie_setPrev side _)) (.start hv₁)) fun _ s₂ h₂ hv₂ _ => ?_
  refine next_leaves (ha.patchEdge_leaves hv₂
    ((keepsTie_setNext side _).comp (keepsTie_setPrev side _)))
    fun _ s₃ h₃ hv₃ _ => ?_
  split
  · refine .bind (fun res s' hok => ?_) fun n s' hok => ?_
    · rw [(ha.node_cases hv₃ hok).1]
      exact .start hv₃
    obtain ⟨rfl, r, hget, hdec⟩ := ha.node_ok hv₃ hok
    obtain ⟨hid, hlabel, hflags⟩ := setHead_face side (side.next x) n
    refine next_leaves (ha.overwriteNode_leaves hv₃ (.refl h₃) hget hdec hid
      hlabel hflags) fun _ s₄ h₄ hv₄ _ => ?_
    intro res s' hok
    cases hok
    exact .start hv₄
  · intro res s' hok
    cases hok
    exact .start hv₃

/-- The edge is taken out of the two lists, or out of one, or in part. -/
theorem unwireBody_leaves {f : Faults} {e : GraphStorageEngine}
    {View : GraphStorageEngine → Heap → Prop} (ha : (direct f).Steady View)
    (hv : View e h) (slot : SlotRef) (g : EdgeRecord) :
    Leaves (Wired View h) (unwireBody f slot g) e := by
  have hunwire : ∀ side nodeSlot {e' h'}, View e' h' →
      Leaves (Wired View h') (do let _ ← (direct f).unwire side slot nodeSlot : EngineM Unit)
        e' := by
    intro side nodeSlot e' h' hv'
    refine next_leaves (ha.unwire_leaves hv' side slot nodeSlot) fun _ e₁ h₁ hv₁ _ => ?_
    intro res e' hok
    cases hok
    exact .start hv₁
  exact next_leaves (.when (hunwire .source g.sourceNode hv) (.start hv))
    fun _ e₁ h₁ hv₁ _ => .when (hunwire .target g.targetNode hv₁) (.start hv₁)

end RecordAccess.Steady

/-! ### Access -/

variable {e e' : GraphStorageEngine} {f : Faults}

theorem readRecord_cases {h : Heap} {slot : SlotRef}
    {res : Except StorageError (Option Bytes)} (hs : Shows e.store h)
    (hok : readRecord f slot e = .ok (res, e')) : e' = e ∧ ∀ o, res = .ok o → o = h.get slot := by
  refine ⟨readRecord_frame (R := fun e e' => e' = e) _ _ _ _ hok, fun o ho => ?_⟩
  subst ho
  exact (readRecord_ok hs hok).1

/-- A page is replaced, or the state is as before. -/
theorem writePage_cases {p : Nat} {pg : SlottedPage}
    {res : Except StorageError Unit} (hok : writePage f p pg e = .ok (res, e')) :
    e' = e ∨ res = .ok () ∧ ∃ st, PageStore.Written e.store p pg st ∧
      e' = { e with store := st } := by
  cases res with
  | ok u =>
    obtain ⟨-, st, hst, rfl⟩ := writePage_ok.mp hok
    exact .inr ⟨rfl, st, PageStore.written hst, rfl⟩
  | error err =>
    left
    rw [writePage, get_bind] at hok
    split at hok
    · cases hok
      rfl
    · rcases bind_err.mp hok with hreq | ⟨st, e₁, -, hmod⟩
      · exact (require_err.mp hreq).2.2.symm
      · exact absurd hmod modify_not_err

/-- A record is replaced, or the state is as before. -/
theorem overwriteRecord_cases {h : Heap} {slot : SlotRef} {r : Bytes}
    {res : Except StorageError Unit} (hs : Shows e.store h)
    (hlen : ∀ old, h.get slot = some old → r.length = old.length)
    (hok : overwriteRecord f slot r e = .ok (res, e')) :
    e' = e ∨ res = .ok () ∧ Shows e'.store (h.set slot r) ∧ InPlace e e' := by
  cases res with
  | ok u =>
    obtain ⟨hshows, hrel, -⟩ := overwriteRecord_ok hs hlen hok
    exact .inr ⟨rfl, hshows, hrel⟩
  | error err =>
    left
    rcases bind_err.mp hok with hread | ⟨pg, e₁, hread, hok₁⟩
    · exact readPage_eq f _ _ _ _ hread
    obtain rfl := readPage_eq f _ _ _ _ hread
    rcases bind_err.mp hok₁ with hres | ⟨pg', e₂, hres, hok₂⟩
    · exact Frame.ofResult (R := fun e e' => e' = e) _ _ _ _ hres
    obtain ⟨-, rfl⟩ := ofResult_ok.mp hres
    rcases writePage_cases hok₂ with heq | ⟨hres, -⟩
    · exact heq
    · cases hres

theorem direct_steady (f : Faults) {View : GraphStorageEngine → Heap → Prop}
    (hshows : ∀ {e h}, View e h → Shows e.store h)
    (hset : ∀ {e e' h slot r}, View e h → Shows e'.store (h.set slot r) →
      InPlace e e' → View e' (h.set slot r)) : (direct f).Steady View := by
  refine ⟨fun hv hok => readRecord_cases (hshows hv) hok,
    fun {e e' h slot r res} hv hlen hok => ?_⟩
  rcases overwriteRecord_cases (hshows hv) hlen hok with rfl | ⟨-, hs, hrel⟩
  · exact .inl hv
  · exact .inr (hset hv hs hrel)

theorem pending_steady (f : Faults) {View : GraphStorageEngine × Pending → Heap → Prop}
    (hshows : ∀ {s h}, View s h → ShowsPending s h) (hset : ∀ {e m m' h slot r}, View (e, m) h →
      ShowsPending (e, m') (h.set slot r) → View (e, m') (h.set slot r)) :
    (pending f).Steady View := by
  have hframe : ∀ slot, Frame (fun s s' => s' = s) (readRecordPending f slot) :=
    fun slot => .bind (readPagePending_eq f _) fun _ => .lift _
  refine ⟨fun {s s' h slot r} hv hok => ⟨hframe _ _ _ _ hok, fun o ho => ?_⟩,
    fun {s s' h slot r res} hv hlen hok => ?_⟩
  · subst ho
    exact (readRecordPending_ok (hshows hv) hok).1
  cases res with
  | ok u =>
    obtain ⟨hs, heq, -⟩ := overwriteIntoPending_ok (hshows hv) hlen hok
    obtain ⟨e', m'⟩ := s'
    obtain rfl : e' = s.1 := heq
    exact .inr (hset hv hs)
  | error err =>
    left
    rcases bind_err.mp hok with hread | ⟨pg, s₁, hread, hok₁⟩
    · rwa [readPagePending_eq f _ _ _ _ hread]
    obtain rfl := readPagePending_eq f _ _ _ _ hread
    rcases bind_err.mp hok₁ with hres | ⟨pg', s₂, hres, hok₂⟩
    · rwa [Frame.ofResult (R := fun s s' => s' = s) _ _ _ _ hres]
    obtain ⟨-, rfl⟩ := ofResult_ok.mp hres
    exact absurd hok₂ modify_not_err

end RGraph.Graph
