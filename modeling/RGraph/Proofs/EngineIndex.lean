import RGraph.Lib.OrderedMap
import RGraph.Proofs.EngineState

/-!
# The trees of the engine and the records

`Linked`: every entry of a tree leads to a record of that kind, id and label
or type. `Complete`: every record that looks like a node or an edge is found
in the trees. What a call does to both sides at once is an `Effect`: it makes
the heap grow, or enters one entity, or marks one as deleted. All effects keep
the trees linked. They keep them complete as long as no property looks like a
node or an edge.
-/

namespace RGraph.Graph

open RGraph.Lib RGraph.Storage RGraph.Wal RGraph.Index Call

abbrev Trees := EngineTree → Std.ExtTreeMap Bytes SlotRef

namespace EntityKind

def idTree : EntityKind → EngineTree
  | .node => .node
  | .edge => .edge

def groupTree : EntityKind → EngineTree
  | .node => .label
  | .edge => .type

end EntityKind

/-! ## Keys -/

def idKey (id : UInt64) : Bytes := nodeIdKey id.toNat

def groupKey (group : UInt32) (id : UInt64) : Bytes := labelKey group id

theorem natToBE_inj {w m n : Nat} (hm : m < 256 ^ w) (hn : n < 256 ^ w)
    (h : natToBE w m = natToBE w n) : m = n := by
  rw [← beToNat_natToBE w m hm, h, beToNat_natToBE w n hn]

theorem idKey_inj {id id' : UInt64} (h : idKey id = idKey id') : id = id' := by
  have h1 := id.toNat_lt
  have h2 := id'.toNat_lt
  exact UInt64.toNat_inj.mp (natToBE_inj (by omega) (by omega) h)

theorem groupKey_inj {group group' : UInt32} {id id' : UInt64}
    (h : groupKey group id = groupKey group' id') : group = group' ∧ id = id' := by
  have h1 := group.toNat_lt
  have h2 := group'.toNat_lt
  obtain ⟨hg, hid⟩ := List.append_inj h (by
    rw [length_natToBE, length_natToBE])
  exact ⟨UInt32.toNat_inj.mp (natToBE_inj (by omega) (by omega) hg), idKey_inj hid⟩

/-! ## Linked and complete -/

structure Linked (h : Heap) (tree : Trees) : Prop where
  byId : ∀ kind key s, (tree (EntityKind.idTree kind))[key]? = some s →
    ∃ id group d, key = idKey id ∧ h.faceAt s = some (.entity kind id group d)
  byGroup : ∀ kind key s, (tree (EntityKind.groupTree kind))[key]? = some s →
    ∃ id group d, key = groupKey group id ∧ h.faceAt s = some (.entity kind id group d) ∧
      (tree kind.idTree)[idKey id]? = some s

structure Complete (h : Heap) (tree : Trees) : Prop where
  byId : ∀ kind id group d s, h.faceAt s = some (.entity kind id group d) →
    (tree (EntityKind.idTree kind))[idKey id]? = some s
  byGroup : ∀ kind id group s, h.faceAt s = some (.entity kind id group false) →
    (tree (EntityKind.groupTree kind))[groupKey group id]? = some s

theorem linked_init (h : Heap) : Linked h GraphStorageEngine.init.tree := by
  have hnone : ∀ t key, (GraphStorageEngine.init.tree t)[key]? = none :=
    fun t key => Std.ExtTreeMap.getElem?_empty
  refine ⟨fun kind key s hget => ?_, fun kind key s hget => ?_⟩ <;>
  · rw [hnone] at hget
    cases hget

theorem complete_init (tree : Trees) : Complete (fun _ => none) tree := ⟨nofun, nofun⟩

/-! ## Entering and removing -/

structure Entered (tree : Trees) (kind : EntityKind) (id : UInt64)
    (group : UInt32) (s : SlotRef) (tree' : Trees) : Prop where
  byId : ∀ kind' key, (tree' (EntityKind.idTree kind'))[key]? =
    if kind' = kind ∧ key = idKey id then some s else (tree kind'.idTree)[key]?
  byGroup : ∀ kind' key, (tree' (EntityKind.groupTree kind'))[key]? =
    if kind' = kind ∧ key = groupKey group id then some s
    else (tree kind'.groupTree)[key]?

structure Removed (tree : Trees) (kind : EntityKind) (id : UInt64)
    (group : UInt32) (tree' : Trees) : Prop where
  byId : ∀ kind', tree' (EntityKind.idTree kind') = tree kind'.idTree
  byGroup : ∀ kind' key, (tree' (EntityKind.groupTree kind'))[key]? =
    if kind' = kind ∧ key = groupKey group id then none
    else (tree kind'.groupTree)[key]?

theorem entered_insert (e : GraphStorageEngine) (kind : EntityKind)
    (id : UInt64) (group : UInt32) (s : SlotRef) : Entered e.tree kind id group s
      ((e.callTree kind.idTree (.insert (idKey id) s)).callTree kind.groupTree
        (.insert (groupKey group id) s)).tree := by
  constructor <;>
  · intro kind' key
    cases kind <;> cases kind' <;> simp [EntityKind.idTree, EntityKind.groupTree,
        GraphStorageEngine.callTree, TreeOp.onMap, Function.update, getElem?_insert_eq]

theorem removed_erase (e : GraphStorageEngine) (kind : EntityKind) (id : UInt64) (group : UInt32) :
    Removed e.tree kind id group
      (e.callTree kind.groupTree (.delete (groupKey group id))).tree := by
  constructor
  · intro kind'
    cases kind <;> cases kind' <;> rfl
  · intro kind' key
    cases kind <;> cases kind' <;>
      simp [EntityKind.groupTree, GraphStorageEngine.callTree, TreeOp.onMap, Function.update,
        getElem?_erase_eq]

/-! ## Effects -/

/-- What a call that was given the properties `props` did. -/
inductive Effect (props : List PropertyRecord) (h : Heap) (tree : Trees) :
    Action → Heap → Trees → Prop
  | grow {new : List (SlotRef × Bytes)} {h' : Heap} (hext : Extends h new h')
      (hnew : ∀ x ∈ new, ∃ prop ∈ props, x.2.length = prop.onDiskSize) :
      Effect props h tree .grow h' tree
  | enter {kind : EntityKind} {id : UInt64} {group : UInt32} {d : Bool}
      {s : SlotRef} {new : List (SlotRef × Bytes)} {h' : Heap} {tree' : Trees}
      (hext : Extends h new h')
      (hface : h'.faceAt s = some (.entity kind id group d))
      (habsent : (tree kind.idTree)[idKey id]? = none)
      (hnew : ∀ x ∈ new, x.1 = s ∨ ∃ prop ∈ props, x.2.length = prop.onDiskSize)
      (hent : Entered tree kind id group s tree') :
      Effect props h tree (.enter kind id group d) h' tree'
  | remove {kind : EntityKind} {id : UInt64} {group : UInt32} {d : Bool}
      {s : SlotRef} {h' : Heap} {tree' : Trees}
      (hidx : (tree kind.idTree)[idKey id]? = some s)
      (hface : h.faceAt s = some (.entity kind id group d))
      (hrest : ∀ t, h'.faceAt t =
        if t = s then some (.entity kind id group true) else h.faceAt t)
      (hrem : Removed tree kind id group tree') :
      Effect props h tree (.remove kind id) h' tree'

/-- No property has the length of a node or of an edge. -/
def PropsDistinct (props : List PropertyRecord) : Prop :=
  ∀ prop ∈ props, prop.onDiskSize ≠ NodeRecord.size ∧ prop.onDiskSize ≠ EdgeRecord.size

instance (props : List PropertyRecord) : Decidable (PropsDistinct props) :=
  inferInstanceAs (Decidable (∀ prop ∈ props, _))

section Effects

variable {props : List PropertyRecord} {h h' : Heap} {tree tree' : Trees}
  {act : Action} {new : List (SlotRef × Bytes)}

theorem Extends.faceAt (hext : Extends h new h') {s : SlotRef} {x : Face}
    (hs : h.faceAt s = some x) : h'.faceAt s = some x := by
  obtain ⟨r, hr, rfl⟩ := Option.map_eq_some_iff.mp hs
  obtain ⟨r', hr', hf⟩ := hext.old s r hr
  rw [Heap.faceAt, hr', Option.map_some, hf]

/-- A new record that is no property is the one at `s`. -/
theorem Extends.faceAt_new (hext : Extends h new h') (hp : PropsDistinct props)
    {P : SlotRef → Prop} (hnew : ∀ x ∈ new, P x.1 ∨ ∃ prop ∈ props, x.2.length = prop.onDiskSize)
    {t : SlotRef} {kind : EntityKind} {id : UInt64} {group : UInt32} {d : Bool}
    (ht : h'.faceAt t = some (.entity kind id group d)) :
    h.faceAt t = some (.entity kind id group d) ∨ P t := by
  obtain ⟨r', hr', hf⟩ := Option.map_eq_some_iff.mp ht
  rcases hext.cases t r' hr' with ⟨r, hr, hfr⟩ | ⟨x, hx, rfl, hfx⟩
  · left
    rw [Heap.faceAt, hr, Option.map_some, ← hfr, hf]
  · right
    refine (hnew x hx).resolve_right ?_
    rintro ⟨prop, hprop, hlen⟩
    obtain ⟨h32, h64⟩ := hp prop hprop
    rw [← hlen] at h32 h64
    rw [hfx, face_of_length h32 h64] at hf
    cases hf

theorem Effect.linked (heff : Effect props h tree act h' tree')
    (hl : Linked h tree) : Linked h' tree' := by
  cases heff with
  | grow hext hnew =>
    constructor
    · intro kind key s hget
      obtain ⟨id, group, d, hkey, hf⟩ := hl.byId kind key s hget
      exact ⟨id, group, d, hkey, hext.faceAt hf⟩
    · intro kind key s hget
      obtain ⟨id, group, d, hkey, hf, hid⟩ := hl.byGroup kind key s hget
      exact ⟨id, group, d, hkey, hext.faceAt hf, hid⟩
  | @enter kind id group d s new h' tree' hext hface habsent hnew hent =>
    constructor
    · intro kind' key t hget
      rw [hent.byId] at hget
      split at hget
      · next heq =>
          obtain ⟨rfl, hkey⟩ := heq
          cases hget
          exact ⟨id, group, d, hkey, hface⟩
      · obtain ⟨id', group', d', hkey, hf⟩ := hl.byId kind' key t hget
        exact ⟨id', group', d', hkey, hext.faceAt hf⟩
    · intro kind' key t hget
      rw [hent.byGroup] at hget
      split at hget
      · next heq =>
          obtain ⟨rfl, hkey⟩ := heq
          cases hget
          exact ⟨id, group, d, hkey, hface, by
            rw [hent.byId, if_pos ⟨rfl, rfl⟩]⟩
      · obtain ⟨id', group', d', hkey, hf, hid⟩ := hl.byGroup kind' key t hget
        refine ⟨id', group', d', hkey, hext.faceAt hf, ?_⟩
        rw [hent.byId, if_neg]
        · exact hid
        · rintro ⟨rfl, hk⟩
          rw [hk, habsent] at hid
          cases hid
  | @remove kind id group d s h' tree' hidx hface hrest hrem =>
    -- an entity keeps its id and group, deleted or not
    have hkeep : ∀ {kind' id' group' d' t},
        h.faceAt t = some (.entity kind' id' group' d') →
        ∃ d'', h'.faceAt t = some (.entity kind' id' group' d'') := by
      intro kind' id' group' d' t ht
      rw [hrest]
      split
      · next hts =>
          subst hts
          rw [hface] at ht
          cases ht
          exact ⟨true, rfl⟩
      · exact ⟨d', ht⟩
    constructor
    · intro kind' key t hget
      rw [hrem.byId] at hget
      obtain ⟨id', group', d', hkey, hf⟩ := hl.byId kind' key t hget
      obtain ⟨d'', hf'⟩ := hkeep hf
      exact ⟨id', group', d'', hkey, hf'⟩
    · intro kind' key t hget
      rw [hrem.byGroup] at hget
      split at hget
      · cases hget
      · obtain ⟨id', group', d', hkey, hf, hid⟩ := hl.byGroup kind' key t hget
        obtain ⟨d'', hf'⟩ := hkeep hf
        refine ⟨id', group', d'', hkey, hf', ?_⟩
        rw [hrem.byId]
        exact hid

theorem Effect.complete (heff : Effect props h tree act h' tree')
    (hp : PropsDistinct props) (hc : Complete h tree) : Complete h' tree' := by
  cases heff with
  | grow hext hnew =>
    have hold : ∀ {t kind id group d},
        h'.faceAt t = some (.entity kind id group d) →
        h.faceAt t = some (.entity kind id group d) := fun ht =>
      (hext.faceAt_new hp (P := fun _ => False)
        (fun x hx => Or.inr (hnew x hx)) ht).resolve_right id
    exact ⟨fun kind id group d s hs => hc.byId kind id group d s (hold hs),
      fun kind id group s hs => hc.byGroup kind id group s (hold hs)⟩
  | @enter kind id group d s new h' tree' hext hface habsent hnew hent =>
    constructor
    · intro kind' id' group' d' t ht
      rw [hent.byId]
      rcases hext.faceAt_new hp (P := (· = s)) hnew ht with hold | rfl
      · have hidx := hc.byId kind' id' group' d' t hold
        rw [if_neg]
        · exact hidx
        · rintro ⟨rfl, hk⟩
          rw [hk, habsent] at hidx
          cases hidx
      · rw [hface] at ht
        cases ht
        rw [if_pos ⟨rfl, rfl⟩]
    · intro kind' id' group' t ht
      rw [hent.byGroup]
      rcases hext.faceAt_new hp (P := (· = s)) hnew ht with hold | rfl
      · rw [if_neg]
        · exact hc.byGroup kind' id' group' t hold
        · rintro ⟨rfl, hk⟩
          have hidx := hc.byId kind' id' group' false t hold
          rw [(groupKey_inj hk).2, habsent] at hidx
          cases hidx
      · rw [hface] at ht
        cases ht
        rw [if_pos ⟨rfl, rfl⟩]
  | @remove kind id group d s h' tree' hidx hface hrest hrem =>
    constructor
    · intro kind' id' group' d' t ht
      rw [hrem.byId]
      rw [hrest] at ht
      split at ht
      · next hts =>
          cases ht
          rw [hts]
          exact hidx
      · exact hc.byId kind' id' group' d' t ht
    · intro kind' id' group' t ht
      rw [hrest] at ht
      split at ht
      · cases ht
      · next hts =>
          rw [hrem.byGroup, if_neg]
          · exact hc.byGroup kind' id' group' t ht
          · rintro ⟨rfl, hk⟩
            -- two live records with one id
            have hidx' := hc.byId kind' id' group' false t ht
            rw [(groupKey_inj hk).2, hidx] at hidx'
            cases hidx'
            exact hts rfl

end Effects

end RGraph.Graph
