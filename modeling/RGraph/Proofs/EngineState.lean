import RGraph.Proofs.EngineRecord

/-!
# The state of the engine between calls

`Stored e h`: the pages of the engine hold the records of the heap `h`, every
page that was allocated is one of them, and slot references reach them all.
Each helper keeps this and extends the heap: `Extends h new h'` says that the
records of `h` are there with their faces, and beside them the records `new`
in slots that were empty.
-/

namespace RGraph.Graph

open RGraph.Lib RGraph.Storage RGraph.Wal RGraph.Index Call List Function

/-! ## Growing heaps -/

structure Extends (h : Heap) (new : List (SlotRef × Bytes)) (h' : Heap) :
    Prop where
  old : ∀ s r, h.get s = some r → ∃ r', h'.get s = some r' ∧ face r' = face r
  cases : ∀ s r', h'.get s = some r' → (∃ r, h.get s = some r ∧ face r' = face r) ∨
      ∃ x ∈ new, x.1 = s ∧ face r' = face x.2
  mem : ∀ x ∈ new, h.get x.1 = none ∧ ∃ r', h'.get x.1 = some r' ∧ face r' = face x.2

namespace Extends

variable {h h₁ h₂ : Heap} {new new' : List (SlotRef × Bytes)}

theorem of_marks (hm : h₁.marks = h.marks) : Extends h [] h₁ := by
  refine ⟨fun s r hget => ?_, fun s r' hget => Or.inl ?_, nofun⟩
  · obtain ⟨r', hr', hf, -⟩ := Heap.get_congr hm hget
    exact ⟨r', hr', hf⟩
  · obtain ⟨r, hr, hf, -⟩ := Heap.get_congr hm.symm hget
    exact ⟨r, hr, hf.symm⟩

theorem refl (h : Heap) : Extends h [] h := of_marks rfl

theorem trans (h₀ : Extends h new h₁) (h' : Extends h₁ new' h₂) : Extends h (new ++ new') h₂ := by
  refine ⟨fun s r hget => ?_, fun s r₂ hget => ?_, fun x hx => ?_⟩
  · obtain ⟨r₁, hr₁, hf₁⟩ := h₀.old s r hget
    obtain ⟨r₂, hr₂, hf₂⟩ := h'.old s r₁ hr₁
    exact ⟨r₂, hr₂, hf₂.trans hf₁⟩
  · rcases h'.cases s r₂ hget with ⟨r₁, hr₁, hf₁⟩ | ⟨x, hx, hs, hf⟩
    · rcases h₀.cases s r₁ hr₁ with ⟨r, hr, hf⟩ | ⟨x, hx, hs, hf⟩
      · exact .inl ⟨r, hr, hf₁.trans hf⟩
      · exact .inr ⟨x, mem_append_left _ hx, hs, hf₁.trans hf⟩
    · exact .inr ⟨x, mem_append_right _ hx, hs, hf⟩
  · rcases mem_append.mp hx with hx | hx
    · obtain ⟨hnone, r₁, hr₁, hf₁⟩ := h₀.mem x hx
      obtain ⟨r₂, hr₂, hf₂⟩ := h'.old x.1 r₁ hr₁
      exact ⟨hnone, r₂, hr₂, hf₂.trans hf₁⟩
    · obtain ⟨hnone, hr⟩ := h'.mem x hx
      refine ⟨?_, hr⟩
      cases hget : h.get x.1 with
      | none => rfl
      | some r =>
        obtain ⟨r₁, hr₁, -⟩ := h₀.old x.1 r hget
        rw [hnone] at hr₁
        cases hr₁

/-- Patches before or after. -/
theorem marks_right (h₀ : Extends h new h₁) (hm : h₂.marks = h₁.marks) : Extends h new h₂ := by
  have := h₀.trans (of_marks hm)
  rwa [append_nil] at this

end Extends

namespace SlotOn

variable {h : Heap} {p : Nat} {slot : SlotRef} {r : Bytes}

theorem pageId_eq (hs : SlotOn h p slot) : slot.pageId = p := by
  rw [hs.eq]
  exact SlotRef.pageId_new hs.page hs.index

theorem slotIndex_eq (hs : SlotOn h p slot) : slot.slotIndex = (h.records p).length := by
  rw [hs.eq]
  exact SlotRef.slotIndex_new hs.page hs.index

theorem get_append_self (hs : SlotOn h p slot) : (h.append p r).get slot = some r := by
  rw [Heap.get, hs.pageId_eq, hs.slotIndex_eq, Heap.append, update_self, Option.bind_some]
  exact List.getElem?_concat_length

theorem get_append_ne (hs : SlotOn h p slot) {s : SlotRef} (hne : s ≠ slot) :
    (h.append p r).get s = h.get s := by
  rw [Heap.get, Heap.get, Heap.append]
  by_cases hp : s.pageId = p
  · subst hp
    have hi : s.slotIndex ≠ (h.records s.pageId).length := by
      intro hi
      apply hne
      rw [← SlotRef.new_pageId_slotIndex s, hi, ← hs.eq]
    rw [update_self, Option.bind_some, Heap.records]
    rw [Heap.records] at hi
    cases hh : h s.pageId with
    | none =>
      rw [hh] at hi
      rw [Option.getD_none, nil_append, Option.bind_none, List.getElem?_eq_none_iff]
      simp only [Option.getD_none, length_nil] at hi
      simp only [length_cons, length_nil]
      omega
    | some rs =>
      rw [hh] at hi
      rw [Option.getD_some, Option.bind_some]
      rcases Nat.lt_or_gt_of_ne hi with hlt | hgt
      · exact List.getElem?_append_left hlt
      · simp only [Option.getD_some] at hgt
        rw [List.getElem?_eq_none_iff.mpr (by simp; omega),
          List.getElem?_eq_none_iff.mpr (by omega)]
  · rw [update_of_ne hp]

theorem get_none (hs : SlotOn h p slot) : h.get slot = none := by
  rw [Heap.get, hs.pageId_eq, hs.slotIndex_eq, Heap.records]
  cases h p with
  | none => rfl
  | some rs => simp

theorem extends_append (hs : SlotOn h p slot) : Extends h [(slot, r)] (h.append p r) := by
  refine ⟨fun s r' hget => ?_, fun s r' hget => ?_, fun x hx => ?_⟩
  · by_cases hne : s = slot
    · subst hne
      rw [hs.get_none] at hget
      cases hget
    · exact ⟨r', (hs.get_append_ne hne).trans hget, rfl⟩
  · by_cases hne : s = slot
    · subst hne
      rw [hs.get_append_self] at hget
      cases hget
      exact .inr ⟨_, mem_singleton_self _, rfl, rfl⟩
    · rw [hs.get_append_ne hne] at hget
      exact .inl ⟨r', hget, rfl⟩
  · cases mem_singleton.mp hx
    exact ⟨hs.get_none, r, hs.get_append_self, rfl⟩

end SlotOn

/-! ## Pages -/

structure PagesOk (next : Nat) (h : Heap) : Prop where
  first : firstDataPageId ≤ next
  page : ∀ p, (h p).isSome ↔ p < next ∧ isReserved p = false
  small : ∀ p rs, h p = some rs →
    p ≤ SlotRef.maxPageId ∧ rs.length ≤ SlotRef.maxSlotIndex + 1 ∧ rs ≠ []

/-- The same pages with as many records each. -/
def SameShape (h h' : Heap) : Prop := ∀ p, (h' p).map List.length = (h p).map List.length

theorem SameShape.set (h : Heap) (s : SlotRef) (r : Bytes) : SameShape h (h.set s r) := by
  intro p
  rw [Heap.set]
  by_cases hp : p = s.pageId
  · subst hp
    rw [update_self, Option.map_map]
    simp [Function.comp_def]
  · rw [update_of_ne hp]

theorem SameShape.isSome {h h' : Heap} (hm : SameShape h h') (p : Nat) :
    (h' p).isSome = (h p).isSome := by
  have := congrArg Option.isSome (hm p)
  rwa [Option.isSome_map, Option.isSome_map] at this

theorem PagesOk.of_shape {next : Nat} {h h' : Heap} (hp : PagesOk next h)
    (hm : SameShape h h') : PagesOk next h' := by
  refine ⟨hp.first, fun p => ?_, fun p rs hrs => ?_⟩
  · rw [hm.isSome]
    exact hp.page p
  · have := hm p
    rw [hrs, Option.map_some] at this
    obtain ⟨rs', hrs', hl⟩ := Option.map_eq_some_iff.mp this.symm
    obtain ⟨hle, hlen, hne⟩ := hp.small p rs' hrs'
    refine ⟨hle, by omega, ?_⟩
    rintro rfl
    exact hne (eq_nil_of_length_eq_zero hl)

section Placed

variable {h : Heap} {n : Nat} {e e' : GraphStorageEngine} {k : RecordKind}
  {p : Nat} {slot : SlotRef} {r : Bytes}

theorem NewPage.not_reserved {next : Nat} (hnew : NewPage next p)
    (hfirst : firstDataPageId ≤ next) : isReserved p = false := by
  rw [isReserved, hnew.data, Bool.or_false, decide_eq_false_iff_not]
  have := hnew.le
  omega

/-- The pages with a record more. -/
theorem PagesOk.append (hp : PagesOk e.store.nextFreePageId h)
    (hpl : Placed h n e k p e') (hs : SlotOn h p slot) :
    PagesOk e'.store.nextFreePageId (h.append p r) := by
  have hsmall : ∀ q rs, h.append p r q = some rs → q ≤ SlotRef.maxPageId ∧
      rs.length ≤ SlotRef.maxSlotIndex + 1 ∧ rs ≠ [] := by
    intro q rs hq
    rw [Heap.append] at hq
    by_cases hqp : q = p
    · subst hqp
      rw [update_self] at hq
      cases hq
      have := hs.index
      exact ⟨hs.page, by simp; omega, by simp⟩
    · rw [update_of_ne hqp] at hq
      exact hp.small q rs hq
  cases hpl with
  | found hroom hsome =>
    refine ⟨hp.first, fun q => ?_, hsmall⟩
    rw [← hp.page q, Heap.append]
    by_cases hqp : q = p
    · subst hqp
      rw [update_self]
      simp [hsome]
    · rw [update_of_ne hqp]
  | fresh hroom hnew =>
    have hres := hnew.not_reserved hp.first
    have hle := hnew.le
    refine ⟨Nat.le_trans hp.first (Nat.le_succ_of_le hle), fun q => ?_, hsmall⟩
    rw [Heap.append]
    show _ ↔ q < p + 1 ∧ _
    by_cases hqp : q = p
    · subst hqp
      simp [hres]
    · rw [update_of_ne hqp, hp.page q]
      constructor
      · rintro ⟨hlt, hq⟩
        exact ⟨by omega, hq⟩
      · rintro ⟨hlt, hq⟩
        refine ⟨?_, hq⟩
        -- between the mark and the page there are bitmaps
        by_contra hge
        have hb := hnew.between q (by omega) (by omega)
        rw [isReserved, hb, Bool.or_true] at hq
        cases hq

theorem PagesOk.below (hp : PagesOk e.store.nextFreePageId h) : BelowMark e h :=
  fun p hsome => ((hp.page p).mp hsome).1

theorem PagesOk.data {next : Nat} (hp : PagesOk next h) (hsome : (h p).isSome) :
    firstDataPageId ≤ p := by
  have hres := ((hp.page p).mp hsome).2
  rw [isReserved, Bool.or_eq_false_iff, decide_eq_false_iff_not] at hres
  exact Nat.le_of_not_lt hres.1

theorem Placed.lists (hpl : Placed h n e k p e') {k' : RecordKind} {q : Nat}
    (hq : q ∈ e'.pageList k') : q ∈ e.pageList k' ∨ q = p := by
  cases hpl with
  | found hroom hsome => exact .inl hq
  | fresh hroom hnew =>
    have hq : q ∈ update e.pageList k (e.pageList k ++ [p]) k' := hq
    by_cases hk : k' = k
    · subst hk
      simpa using hq
    · rw [update_of_ne hk] at hq
      exact .inl hq

theorem Heap.isSome_append {q : Nat} (hq : (h q).isSome ∨ q = p) : (h.append p r q).isSome := by
  rw [Heap.append]
  by_cases hqp : q = p
  · subst hqp
    rw [update_self]
    rfl
  · rw [update_of_ne hqp]
    exact hq.resolve_right hqp

end Placed

/-! ## Engines -/

structure Stored (e : GraphStorageEngine) (h : Heap) : Prop where
  shows : Shows e.store h
  pages : PagesOk e.store.nextFreePageId h
  lists : ∀ k, ∀ p ∈ e.pageList k, (h p).isSome

theorem stored_init : Stored GraphStorageEngine.init fun _ => none := by
  refine ⟨⟨fun p => .none, fun p hp => by cases hp⟩,
    ⟨Nat.le_refl _, fun p => ?_, nofun⟩, fun k p hp => by cases hp⟩
  show false = true ↔ p < firstDataPageId ∧ _
  rw [isReserved]
  constructor
  · nofun
  · rintro ⟨hlt, hres⟩
    simp [hlt] at hres

/-- A call that only moved records: pages may have been written in place or
allocated, nothing else has changed. -/
structure Moved (e e' : GraphStorageEngine) : Prop where
  same : SameButPages e e'
  kept : Kept e.store e'.store

namespace Stored

variable {e e' : GraphStorageEngine} {h h' : Heap} {f : Faults}

theorem insertRecord (hs : Stored e h) {k : RecordKind} {r : Bytes}
    {slot : SlotRef} (hok : insertRecord f k r e = .ok (.ok slot, e')) :
    ∃ h', Stored e' h' ∧ Extends h [(slot, r)] h' ∧ Moved e e' := by
  obtain ⟨p, e₁, hpl, hslot, hshows, hkept, hsame, hlists, hnext⟩ :=
    insertRecord_ok hs.shows hs.pages.below hok
  refine ⟨h.append p r, ⟨hshows, ?_, ?_⟩, hslot.extends_append, ⟨hsame, hkept⟩⟩
  · rw [hnext]
    exact hs.pages.append hpl hslot
  · intro k' q hq
    rw [hlists] at hq
    apply Heap.isSome_append
    rcases hpl.lists hq with hq | hq
    · exact .inl (hs.lists k' q hq)
    · exact .inr hq

/-- Writes in place. -/
theorem inPlace (hs : Stored e h) (hshows : Shows e'.store h')
    (hrel : InPlace e e') (hm : SameShape h h') : Stored e' h' ∧ Moved e e' := by
  refine ⟨⟨hshows, ?_, ?_⟩, ⟨hrel.same, hrel.kept⟩⟩
  · rw [hrel.next]
    exact hs.pages.of_shape hm
  · intro k p hmem
    rw [hrel.pageList] at hmem
    rw [hm.isSome]
    exact hs.lists k p hmem

/-- The state that only differs in the log, the trees or the transactions. -/
theorem congr (hs : Stored e h) (hstore : e'.store = e.store)
    (hlists : e'.pageList = e.pageList) : Stored e' h := by
  refine ⟨?_, ?_, ?_⟩
  · rw [hstore]
    exact hs.shows
  · rw [hstore]
    exact hs.pages
  · rw [hlists]
    exact hs.lists

end Stored

end RGraph.Graph
