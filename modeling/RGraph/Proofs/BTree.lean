import RGraph.Proofs.BTreeShape

/-!
# Steps of a call on the tree

What each step of a call leaves for the rest of it, and inserts into a tree of
one leaf with room, which are one page written.
-/

namespace RGraph.Index

open RGraph.Lib RGraph.Storage Call TreeM

/-! ## Steps of a call -/

section Steps

variable {β : Type}

@[simp] theorem tree_bind (f : BPlusTree → TreeM β) (t : BPlusTree) : (tree >>= f) t = f t t := rfl

@[simp] theorem getPage_bind (id : PageId) (f : Option BTreePage → TreeM β)
    (t : BPlusTree) : (getPage id >>= f) t = f (t.pages id) t := rfl

/-- The tree after a page was stored. -/
def BPlusTree.put (t : BPlusTree) (id : PageId) (page : BTreePage) : BPlusTree :=
  { t with
    nextLsn := t.nextLsn + 1
    pages := Function.update t.pages id (some (page.setPageLsn t.nextLsn))
    history := .put id (page.setPageLsn t.nextLsn) :: t.history }

end Steps

/-! ## One leaf -/

section Leaf

variable {t : BPlusTree} {as bs : List Entry} {e : Entry}

theorem LeafTree.put (h : LeafTree t (as ++ bs)) {page page' : BTreePage}
    (hpage : t.pages t.rootPageId = some page) (hleaf : LeafPage page' t.rootPageId (as ++ e :: bs))
    (hlinks : page'.links = page.links) (has : ∀ a ∈ as, a.1 < e.1) (hbs : ∀ b ∈ bs, e.1 < b.1) :
    LeafTree (t.put t.rootPageId page') (as ++ e :: bs) := by
  obtain ⟨_, hp, -, hnext⟩ := h.page
  cases hpage.symm.trans hp
  refine ⟨⟨_, Function.update_self .., hleaf.setPageLsn _, ?_⟩, ?_, h.id, h.lt⟩
  · exact (Prod.mk.inj hlinks).2.trans hnext
  · obtain ⟨ha, hb, hab⟩ := List.pairwise_append.mp h.sorted
    refine List.pairwise_append.mpr ⟨ha, List.pairwise_cons.mpr ⟨hbs, hb⟩, fun a hmem b hb => ?_⟩
    rcases List.mem_cons.mp hb with rfl | hb
    · exact has a hmem
    · exact hab a hmem b hb

/-- A new key goes into the leaf while there is room. -/
theorem LeafTree.insert (h : LeafTree t (as ++ bs)) (has : ∀ a ∈ as, a.1 < e.1)
    (hbs : ∀ b ∈ bs, e.1 < b.1) (he : e.Short)
    (hroom : Room (leafRecords (as ++ bs)) (encodeKv e.1 e.2).length) :
    ∃ t', insertLocked e.1 e.2 t = .ok (.ok (), t') ∧ LeafTree t' (as ++ e :: bs) := by
  obtain ⟨page, hpage, hleaf, -⟩ := h.page
  rw [insertLocked, tree_bind, getPage_bind, hpage, require_bind]
  dsimp only
  split
  · next hempty =>
    -- the fast path of an empty tree
    rw [hleaf.keyCount, List.length_eq_zero_iff, List.append_eq_nil_iff] at hempty
    obtain ⟨-, ⟨rfl, rfl⟩, -⟩ := hempty
    obtain ⟨page', hins, hleaf', hlinks⟩ := hleaf.insertRaw he hroom
    rw [hins, lift_bind]
    exact ⟨_, rfl, h.put hpage hleaf' hlinks has hbs⟩
  · have hdown : t.descendToLeafWithPath e.1 t.nextPageId page [] =
        .ok (some (t.rootPageId, page, [])) := by
      have hno : ¬ page.isBranch = true := by
        rw [hleaf.holds.isBranch]
        exact Bool.false_ne_true
      cases t.nextPageId with
      | zero => rw [BPlusTree.descendToLeafWithPath, if_neg hno, hleaf.holds.id]
      | succ n => rw [BPlusTree.descendToLeafWithPath, if_neg hno, hleaf.holds.id]
    have hnew : ¬ (as ++ bs)[as.length]?.map Prod.fst = some e.1 := by
      rw [List.getElem?_append_right (Nat.le_refl _), Nat.sub_self]
      cases bs with
      | nil => nofun
      | cons b bs => exact fun hb => (hbs b List.mem_cons_self).ne' (Option.some.inj hb)
    obtain ⟨page', hins, hleaf', hlinks⟩ := hleaf.insertRawAt he hroom
    rw [insertDescend, tree_bind, hdown, lift_bind, require_bind]
    dsimp only
    rw [hleaf.leafLowerBound rfl has fun b hb => (hbs b hb).le, lift_bind, hleaf.leafKey, lift_bind,
      if_neg hnew, if_pos (hleaf.holds.hasRoomFor.mpr hroom), hins, lift_bind]
    exact ⟨_, rfl, h.put hpage hleaf' hlinks has hbs⟩

theorem LeafTree.insertsOk (h : LeafTree t (as ++ bs)) (has : ∀ a ∈ as, a.1 < e.1)
    (hbs : ∀ b ∈ bs, e.1 < b.1) (he : e.Short)
    (hroom : Room (leafRecords (as ++ bs)) (encodeKv e.1 e.2).length) : InsertsOk t e.1 e.2 := by
  rintro m ⟨es, hes, hmem⟩
  cases h.eq_of_represents hes
  obtain ⟨t', hins, ht'⟩ := h.insert has hbs he hroom
  refine ⟨t', hins, _, ht'.represents, fun k v => ?_⟩
  have hnot : ∀ v, (e.1, v) ∉ as ++ bs := fun v hv => (List.mem_append.mp hv).elim
    (fun hv => (has _ hv).false) fun hv => (hbs _ hv).false
  obtain ⟨key, value⟩ := e
  rw [List.mem_append, List.mem_cons, or_left_comm, ← List.mem_append, hmem, Prod.mk.injEq]
  by_cases hk : k = key
  · subst hk
    have hnone : m k ≠ some v := fun hv => hnot v ((hmem k v).mpr hv)
    simp [hnone, eq_comm]
  · simp [hk]

end Leaf

theorem leafTree_first (config : BPlusTreeConfig) {e : Entry} (he : e.Short) :
    ∃ t, insertLocked e.1 e.2 (.new config) = .ok (.ok (), t) ∧ LeafTree t [e] := by
  have h : LeafTree (.new config) ([] ++ []) := leafTree_new config
  exact h.insert nofun nofun he he.room

theorem insertsOk_new (config : BPlusTreeConfig) {e : Entry} (he : e.Short) :
    InsertsOk (.new config) e.1 e.2 := by
  have h : LeafTree (.new config) ([] ++ []) := leafTree_new config
  exact h.insertsOk nofun nofun he he.room

end RGraph.Index
