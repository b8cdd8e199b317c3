import RGraph.Proofs.BTreePage

/-!
# A page is the list of its records

Runs of positional inserts guarded by `hasRoomFor`, deletes and compactions,
on a page with any sibling and rightmost pointers. `Holds` says what one call
does to the list; here the calls are followed next to the operations on lists.
A position behind the last record is the place behind the last record.
-/

namespace RGraph.Index

open RGraph.Lib RGraph.Storage

inductive PageOp where
  | insert (idx : Nat) (record : { r : Bytes // r.length ≤ 2048 })
  | delete (idx : Nat)
  | compact

/-- One call on the page, and what it is on the list of records. -/
def PageOp.apply (s : BTreePage × List Bytes) :
    PageOp → Res (BTreePage × List Bytes)
  | .insert idx record =>
    if s.1.hasRoomFor record.1.length then do
      let r ← s.1.insertRawAt idx record.1
      .ok (r.2, s.2.insertIdx (min idx s.2.length) record.1)
    else .ok s
  | .delete idx => do
    let r ← s.1.delete idx
    .ok (r.2, s.2.eraseIdx idx)
  | .compact => do
    let p ← s.1.compact
    .ok (p, s.2)

/-- An empty leaf or branch with the given pointers. -/
def initPage (leaf : Bool) (id : PageId) (level : UInt8) (prev next child : UInt64) : BTreePage :=
  let p := if leaf then BTreePage.newLeaf id
    else BTreePage.newBranch id level.toNat
  (p.setSiblings prev.toNat next.toNat).setRightmostChild child.toNat

/-- The page holds the list and points to these pages. -/
structure ListedAs (links : PageId × PageId) (child : PageId) (p : BTreePage)
    (rs : List Bytes) : Prop where
  holds : ∃ id ty, (ty = .btreeLeaf ∨ ty = .btreeInterior) ∧ Holds p id ty rs
  links : p.links = links
  child : p.btreeHeader.rightmostChild = child

variable {child : PageId} {links : PageId × PageId} {p : BTreePage}
  {rs : List Bytes}

theorem ListedAs.of_header {id : PageId} {ty : PageType} {p' : BTreePage}
    {rs' : List Bytes} {n : Nat} (h : ListedAs links child p rs)
    (hty : ty = .btreeLeaf ∨ ty = .btreeInterior) (hp : Holds p' id ty rs')
    (hbh : p'.btreeHeader = { p.btreeHeader with keyCount := n }) :
    ListedAs links child p' rs' :=
  ⟨⟨id, ty, hty, hp⟩, (BTreePage.links_of_header hbh).trans h.links,
    (congrArg BTreeHeader.rightmostChild hbh).trans h.child⟩

theorem placeAt_min (p : SlottedPage) (idx : Nat) (r : Bytes) :
    p.placeAt idx r = p.placeAt (min idx p.header.slotCount) r := by
  have hmin (l : List Slot) (hl : l.length ≤ p.header.slotCount) :
      min idx l.length = min (min idx p.header.slotCount) l.length := by omega
  rw [SlottedPage.placeAt, SlottedPage.placeAt]
  dsimp only
  rw [hmin]
  refine Nat.le_trans (List.length_filterMap_le _ _) ?_
  rw [List.length_range]
  exact Nat.le_refl _

theorem insertRawAt_min {r : Bytes} (hroom : p.hasRoomFor r.length) (idx : Nat) :
    p.insertRawAt idx r = p.insertRawAt (min idx p.slotCount) r := by
  have hav : ¬ p.inner.available < r.length + slotSize :=
    Nat.not_lt.mpr (decide_eq_true_iff.mp hroom)
  simp only [BTreePage.insertRawAt, SlottedPage.insertAt, if_neg hav]
  rw [placeAt_min]
  rfl

theorem delete_behind {idx : Nat} (h : p.slotCount ≤ idx) : p.delete idx = .ok (false, p) := by
  have hslot : p.inner.slot idx = none := if_neg (Nat.not_lt.mpr h)
  rw [BTreePage.delete, SlottedPage.delete, hslot]
  rfl

theorem ListedAs.apply (h : ListedAs links child p rs) (op : PageOp) :
    ∃ p' rs', op.apply (p, rs) = .ok (p', rs') ∧ ListedAs links child p' rs' := by
  obtain ⟨id, ty, hty, hp⟩ := h.holds
  have hcount := hp.slotCount
  cases op with
  | insert idx record =>
    by_cases hroom : p.hasRoomFor record.1.length = true
    · have hidx : min idx rs.length ≤ rs.length := Nat.min_le_right _ _
      obtain ⟨p', hins, hp', hbh⟩ := hp.insertRawAt hidx record.2 (hp.hasRoomFor.mp hroom)
      refine ⟨p', _, ?_, h.of_header hty hp' hbh⟩
      rw [PageOp.apply, if_pos hroom, insertRawAt_min hroom, hcount, hins]
      rfl
    · exact ⟨p, rs, if_neg hroom, h⟩
  | delete idx =>
    rcases Nat.lt_or_ge idx rs.length with hlt | hge
    · obtain ⟨p', hdel, hp', hbh⟩ := hp.delete hty hlt
      refine ⟨p', _, ?_, h.of_header hty hp' hbh⟩
      rw [PageOp.apply, hdel]
      rfl
    · refine ⟨p, rs, ?_, h⟩
      have hdel : p.delete idx = .ok (false, p) := delete_behind (by omega)
      rw [PageOp.apply, hdel, List.eraseIdx_of_length_le hge]
      rfl
  | compact =>
    obtain ⟨p', hc, hp', hbh⟩ := compact_spec hty
      (by rw [hcount]; exact hp.records) hp.id hp.type hp.count hp.short
      hp.fits
    refine ⟨p', rs, ?_, h.of_header (n := p.btreeHeader.keyCount) hty hp' hbh⟩
    rw [PageOp.apply, hc]
    rfl

theorem ListedAs.run (ops : List PageOp) (h : ListedAs links child p rs) :
    ∃ p' rs', ops.foldlM PageOp.apply (p, rs) = .ok (p', rs') ∧ ListedAs links child p' rs' := by
  induction ops generalizing p rs with
  | nil => exact ⟨p, rs, rfl, h⟩
  | cons op ops ih =>
    obtain ⟨p₁, rs₁, hop, h₁⟩ := h.apply op
    obtain ⟨p₂, rs₂, hops, h₂⟩ := ih h₁
    refine ⟨p₂, rs₂, ?_, h₂⟩
    rw [List.foldlM_cons, hop]
    exact hops

theorem listedAs_initPage (leaf : Bool) (id : PageId) (level : UInt8) (prev next child : UInt64) :
    ListedAs (prev.toNat, next.toNat) child.toNat (initPage leaf id level prev next child) [] := by
  have hnew : ∃ ty, (ty = .btreeLeaf ∨ ty = .btreeInterior) ∧
      Holds (if leaf then BTreePage.newLeaf id
        else BTreePage.newBranch id level.toNat) id ty [] := by
    cases leaf with
    | true => exact ⟨_, .inl rfl, holds_blank id _ (valid_new (by decide)) rfl⟩
    | false => exact ⟨_, .inr rfl, holds_blank id _ (valid_new level.toNat_lt) rfl⟩
  obtain ⟨ty, hty, hp⟩ := hnew
  have hs := hp.setSiblings prev.toNat_lt next.toNat_lt
  obtain ⟨hc, hbh⟩ := hs.setRightmostChild child.toNat_lt
  refine ⟨⟨id, ty, hty, hc⟩, ?_, ?_⟩
  · rw [initPage, BTreePage.links, hbh]
    exact BTreePage.links_setSiblings _ prev.toNat_lt next.toNat_lt
  · rw [initPage, hbh]

/-- Whatever is inserted, deleted and compacted, the records of the page are
those of the list, in its order, the key count is its length, and the page
points where it did. -/
theorem page_follows_list (leaf : Bool) (id : PageId) (level : UInt8)
    (prev next child : UInt64) (ops : List PageOp) : ∃ p rs, ops.foldlM PageOp.apply
        (initPage leaf id level prev next child, []) = .ok (p, rs) ∧
      p.records 0 p.slotCount = .ok rs ∧ (∀ i, p.key i = .ok rs[i]?) ∧ p.keyCount = rs.length ∧
      p.btreeHeader.siblingPrev = prev.toNat ∧ p.btreeHeader.siblingNext = next.toNat ∧
      p.btreeHeader.rightmostChild = child.toNat := by
  have h₀ := listedAs_initPage leaf id level prev next child
  obtain ⟨p, rs, hrun, h⟩ := h₀.run ops
  obtain ⟨id', ty, -, hp⟩ := h.holds
  obtain ⟨hprev, hnext⟩ := Prod.mk.inj h.links
  refine ⟨p, rs, hrun, ?_, hp.key, hp.count, hprev, hnext, h.child⟩
  rw [hp.slotCount]
  exact hp.records

end RGraph.Index
