import RGraph.Graph.Heap
import RGraph.Proofs.SlottedPage

/-!
# A data page as a list of records

The engine never deletes a slot: a deleted node or edge is a record with a
flag. So the records of a data page lie one behind the other in the order of
their slots, and `Stores p rs` says that they are `rs`. Insertion appends to
the list if there is room and fails otherwise, since compaction gains nothing;
overwriting replaces an item by one of the same length.
-/

namespace RGraph.Storage

open RGraph.Lib List

/-! ## Offsets -/

/-- The records with their offsets, the first at `off`. -/
def packFrom : Nat → List Bytes → List (Nat × Bytes)
  | _, [] => []
  | off, r :: rs => (off, r) :: packFrom (off + r.length) rs

theorem length_packFrom : ∀ (off : Nat) (rs : List Bytes),
    (packFrom off rs).length = rs.length
  | _, [] => rfl
  | off, r :: rs => by simp [packFrom, length_packFrom (off + r.length) rs]

theorem map_snd_packFrom : ∀ (off : Nat) (rs : List Bytes),
    (packFrom off rs).map Prod.snd = rs
  | _, [] => rfl
  | off, r :: rs => by simp [packFrom, map_snd_packFrom (off + r.length) rs]

theorem recBytes_packFrom (off : Nat) (rs : List Bytes) :
    recBytes (packFrom off rs) = totalLen rs := by
  rw [recBytes_eq, map_snd_packFrom]

theorem packFrom_append : ∀ (off : Nat) (as bs : List Bytes),
    packFrom off (as ++ bs) = packFrom off as ++ packFrom (off + totalLen as) bs
  | _, [], _ => by simp [packFrom]
  | off, a :: as, bs => by
    simp [packFrom, packFrom_append (off + a.length) as bs, Nat.add_assoc]

theorem getElem?_packFrom : ∀ (off : Nat) (rs : List Bytes) (i : Nat),
    (packFrom off rs)[i]? = (rs[i]?).map fun r => (off + totalLen (rs.take i), r)
  | _, [], i => by simp [packFrom]
  | off, r :: rs, 0 => by simp [packFrom]
  | off, r :: rs, i + 1 => by
    simp [packFrom, getElem?_packFrom (off + r.length) rs i, Nat.add_assoc]

variable {i : Nat} {r : Bytes} {rs : List Bytes}

/-- A record ends where the next one starts. -/
theorem totalLen_take_succ (h : rs[i]? = some r) :
    totalLen (rs.take (i + 1)) = totalLen (rs.take i) + r.length := by
  rw [take_add_one, h]
  simp

theorem totalLen_take_le (rs : List Bytes) {j : Nat} (h : i ≤ j) :
    totalLen (rs.take i) ≤ totalLen (rs.take j) := by
  obtain ⟨k, rfl⟩ := Nat.exists_eq_add_of_le h
  rw [take_add, totalLen_append]
  omega

theorem totalLen_take_le_all (rs : List Bytes) (i : Nat) : totalLen (rs.take i) ≤ totalLen rs := by
  conv_rhs => rw [← take_append_drop i rs]
  rw [totalLen_append]
  omega

theorem set_of_getElem? {α : Type} {l : List α} {a : α} (h : l[i]? = some a) : l.set i a = l := by
  obtain ⟨hlt, rfl⟩ := List.getElem?_eq_some_iff.mp h
  exact set_getElem_self hlt

theorem lengths_set {old : Bytes} (hi : rs[i]? = some old) (hlen : r.length = old.length) :
    (rs.set i r).map List.length = rs.map List.length := by
  rw [map_set, hlen]
  apply set_of_getElem?
  rw [List.getElem?_map, hi]
  rfl

theorem totalLen_take_set {old : Bytes} (hi : rs[i]? = some old)
    (hlen : r.length = old.length) (j : Nat) :
    totalLen ((rs.set i r).take j) = totalLen (rs.take j) := by
  rw [totalLen, totalLen, map_take, map_take, lengths_set hi hlen]

/-! ## Pages -/

structure Stores (p : SlottedPage) (rs : List Bytes) : Prop where
  size : p.data.length = 8128
  count : p.header.slotCount = rs.length
  free : p.header.freeSpaceOffset = totalLen rs
  fits : totalLen rs + 4 * rs.length ≤ 8128
  slots : ∀ i r, rs[i]? = some r → readAt p.data (8128 - 4 * (i + 1)) 4 =
      Slot.encode ⟨totalLen (rs.take i), r.length⟩
  records : ∀ i r, rs[i]? = some r → readAt p.data (totalLen (rs.take i)) r.length = r

theorem layout_packFrom {p : SlottedPage} : Layout p 0 (packFrom 0 rs) ↔ Stores p rs := by
  constructor
  · intro h
    have hget : ∀ i r, rs[i]? = some r →
        (packFrom 0 rs)[i]? = some (totalLen (rs.take i), r) := by
      intro i r hi
      rw [getElem?_packFrom, hi, Option.map_some, Nat.zero_add]
    refine ⟨h.size, h.count.trans (length_packFrom 0 rs), ?_, ?_, ?_, ?_⟩
    · rw [h.free, recBytes_packFrom, Nat.zero_add]
    · have := h.fits
      rw [recBytes_packFrom, length_packFrom] at this
      omega
    · exact fun i r hi => h.bytes i _ (hget i r hi)
    · exact fun i r hi => h.record _ (mem_of_getElem? (hget i r hi))
  · intro h
    have hmem : ∀ x ∈ packFrom 0 rs, ∃ i, rs[i]? = some x.2 ∧ x.1 = totalLen (rs.take i) := by
      intro x hx
      obtain ⟨i, hi⟩ := mem_iff_getElem?.mp hx
      rw [getElem?_packFrom, Option.map_eq_some_iff] at hi
      obtain ⟨r, hr, rfl⟩ := hi
      exact ⟨i, hr, by simp⟩
    refine ⟨h.size, h.count.trans (length_packFrom 0 rs).symm, ?_, ?_, ?_,
      fun x _ => Nat.zero_le _, ?_, ?_⟩
    · rw [h.free, recBytes_packFrom, Nat.zero_add]
    · rw [recBytes_packFrom, length_packFrom]
      have := h.fits
      omega
    · intro i x hx
      rw [getElem?_packFrom, Option.map_eq_some_iff] at hx
      obtain ⟨r, hr, rfl⟩ := hx
      rw [Nat.zero_add]
      exact h.slots i r hr
    · intro x hx
      obtain ⟨i, hi, hx1⟩ := hmem x hx
      rw [recBytes_packFrom, hx1, ← totalLen_take_succ hi, Nat.zero_add]
      exact totalLen_take_le_all rs _
    · intro x hx
      obtain ⟨i, hi, hx1⟩ := hmem x hx
      rw [hx1]
      exact h.records i x.2 hi

namespace Stores

variable {p : SlottedPage} {rs : List Bytes}

theorem layout (h : Stores p rs) : Layout p 0 (packFrom 0 rs) := layout_packFrom.mpr h

theorem read (h : Stores p rs) (i : Nat) : p.read i = .ok rs[i]? := by
  rw [h.layout.read, ← List.getElem?_map, map_snd_packFrom]

/-- A page determines its records. -/
theorem unique {rs' : List Bytes} (h : Stores p rs) (h' : Stores p rs') : rs = rs' := by
  apply ext_getElem?
  intro i
  have := (h.read i).symm.trans (h'.read i)
  exact Except.ok.inj this

/-! ### Insertion -/

/-- There is room for one more record, of length `n`. -/
def Fits (rs : List Bytes) (n : Nat) : Prop :=
  n ≤ 2048 ∧ totalLen rs + n + 4 * (rs.length + 1) ≤ 8128

instance (rs : List Bytes) (n : Nat) : Decidable (Fits rs n) := inferInstanceAs (Decidable (_ ∧ _))

variable {r : Bytes}

theorem insert_of_fits (h : Stores p rs) (hfit : Fits rs r.length) :
    ∃ p', p.insert r = .ok (some rs.length, p') ∧ Stores p' (rs ++ [r]) ∧
      p'.header.pageLsn = p.header.pageLsn := by
  obtain ⟨hmax, hroom⟩ := hfit
  obtain ⟨p', hp', hlay, hframe⟩ := h.layout.insert hmax
    (by rw [recBytes_packFrom, length_packFrom]; omega)
  rw [length_packFrom] at hp'
  refine ⟨p', hp', layout_packFrom.mp ?_, hframe.pageLsn⟩
  rw [packFrom_append]
  rw [recBytes_packFrom] at hlay
  exact hlay

theorem compactPlan_packFrom : ∀ (rs : List Bytes) (off : Nat),
    off + totalLen rs < 2 ^ 16 →
    SlottedPage.compactPlan off ((packFrom off rs).map slotOf) =
      ([], (packFrom off rs).map slotOf, off + totalLen rs)
  | [], off, _ => by simp [packFrom, SlottedPage.compactPlan]
  | r :: rs, off, hlt => by
    rw [totalLen_cons, ← Nat.add_assoc] at hlt
    have hmod : (off + r.length) % 2 ^ 16 = off + r.length := Nat.mod_eq_of_lt (by omega)
    rw [packFrom, map_cons, SlottedPage.compactPlan,
      show (slotOf (off, r)).length = r.length from rfl, hmod,
      compactPlan_packFrom rs (off + r.length) hlt]
    simp [slotOf, Nat.add_assoc]

/-- Nothing was deleted, so compaction moves no record and makes no room; but
it writes the directory back. -/
theorem compact (h : Stores p rs) : p.compact = .ok { p with
    data := writeAt p.data (dataSize - rs.length * slotSize)
      (((packFrom 0 rs).map slotOf).flatMap Slot.encode) } := by
  have hplan := compactPlan_packFrom rs 0 (by have := h.fits; omega)
  rw [SlottedPage.compact, h.layout.liveSlots, hplan]
  simp only [SlottedPage.applyMoves, Res.ok_bind, SlottedPage.setHeader,
    length_map, length_packFrom, Nat.zero_add, ← h.count, ← h.free]

theorem insert_of_full (h : Stores p rs) (hmax : r.length ≤ maxInlineRecordLen)
    (hfit : ¬ Fits rs r.length) : ∃ p', p.compact = .ok p' ∧ p.insert r = .ok (none, p') := by
  have hroom : p.available < r.length + slotSize := by
    rw [show maxInlineRecordLen = 2048 from rfl] at hmax
    have hnot : ¬ totalLen rs + r.length + 4 * (rs.length + 1) ≤ 8128 :=
      fun hle => hfit ⟨by omega, hle⟩
    rw [h.layout.available, recBytes_packFrom, length_packFrom, slotSize_eq]
    omega
  refine ⟨_, h.compact, ?_⟩
  rw [SlottedPage.insert, if_neg (Nat.not_lt.mpr hmax)]
  dsimp only
  rw [if_pos hroom, h.compact, Res.ok_bind, if_pos]
  rw [available_eq] at hroom ⊢
  exact hroom

theorem insert_of_not_fits (h : Stores p rs) (hfit : ¬ Fits rs r.length) :
    ∃ p', p.insert r = .ok (none, p') := by
  by_cases hmax : r.length ≤ maxInlineRecordLen
  · obtain ⟨p', -, hins⟩ := h.insert_of_full hmax hfit
    exact ⟨p', hins⟩
  · exact ⟨p, by rw [SlottedPage.insert, if_pos (Nat.not_le.mp hmax)]⟩

/-- Whatever an insertion returns, it is this. -/
theorem insert_some (h : Stores p rs) {slot : Nat} {p' : SlottedPage}
    (hins : p.insert r = .ok (some slot, p')) :
    slot = rs.length ∧ Stores p' (rs ++ [r]) ∧ Fits rs r.length ∧
      p'.header.pageLsn = p.header.pageLsn := by
  by_cases hfit : Fits rs r.length
  · obtain ⟨q, hq, hst, hlsn⟩ := h.insert_of_fits hfit
    rw [hq] at hins
    cases hins
    exact ⟨rfl, hst, hfit, hlsn⟩
  · obtain ⟨q, hq⟩ := h.insert_of_not_fits hfit
    rw [hq] at hins
    cases hins

theorem insert_none (h : Stores p rs) {p' : SlottedPage}
    (hins : p.insert r = .ok (none, p')) : ¬ Fits rs r.length := by
  intro hfit
  obtain ⟨q, hq, -⟩ := h.insert_of_fits hfit
  rw [hq] at hins
  cases hins

theorem init (pageId : Nat) (ty : PageType) : Stores (SlottedPage.init pageId ty) [] := by
  refine ⟨length_replicate .., rfl, rfl, by simp, ?_, ?_⟩ <;>
  · intro i r hi
    cases hi

/-! ### Overwriting -/

theorem overwrite (h : Stores p rs) {i : Nat} {old : Bytes}
    (hi : rs[i]? = some old) (hlen : r.length = old.length) :
    Stores { p with data := writeAt p.data (totalLen (rs.take i)) r }
      (rs.set i r) := by
  have hfits := h.fits
  have hlt := (List.getElem?_eq_some_iff.mp hi).1
  have hend := totalLen_take_succ hi
  have hle := totalLen_take_le_all rs (i + 1)
  have htotal : totalLen (rs.set i r) = totalLen rs := by
    rw [totalLen, totalLen, lengths_set hi hlen]
  -- a record of the new list, and the old one in its place
  have hold : ∀ j x, (rs.set i r)[j]? = some x → ∃ y, rs[j]? = some y ∧
      x.length = y.length ∧ (j ≠ i → x = y) ∧ (j = i → x = r) := by
    intro j x hj
    rw [List.getElem?_set] at hj
    split at hj
    · next hij =>
        subst hij
        cases hj
        exact ⟨old, hi, hlen, fun h => absurd rfl h, fun _ => rfl⟩
    · next hij => exact ⟨x, hj, rfl, fun _ => rfl, fun h => absurd h.symm hij⟩
  refine ⟨?_, ?_, ?_, ?_, ?_, ?_⟩
  · rw [length_writeAt, h.size]
    omega
  · rw [length_set]
    exact h.count
  · rw [htotal]
    exact h.free
  · rw [htotal, length_set]
    exact hfits
  · intro j x hj
    obtain ⟨y, hy, hxy, -⟩ := hold j x hj
    have := (List.getElem?_eq_some_iff.mp hy).1
    dsimp only
    rw [totalLen_take_set hi hlen, hxy, readAt_writeAt_ne _ (by omega)]
    exact h.slots j y hy
  · intro j x hj
    obtain ⟨y, hy, hxy, hne, heq⟩ := hold j x hj
    dsimp only
    rw [totalLen_take_set hi hlen]
    by_cases hij : j = i
    · rw [heq hij, hij]
      exact readAt_writeAt_self _ _ _
    · rw [hne hij, readAt_writeAt_ne]
      · exact h.records j y hy
      · rcases Nat.lt_or_gt_of_ne hij with hlt | hgt
        · have := totalLen_take_le rs (show j + 1 ≤ i by omega)
          rw [totalLen_take_succ hy] at this
          omega
        · have := totalLen_take_le rs (show i + 1 ≤ j by omega)
          omega

end Stores

end RGraph.Storage

namespace RGraph.Graph

open RGraph.Lib RGraph.Storage

variable {p p' : SlottedPage} {rs : List Bytes}

/-- What is overwritten is replaced, and was there. -/
theorem overwriteSlot_ok (h : Stores p rs) {i : Nat} {r : Bytes}
    (hok : overwriteSlot p i r = .ok (.ok p'))
    (hlen : ∀ old, rs[i]? = some old → r.length = old.length) :
    i < rs.length ∧ Stores p' (rs.set i r) ∧ p'.header = p.header := by
  rw [overwriteSlot, h.layout.slot, getElem?_packFrom] at hok
  cases hi : rs[i]? with
  | none =>
    rw [hi] at hok
    cases hok
  | some old =>
    have hsto := h.overwrite hi (hlen old hi)
    have hlt := (List.getElem?_eq_some_iff.mp hi).1
    rw [hi] at hok
    dsimp only [Option.map_some] at hok
    split at hok
    · cases hok
    · split at hok
      · cases hok
      · split at hok
        · cases hok
        · cases hok
          refine ⟨hlt, ?_, rfl⟩
          simp only [slotOf, Nat.zero_add]
          exact hsto

end RGraph.Graph
