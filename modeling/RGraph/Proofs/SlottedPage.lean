import Mathlib.Data.List.Induction
import Mathlib.Data.List.InsertIdx
import Mathlib.Data.List.Perm.Basic
import Mathlib.Algebra.BigOperators.Group.List.Basic
import RGraph.Storage.SlottedPage

/-!
# A slotted page without holes

`Layout p base recs` says that the slots of `p` are, in order, the records of
`recs`, each at the offset that comes with it, that the records lie between
`base` and the free offset and are all that is there, and that the directory
does not reach into them. An insertion that fits, at the end or at an index,
writes the record at the free offset and keeps everything else, so it is the
insertion into the list; what is below `base` stays as it is.

The operations write in two places, behind the records and into the directory.
Every proof here is that a read and a write at different places do not meet.
-/

namespace RGraph.Storage

open RGraph.Lib List

theorem dataSize_eq : dataSize = 8128 := rfl

theorem slotSize_eq : slotSize = 4 := rfl

theorem available_eq (p : SlottedPage) : p.available =
      8128 - (p.header.freeSpaceOffset + p.header.slotCount * 4) := by
  rw [SlottedPage.available, slotSize_eq, show pageSize = 8192 from rfl,
    show headerSize = 64 from rfl]
  omega

/-! ## Slots -/

@[simp] theorem Slot.length_encode (s : Slot) : s.encode.length = 4 := by
  simp [Slot.encode]

theorem Slot.decode_encode {s : Slot} (ho : s.offset < 2 ^ 16)
    (hl : s.length < 2 ^ 16) : Slot.decode s.encode = s := by
  have h1 : readAt s.encode 0 2 = natToLE 2 s.offset := readAt_append_left _ _ (length_natToLE _ _)
  have h2 : readAt s.encode 2 2 = natToLE 2 s.length :=
    readAt_of_append (natToLE 2 s.offset) (natToLE 2 s.length) []
      (by simp [Slot.encode]) (length_natToLE _ _) (length_natToLE _ _)
  rw [Slot.decode, h1, h2, leToNat_natToLE _ _ ho, leToNat_natToLE _ _ hl]

/-- Where a slot is does not depend on how many there are. -/
theorem slotPos_eq {count idx : Nat} (h : idx < count) (hc : count * 4 ≤ 8128) :
    SlottedPage.slotPos count idx = 8128 - 4 * (idx + 1) := by
  rw [SlottedPage.slotPos, dataSize_eq, slotSize_eq]
  omega

namespace SlottedPage

variable {p : SlottedPage}

theorem slot_eq {idx : Nat} (h : idx < p.header.slotCount) : p.slot idx = some (Slot.decode
      (readAt p.data (slotPos p.header.slotCount idx) slotSize)) :=
  if_pos h

/-- The bytes of a slot, with its place spelled out. -/
theorem slot_eq_some {idx : Nat} {s : Slot} (h : idx < p.header.slotCount)
    (hc : p.header.slotCount * 4 ≤ 8128) (ho : s.offset < 2 ^ 16) (hl : s.length < 2 ^ 16)
    (hr : readAt p.data (8128 - 4 * (idx + 1)) 4 = s.encode) : p.slot idx = some s := by
  rw [slot_eq h, slotPos_eq h hc, slotSize_eq, hr, Slot.decode_encode ho hl]

/-- Reading depends on the header and on the bytes above `base`, where all
slots and live records are. -/
theorem read_congr {q : SlottedPage} (base : Nat) (hh : q.header = p.header)
    (hd : ∀ off n, base ≤ off → readAt q.data off n = readAt p.data off n)
    (hc : base + 4 * p.header.slotCount ≤ 8128)
    (hs : ∀ j s, p.slot j = some s → s.isDeleted = true ∨ base ≤ s.offset)
    (j : Nat) : q.read j = p.read j := by
  have hslot : q.slot j = p.slot j := by
    rw [slot, slot, hh]
    by_cases hj : j < p.header.slotCount
    · rw [if_pos hj, if_pos hj, slotPos_eq hj (by omega), hd _ _ (by omega)]
    · rw [if_neg hj, if_neg hj]
  rw [read, read, hslot]
  cases hp : p.slot j with
  | none => rfl
  | some s =>
    rcases hs j s hp with hdel | hle
    · simp only [hdel, if_true]
    · simp only [hd _ _ hle]

end SlottedPage

/-! ## The layout -/

/-- The bytes of the records. -/
def recBytes (recs : List (Nat × Bytes)) : Nat := (recs.map fun x => x.2.length).sum

@[simp] theorem recBytes_nil : recBytes [] = 0 := rfl

@[simp] theorem recBytes_cons (x : Nat × Bytes) (recs : List (Nat × Bytes)) :
    recBytes (x :: recs) = x.2.length + recBytes recs := by
  simp [recBytes]

theorem recBytes_append (as bs : List (Nat × Bytes)) :
    recBytes (as ++ bs) = recBytes as + recBytes bs := by
  simp [recBytes]

theorem recBytes_perm {as bs : List (Nat × Bytes)} (h : as.Perm bs) : recBytes as = recBytes bs :=
  (h.map _).sum_eq

/-- The bytes of a list of records. -/
def totalLen (rs : List Bytes) : Nat := (rs.map List.length).sum

@[simp] theorem totalLen_nil : totalLen [] = 0 := rfl

@[simp] theorem totalLen_cons (r : Bytes) (rs : List Bytes) :
    totalLen (r :: rs) = r.length + totalLen rs := by
  simp [totalLen]

@[simp] theorem totalLen_append (as bs : List Bytes) :
    totalLen (as ++ bs) = totalLen as + totalLen bs := by
  simp [totalLen]

theorem recBytes_eq (recs : List (Nat × Bytes)) : recBytes recs = totalLen (recs.map Prod.snd) := by
  simp [recBytes, totalLen, Function.comp_def]

/-- The slot of a record. -/
def slotOf (x : Nat × Bytes) : Slot := ⟨x.1, x.2.length⟩

structure Layout (p : SlottedPage) (base : Nat) (recs : List (Nat × Bytes)) :
    Prop where
  size : p.data.length = 8128
  count : p.header.slotCount = recs.length
  free : p.header.freeSpaceOffset = base + recBytes recs
  fits : base + recBytes recs + 4 * recs.length ≤ 8128
  bytes : ∀ i x, recs[i]? = some x → readAt p.data (8128 - 4 * (i + 1)) 4 = (slotOf x).encode
  above : ∀ x ∈ recs, base ≤ x.1
  below : ∀ x ∈ recs, x.1 + x.2.length ≤ base + recBytes recs
  record : ∀ x ∈ recs, readAt p.data x.1 x.2.length = x.2

namespace Layout

variable {p : SlottedPage} {base : Nat} {recs : List (Nat × Bytes)}

theorem slot (h : Layout p base recs) (i : Nat) : p.slot i = (recs[i]?).map slotOf := by
  have hfits := h.fits
  cases hx : recs[i]? with
  | none =>
    have hi := List.getElem?_eq_none_iff.mp hx
    rw [SlottedPage.slot, h.count, if_neg (by omega), Option.map_none]
  | some x =>
    have hi : i < recs.length := (List.getElem?_eq_some_iff.mp hx).1
    have hmem : x ∈ recs := mem_of_getElem? hx
    have hb := h.below x hmem
    rw [Option.map_some]
    refine SlottedPage.slot_eq_some (by rw [h.count]; exact hi)
      (by rw [h.count]; omega) ?_ ?_ (h.bytes i x hx)
    · show x.1 < 2 ^ 16
      omega
    · show x.2.length < 2 ^ 16
      omega

theorem not_deleted (h : Layout p base recs) {i : Nat} {s : Slot}
    (hs : p.slot i = some s) : s.isDeleted = false := by
  rw [h.slot] at hs
  obtain ⟨x, hx, rfl⟩ := Option.map_eq_some_iff.mp hs
  have hb := h.below x (mem_of_getElem? hx)
  have hfits := h.fits
  rw [Slot.isDeleted, beq_eq_false_iff_ne]
  show x.1 ≠ 0xFFFF
  omega

/-- The slots read back as the records. -/
theorem read (h : Layout p base recs) (i : Nat) : p.read i = .ok ((recs[i]?).map Prod.snd) := by
  cases hx : recs[i]? with
  | none => rw [SlottedPage.read, h.slot, hx]; rfl
  | some x =>
    have hmem : x ∈ recs := mem_of_getElem? hx
    have hs : p.slot i = some (slotOf x) := by rw [h.slot, hx]; rfl
    have hb := h.below x hmem
    have hfits := h.fits
    have hin : ¬ dataSize < (slotOf x).offset + (slotOf x).length := by
      rw [dataSize_eq]
      show ¬ 8128 < x.1 + x.2.length
      omega
    simp only [SlottedPage.read, hs, h.not_deleted hs, Bool.false_eq_true, if_false, if_neg hin]
    show Except.ok (some (readAt p.data x.1 x.2.length)) = _
    rw [h.record x hmem]
    rfl

theorem bestFit (h : Layout p base recs) (n len : Nat) : p.bestFit n len = none := by
  have hfold : ∀ is : List Nat, is.foldl (p.bestFitStep len) none = none := by
    intro is
    induction is with
    | nil => rfl
    | cons i is ih =>
      rw [foldl_cons, SlottedPage.bestFitStep]
      split
      · next s hs =>
          rw [if_neg (by simp [h.not_deleted hs])]
          exact ih
      · exact ih
  rw [SlottedPage.bestFit, hfold]
  rfl

/-- A write below `base` leaves the layout. -/
theorem write_below (h : Layout p base recs) {bs : Bytes} (hbs : bs.length ≤ base) :
    Layout { p with data := writeAt p.data 0 bs } base recs := by
  have hfits := h.fits
  have hread : ∀ off n, base ≤ off →
      readAt (writeAt p.data 0 bs) off n = readAt p.data off n := by
    intro off n hle
    exact readAt_writeAt_ne _ (by omega)
  refine ⟨?_, h.count, h.free, h.fits, ?_, h.above, h.below, ?_⟩
  · rw [length_writeAt, h.size]
    omega
  · intro i x hx
    have hi := (List.getElem?_eq_some_iff.mp hx).1
    dsimp only
    rw [hread _ _ (by omega)]
    exact h.bytes i x hx
  · intro x hx
    dsimp only
    rw [hread _ _ (h.above x hx)]
    exact h.record x hx

end Layout

/-- What an insertion leaves alone: the rest of the header, and the bytes
below `base`. -/
structure Frame (base : Nat) (p p' : SlottedPage) : Prop where
  pageLsn : p'.header.pageLsn = p.header.pageLsn
  pageId : p'.header.pageId = p.header.pageId
  pageType : p'.header.pageType = p.header.pageType
  data : ∀ off n, off + n ≤ base → readAt p'.data off n = readAt p.data off n

/-! ## Insertion at the end -/

namespace Layout

variable {p : SlottedPage} {base : Nat} {recs : List (Nat × Bytes)}

variable {r : Bytes}

/-- The record goes behind the others, its slot to some place among theirs. -/
theorem placed (h : Layout p base recs) {new : List (Nat × Bytes)}
    (hperm : new.Perm ((base + recBytes recs, r) :: recs))
    (hfit : base + recBytes recs + r.length + 4 * (recs.length + 1) ≤ 8128)
    {p' : SlottedPage} (hsize : p'.data.length = 8128)
    (hhead : p'.header = { p.header with
      freeSpaceOffset := base + recBytes recs + r.length
      slotCount := recs.length + 1 }) (hslots : ∀ i x, new[i]? = some x →
      readAt p'.data (8128 - 4 * (i + 1)) 4 = (slotOf x).encode)
    (hread : ∀ off n, off + n ≤ base + recBytes recs + r.length → readAt p'.data off n =
        readAt (writeAt p.data (base + recBytes recs) r) off n) :
    Layout p' base new ∧ Frame base p p' := by
  have hlen : new.length = recs.length + 1 := hperm.length_eq
  have hbytes : recBytes new = recBytes recs + r.length := by
    rw [recBytes_perm hperm, recBytes_cons, Nat.add_comm]
  refine ⟨⟨hsize, ?_, ?_, ?_, hslots, fun x hx => ?_, fun x hx => ?_,
    fun x hx => ?_⟩, ⟨?_, ?_, ?_, fun off n hle => ?_⟩⟩
  · rw [hhead, hlen]
  · rw [hhead, hbytes, Nat.add_assoc]
  · rw [hbytes, hlen]
    omega
  · rcases mem_cons.mp (hperm.mem_iff.mp hx) with rfl | hx
    · exact Nat.le_add_right _ _
    · exact h.above x hx
  · rw [hbytes]
    rcases mem_cons.mp (hperm.mem_iff.mp hx) with rfl | hx
    · dsimp only
      omega
    · have := h.below x hx
      omega
  · rcases mem_cons.mp (hperm.mem_iff.mp hx) with rfl | hx
    · rw [hread _ _ (Nat.le_refl _)]
      exact readAt_writeAt_self _ _ _
    · have hb := h.below x hx
      rw [hread _ _ (by omega), readAt_writeAt_ne _ (by omega)]
      exact h.record x hx
  · rw [hhead]
  · rw [hhead]
  · rw [hhead]
  · rw [hread _ _ (by omega), readAt_writeAt_ne _ (by omega)]

/-- The slot goes behind the others, too. -/
theorem place (h : Layout p base recs)
    (hfit : base + recBytes recs + r.length + 4 * (recs.length + 1) ≤ 8128)
    {p' : SlottedPage} (hhead : p'.header = { p.header with
      freeSpaceOffset := base + recBytes recs + r.length
      slotCount := recs.length + 1 })
    (hdata : p'.data = writeAt (writeAt p.data (base + recBytes recs) r)
      (8128 - 4 * (recs.length + 1))
      (slotOf (base + recBytes recs, r)).encode) :
    Layout p' base (recs ++ [(base + recBytes recs, r)]) ∧ Frame base p p' := by
  refine h.placed (perm_append_singleton _ _) hfit ?_ hhead (fun i x hx => ?_)
    fun off n hle => ?_
  · rw [hdata, length_writeAt, length_writeAt, h.size, Slot.length_encode]
    omega
  · rw [hdata]
    rcases Nat.lt_or_ge i recs.length with hi | hi
    · rw [List.getElem?_append_left hi] at hx
      rw [readAt_writeAt_ne _ (by rw [Slot.length_encode]; omega),
        readAt_writeAt_ne _ (by omega)]
      exact h.bytes i x hx
    · rw [List.getElem?_append_right hi] at hx
      have hi' : i = recs.length := by
        have := (List.getElem?_eq_some_iff.mp hx).1
        simp at this
        omega
      subst hi'
      rw [Nat.sub_self, List.getElem?_cons_zero, Option.some.injEq] at hx
      subst hx
      exact readAt_writeAt_self _ _ _
  · rw [hdata, readAt_writeAt_ne _ (by omega)]

theorem available (h : Layout p base recs) :
    p.available = 8128 - (base + recBytes recs + 4 * recs.length) := by
  rw [available_eq, h.free, h.count, Nat.mul_comm]

theorem insert (h : Layout p base recs) (hr : r.length ≤ 2048)
    (hfit : base + recBytes recs + r.length + 4 * (recs.length + 1) ≤ 8128) :
    ∃ p', p.insert r = .ok (some recs.length, p') ∧
      Layout p' base (recs ++ [(base + recBytes recs, r)]) ∧ Frame base p p' := by
  have hav : ¬ p.available < r.length + slotSize := by
    rw [h.available, slotSize_eq]; omega
  have hmax : ¬ maxInlineRecordLen < r.length := by
    rw [show maxInlineRecordLen = 2048 from rfl]; omega
  have hin : ¬ dataSize < base + recBytes recs + r.length := by
    rw [dataSize_eq]; omega
  have hmod : (base + recBytes recs + r.length) % 2 ^ 16 =
      base + recBytes recs + r.length := Nat.mod_eq_of_lt (by omega)
  have hpos : SlottedPage.slotPos (recs.length + 1) recs.length =
      8128 - 4 * (recs.length + 1) := slotPos_eq (by omega) (by omega)
  simp only [SlottedPage.insert, if_neg hmax, if_neg hav, SlottedPage.place,
    if_neg hin, h.bestFit, SlottedPage.setHeader, SlottedPage.setSlot, h.free,
    h.count, Nat.add_sub_cancel, hmod, hpos]
  exact ⟨_, rfl, h.place hfit rfl rfl⟩

end Layout

/-! ## Insertion at an index -/

/-- Reading a list by its indices. -/
theorem filterMap_range_getElem? {α β : Type} (f : α → β) (l : List α)
    {g : Nat → Option β} (hg : ∀ i, i < l.length → g i = (l[i]?).map f) :
    (List.range l.length).filterMap g = l.map f := by
  induction l using List.reverseRecOn with
  | nil => rfl
  | append_singleton l a ih =>
    have hl : (l ++ [a]).length = l.length + 1 := by simp
    rw [hl] at hg ⊢
    have hlast : g l.length = some (f a) := by
      rw [hg l.length (by omega)]; simp
    have hinit : (List.range l.length).filterMap g = l.map f := by
      refine ih fun i hi => ?_
      rw [hg i (by omega), List.getElem?_append_left hi]
    rw [range_succ, filterMap_append, hinit, map_append]
    simp [hlast]

section WriteSlots

variable {count : Nat} (hc : count * 4 ≤ 8128)

include hc

theorem length_writeSlots : ∀ (slots : List Slot) {i : Nat} {d : Bytes},
    i + slots.length ≤ count → d.length = 8128 →
    (SlottedPage.writeSlots count i slots d).length = 8128 := by
  intro slots
  induction slots with
  | nil => intro i d _ hd; exact hd
  | cons s ss ih =>
    intro i d hle hd
    rw [length_cons] at hle
    rw [SlottedPage.writeSlots]
    refine ih (by omega) ?_
    rw [length_writeAt, hd, Slot.length_encode, slotPos_eq (by omega) hc]
    omega

/-- The directory is rewritten from slot `i` up, which is downward in the
page: nothing outside of it changes. -/
theorem readAt_writeSlots_ne : ∀ (slots : List Slot) {i : Nat} {d : Bytes}
    {off n : Nat}, i + slots.length ≤ count → off + n ≤ 8128 - 4 * count ∨ 8128 - 4 * i ≤ off →
    readAt (SlottedPage.writeSlots count i slots d) off n = readAt d off n := by
  intro slots
  induction slots with
  | nil => intros; rfl
  | cons s ss ih =>
    intro i d off n hle hoff
    rw [length_cons] at hle
    rw [SlottedPage.writeSlots, ih (by omega) (by omega), slotPos_eq (by omega) hc]
    exact readAt_writeAt_ne _ (by rw [Slot.length_encode]; omega)

theorem readAt_writeSlots : ∀ (slots : List Slot) {i j : Nat} {d : Bytes}
    {s : Slot}, i + slots.length ≤ count → slots[j]? = some s →
    readAt (SlottedPage.writeSlots count i slots d) (8128 - 4 * (i + j + 1)) 4 = s.encode := by
  intro slots
  induction slots with
  | nil => intro i j d s _ hs; simp at hs
  | cons s ss ih =>
    intro i j d s' hle hs
    rw [length_cons] at hle
    rw [SlottedPage.writeSlots]
    cases j with
    | zero =>
      rw [List.getElem?_cons_zero, Option.some.injEq] at hs
      subst hs
      rw [readAt_writeSlots_ne hc ss (by omega) (by omega), slotPos_eq (by omega) hc]
      exact readAt_writeAt_self _ _ _
    | succ j =>
      rw [List.getElem?_cons_succ] at hs
      rw [show i + (j + 1) + 1 = i + 1 + j + 1 by omega]
      exact ih (by omega) hs

end WriteSlots

namespace Layout

variable {p : SlottedPage} {base : Nat} {recs : List (Nat × Bytes)}

variable {idx : Nat}

/-- The record goes behind the others, its slot to index `idx`. -/
theorem placeAt (h : Layout p base recs) {r : Bytes} (hidx : idx ≤ recs.length)
    (hfit : base + recBytes recs + r.length + 4 * (recs.length + 1) ≤ 8128) :
    ∃ p', p.placeAt idx r = (some idx, p') ∧
      Layout p' base (recs.insertIdx idx (base + recBytes recs, r)) ∧ Frame base p p' := by
  have hsize := h.size
  have hc : (recs.length + 1) * 4 ≤ 8128 := by omega
  have hmod : (base + recBytes recs + r.length) % 2 ^ 16 =
      base + recBytes recs + r.length := Nat.mod_eq_of_lt (by omega)
  -- the slots are read with the count raised already
  have hslots : (List.range recs.length).filterMap (SlottedPage.slot
      ⟨{ p.header with
          freeSpaceOffset := base + recBytes recs + r.length
          slotCount := recs.length + 1 },
        writeAt p.data (base + recBytes recs) r⟩) = recs.map slotOf := by
    refine filterMap_range_getElem? slotOf recs fun i hi => ?_
    obtain ⟨x, hx⟩ : ∃ x, recs[i]? = some x := ⟨recs[i], List.getElem?_eq_getElem hi⟩
    have hb := h.below x (mem_of_getElem? hx)
    rw [hx, Option.map_some]
    refine SlottedPage.slot_eq_some (by dsimp only; omega) hc ?_ ?_ ?_
    · show x.1 < 2 ^ 16
      omega
    · show x.2.length < 2 ^ 16
      omega
    · dsimp only
      rw [readAt_writeAt_ne _ (by omega)]
      exact h.bytes i x hx
  have hmin : min idx recs.length = idx := Nat.min_eq_left hidx
  simp only [SlottedPage.placeAt, SlottedPage.setHeader, h.free, h.count, hmod,
    Nat.add_sub_cancel, hslots, length_map, hmin]
  have hdir : (recs.map slotOf).insertIdx idx ⟨base + recBytes recs, r.length⟩ =
      (recs.insertIdx idx (base + recBytes recs, r)).map slotOf :=
    (map_insertIdx slotOf recs idx (base + recBytes recs, r)).symm
  rw [hdir]
  generalize hnew : recs.insertIdx idx (base + recBytes recs, r) = new
  have hperm : new.Perm ((base + recBytes recs, r) :: recs) := hnew ▸ perm_insertIdx _ _ hidx
  have hlen : new.length = recs.length + 1 := hperm.length_eq
  have hlen' : 0 + (new.map slotOf).length ≤ recs.length + 1 := by
    rw [length_map]; omega
  refine ⟨_, rfl, h.placed hperm hfit ?_ rfl (fun i x hx => ?_)
    fun off n hle => readAt_writeSlots_ne hc _ hlen' (by omega)⟩
  · refine length_writeSlots hc _ hlen' ?_
    rw [length_writeAt, hsize]
    omega
  · have hslot : (new.map slotOf)[i]? = some (slotOf x) := by
      rw [List.getElem?_map, hx, Option.map_some]
    have := readAt_writeSlots hc (new.map slotOf)
      (d := writeAt p.data (base + recBytes recs) r) hlen' hslot
    rwa [Nat.zero_add] at this

theorem insertAt (h : Layout p base recs) {r : Bytes}
    (hidx : idx ≤ recs.length) (hr : r.length ≤ 2048)
    (hfit : base + recBytes recs + r.length + 4 * (recs.length + 1) ≤ 8128) :
    ∃ p', p.insertAt idx r = .ok (some idx, p') ∧
      Layout p' base (recs.insertIdx idx (base + recBytes recs, r)) ∧ Frame base p p' := by
  have hav : ¬ p.available < r.length + slotSize := by
    rw [h.available, slotSize_eq]; omega
  have hmax : ¬ maxInlineRecordLen < r.length := by
    rw [show maxInlineRecordLen = 2048 from rfl]; omega
  obtain ⟨p', hp, hl, hf⟩ := h.placeAt hidx hfit
  simp only [SlottedPage.insertAt, if_neg hmax, if_neg hav, hp]
  exact ⟨p', rfl, hl, hf⟩

/-! ## Deletion -/

theorem setSlot_eq (h : Layout p base recs) (hidx : idx < recs.length) (s : Slot) :
    p.setSlot idx s = ⟨p.header, writeAt p.data (8128 - 4 * (idx + 1)) s.encode⟩ := by
  have hfits := h.fits
  rw [SlottedPage.setSlot, slotPos_eq (by rw [h.count]; exact hidx) (by rw [h.count]; omega)]

theorem slot_setSlot_self (h : Layout p base recs) (hidx : idx < recs.length)
    {s : Slot} (ho : s.offset < 2 ^ 16) (hl : s.length < 2 ^ 16) :
    (p.setSlot idx s).slot idx = some s := by
  have hfits := h.fits
  rw [h.setSlot_eq hidx]
  exact SlottedPage.slot_eq_some (by dsimp only; rw [h.count]; exact hidx)
    (by dsimp only; rw [h.count]; omega) ho hl (readAt_writeAt_self _ _ _)

theorem slot_setSlot_ne (h : Layout p base recs) {j : Nat}
    (hidx : idx < recs.length) (s : Slot) (hj : j ≠ idx) : (p.setSlot idx s).slot j = p.slot j := by
  have hfits := h.fits
  rw [h.setSlot_eq hidx, SlottedPage.slot, SlottedPage.slot]
  dsimp only
  by_cases hlt : j < p.header.slotCount
  · have hlt' : j < recs.length := h.count ▸ hlt
    rw [if_pos hlt, if_pos hlt, slotPos_eq hlt (by rw [h.count]; omega),
      slotSize_eq, readAt_writeAt_ne _ (by rw [Slot.length_encode]; omega)]
  · rw [if_neg hlt, if_neg hlt]

/-- A deleted slot reads as nothing, and the others as before. -/
theorem delete (h : Layout p base recs) (hidx : idx < recs.length) :
    ∃ p', p.delete idx = (true, p') ∧ p'.header = p.header ∧ Frame base p p' ∧
      (∀ j s, p'.slot j = some s → s.isDeleted = true ∨ base ≤ s.offset) ∧
      ∀ j, p'.read j = .ok (if j = idx then none else (recs[j]?).map Prod.snd) := by
  have hfits := h.fits
  obtain ⟨x, hx⟩ : ∃ x, recs[idx]? = some x := ⟨recs[idx], List.getElem?_eq_getElem hidx⟩
  have hxb := h.below x (mem_of_getElem? hx)
  have hs : p.slot idx = some (slotOf x) := by rw [h.slot, hx]; rfl
  simp only [SlottedPage.delete, hs, h.not_deleted hs, Bool.false_eq_true, if_false]
  have hself : (p.setSlot idx { slotOf x with offset := 0xFFFF }).slot idx =
      some { slotOf x with offset := 0xFFFF } :=
    h.slot_setSlot_self hidx (show 0xFFFF < 2 ^ 16 by decide)
      (show x.2.length < 2 ^ 16 by omega)
  refine ⟨_, rfl, rfl, ⟨rfl, rfl, rfl, ?_⟩, fun j s hj => ?_, fun j => ?_⟩
  · intro off n hle
    rw [h.setSlot_eq hidx]
    exact readAt_writeAt_ne _ (by omega)
  · by_cases hne : j = idx
    · subst hne
      rw [hself, Option.some.injEq] at hj
      subst hj
      exact .inl rfl
    · rw [h.slot_setSlot_ne hidx _ hne, h.slot] at hj
      obtain ⟨y, hy, rfl⟩ := Option.map_eq_some_iff.mp hj
      exact .inr (h.above y (mem_of_getElem? hy))
  · by_cases hj : j = idx
    · subst hj
      rw [if_pos rfl, SlottedPage.read, hself]
      rfl
    · rw [if_neg hj, ← h.read j, SlottedPage.read, SlottedPage.read,
        h.slot_setSlot_ne hidx _ hj, h.slot]
      cases hy : recs[j]? with
      | none => rfl
      | some y =>
        have hyb := h.below y (mem_of_getElem? hy)
        have hrec : readAt (p.setSlot idx { slotOf x with offset := 0xFFFF }).data y.1 y.2.length =
            readAt p.data y.1 y.2.length := by
          rw [h.setSlot_eq hidx]
          exact readAt_writeAt_ne _ (by omega)
        simp only [Option.map_some, slotOf] at hrec ⊢
        rw [hrec]

end Layout

/-! ## Compaction -/

/-- Where the records go, and that the plan keeps to them. -/
theorem compactPlan_spec : ∀ (slots : List Slot) {off : Nat},
    off + (slots.map Slot.length).sum < 2 ^ 16 → (SlottedPage.compactPlan off slots).2.2 =
        off + (slots.map Slot.length).sum ∧
      (SlottedPage.compactPlan off slots).2.1.length = slots.length ∧
      ∀ m ∈ (SlottedPage.compactPlan off slots).1, m.1 ∈ slots ∧
        m.2 + m.1.length ≤ off + (slots.map Slot.length).sum := by
  intro slots
  induction slots with
  | nil => intro off _; exact ⟨rfl, rfl, nofun⟩
  | cons s slots ih =>
    intro off hlt
    rw [map_cons, sum_cons, ← Nat.add_assoc] at hlt ⊢
    have hmod : (off + s.length) % 2 ^ 16 = off + s.length := Nat.mod_eq_of_lt (by omega)
    obtain ⟨hend, hlen, hmoves⟩ := ih hlt
    rw [SlottedPage.compactPlan, hmod]
    refine ⟨hend, congrArg (· + 1) hlen, fun m hm => ?_⟩
    have hrest (hm : m ∈ (SlottedPage.compactPlan (off + s.length) slots).1) :
        m.1 ∈ s :: slots ∧ m.2 + m.1.length ≤ off + s.length + (slots.map Slot.length).sum :=
      ⟨mem_cons_of_mem _ (hmoves m hm).1, (hmoves m hm).2⟩
    dsimp only at hm
    split at hm
    · exact hrest hm
    · rcases mem_cons.mp hm with rfl | hm
      · exact ⟨mem_cons_self, Nat.le_add_right _ _⟩
      · exact hrest hm

theorem applyMoves_ok : ∀ (moves : List (Slot × Nat)) (d : Bytes),
    (∀ m ∈ moves, m.1.offset + m.1.length ≤ 8128 ∧ m.2 + m.1.length ≤ 8128) →
    ∃ d', SlottedPage.applyMoves moves d = .ok d' := by
  intro moves
  induction moves with
  | nil => intro d _; exact ⟨d, rfl⟩
  | cons m moves ih =>
    intro d h
    obtain ⟨⟨hfrom, hto⟩, hrest⟩ := forall_mem_cons.mp h
    rw [SlottedPage.applyMoves, if_neg (by rw [dataSize_eq]; omega)]
    exact ih _ hrest

namespace Layout

variable {p : SlottedPage} {base : Nat} {recs : List (Nat × Bytes)}

theorem liveSlots (h : Layout p base recs) : p.liveSlots = recs.map slotOf := by
  have hslots : (List.range p.header.slotCount).filterMap p.slot = recs.map slotOf := by
    rw [h.count]
    exact filterMap_range_getElem? slotOf _ fun i _ => h.slot i
  rw [SlottedPage.liveSlots, hslots, filter_eq_self]
  intro s hs
  obtain ⟨i, hi⟩ := mem_iff_getElem?.mp hs
  rw [List.getElem?_map, ← h.slot] at hi
  rw [h.not_deleted hi]
  rfl

/-- The records are packed from offset 0 on, whatever was below `base`. -/
theorem compact (h : Layout p base recs) :
    ∃ d, p.compact = .ok ({ p with data := d }.setHeader (recBytes recs)
      recs.length) := by
  have hfits := h.fits
  have hsum : ((recs.map slotOf).map Slot.length).sum = recBytes recs := by
    rw [map_map]
    rfl
  obtain ⟨hend, hlen, hmoves⟩ := compactPlan_spec (recs.map slotOf)
    (by rw [hsum]; omega : 0 + ((recs.map slotOf).map Slot.length).sum < 2 ^ 16)
  rw [hsum, Nat.zero_add] at hend hmoves
  rw [length_map] at hlen
  have hin : ∀ m ∈ (SlottedPage.compactPlan 0 (recs.map slotOf)).1,
      m.1.offset + m.1.length ≤ 8128 ∧ m.2 + m.1.length ≤ 8128 := by
    intro m hm
    obtain ⟨hmem, hle⟩ := hmoves m hm
    obtain ⟨x, hx, hxm⟩ := mem_map.mp hmem
    have hbelow : (slotOf x).offset + (slotOf x).length ≤ base + recBytes recs := h.below x hx
    rw [hxm] at hbelow
    omega
  obtain ⟨d, hd⟩ := applyMoves_ok _ p.data hin
  rw [SlottedPage.compact, h.liveSlots]
  dsimp only
  rw [hd, Res.ok_bind, hend, hlen]
  exact ⟨_, rfl⟩

/-- A record that would not fit either if the records began at offset 0. -/
theorem insert_none (h : Layout p base recs) {r : Bytes}
    (hfull : 8128 < recBytes recs + r.length + 4 * (recs.length + 1)) :
    ∃ p', p.insert r = .ok (none, p') := by
  by_cases hmax : maxInlineRecordLen < r.length
  · exact ⟨p, by rw [SlottedPage.insert, if_pos hmax]⟩
  · obtain ⟨d, hcompact⟩ := h.compact
    have hroom : ({ p with data := d }.setHeader (recBytes recs)
        recs.length).available < r.length + slotSize := by
      rw [available_eq, slotSize_eq]
      show 8128 - (recBytes recs + recs.length * 4) < r.length + 4
      omega
    have hfull : p.available < r.length + slotSize := by
      rw [h.available, slotSize_eq]
      omega
    refine ⟨{ p with data := d }.setHeader (recBytes recs) recs.length, ?_⟩
    rw [SlottedPage.insert, if_neg hmax]
    dsimp only
    rw [if_pos hfull, hcompact, Res.ok_bind, if_pos hroom]

/-- If the packed records leave room for the record, it is written: where the
packed records end, or behind that, at the offset from before. -/
theorem insert_ne_none (h : Layout p base recs) {r : Bytes} (hr : r.length ≤ 2048)
    (hroom : recBytes recs + r.length + 4 * (recs.length + 1) ≤ 8128)
    (p' : SlottedPage) : p.insert r ≠ .ok (none, p') := by
  have hplace : ∀ (q : SlottedPage) (n off : Nat), q.place r n off ≠ .ok (none, p') := by
    intro q n off
    rw [SlottedPage.place]
    split
    · nofun
    · dsimp only
      split
      · nofun
      · nofun
  have hmax : ¬maxInlineRecordLen < r.length := Nat.not_lt.mpr hr
  rw [SlottedPage.insert, if_neg hmax]
  dsimp only
  split
  · obtain ⟨d, hcompact⟩ := h.compact
    have hroom : ¬({ p with data := d }.setHeader (recBytes recs)
        recs.length).available < r.length + slotSize := by
      rw [available_eq, slotSize_eq]
      show ¬8128 - (recBytes recs + recs.length * 4) < r.length + 4
      omega
    rw [hcompact, Res.ok_bind, if_neg hroom]
    exact hplace _ _ _
  · exact hplace _ _ _

end Layout

end RGraph.Storage
