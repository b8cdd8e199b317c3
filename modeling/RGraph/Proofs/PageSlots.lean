import RGraph.Lib.Run
import RGraph.Proofs.RecordPage

/-!
# Runs of insertions and deletions on a page

As long as no insertion compacts the page, a record goes to the end of the
records and its slot is a deleted one or a new one, so nothing that is there
moves: the live records stay apart from each other and from the directory, and
each slot reads what was put there.

Compaction breaks all of it. It writes the slots back in the opposite order and
without the deleted ones, so the slots are renumbered, and the insertion goes on
with the offset from before. It is run by every insertion that does not fit into
the space between records and directory, also if there is nothing to gain.
-/

namespace RGraph.Storage

open RGraph.Lib List Function

/-- A page, and what the callers expect in its slots. -/
structure SlotRun where
  page : SlottedPage
  held : Nat → Option Bytes

def SlotRun.init (pageId : Nat) (pageType : PageType) : SlotRun :=
  ⟨.init pageId pageType, fun _ => none⟩

inductive SlotOp where
  | insert (record : Bytes)
  | delete (idx : Nat)
  deriving DecidableEq

/-- A call that panics leaves the page as it was. -/
def slotStep (s : SlotRun) : SlotOp → SlotRun
  | .insert record =>
    match s.page.insert record with
    | .ok (some idx, page) => ⟨page, update s.held idx (some record)⟩
    | .ok (none, page) => ⟨page, s.held⟩
    | .error _ => s
  | .delete idx =>
    match s.page.delete idx with
    | (true, page) => ⟨page, update s.held idx none⟩
    | (false, page) => ⟨page, s.held⟩

/-- The slots read what is expected, and the live records lie in the data
area, apart from each other and from the slot directory. -/
structure PageSound (s : SlotRun) : Prop where
  reads : ∀ idx, s.page.read idx = .ok (s.held idx)
  inside : ∀ i x, s.page.slot i = some x → x.isDeleted = false →
    x.offset + x.length ≤ dataSize - s.page.header.slotCount * slotSize
  apart : ∀ i j x y, i ≠ j → s.page.slot i = some x → s.page.slot j = some y →
    x.isDeleted = false → y.isDeleted = false →
    x.offset + x.length ≤ y.offset ∨ y.offset + y.length ≤ x.offset

/-- The call returns, and a slot in use that it does not delete keeps what it
holds. -/
def Undisturbed (s : SlotRun) (op : SlotOp) : Prop :=
  (∀ record, op = .insert record → ∃ res, s.page.insert record = .ok res) ∧
  ∀ idx bytes, s.held idx = some bytes → op ≠ .delete idx →
    (slotStep s op).held idx = some bytes

/-- An insertion that finds room between the records and the directory. -/
def HasRoom (s : SlotRun) : SlotOp → Prop
  | .insert record => record.length ≤ maxInlineRecordLen →
      record.length + slotSize ≤ s.page.available
  | .delete _ => True

instance HasRoom.decidable (s : SlotRun) (op : SlotOp) :
    Decidable (HasRoom s op) := by
  cases op <;> dsimp only [HasRoom] <;> infer_instance

/-! ## The invariant -/

/-- What a slot has, when the records end at `free`. -/
def SlotHolds (data : Bytes) (free : Nat) (x : Slot) : Option Bytes → Prop
  | none => x.isDeleted = true
  | some bytes => x.offset + x.length ≤ free ∧
      bytes = readAt data x.offset x.length

structure SlotsOk (s : SlotRun) : Prop where
  size : s.page.data.length = 8128
  fits : s.page.header.freeSpaceOffset + 4 * s.page.header.slotCount ≤ 8128
  slots : ∀ i x, s.page.slot i = some x → x.length < 2 ^ 16 ∧
    SlotHolds s.page.data s.page.header.freeSpaceOffset x (s.held i)
  beyond : ∀ i, s.page.slot i = none → s.held i = none
  apart : ∀ i j x y, i ≠ j → s.page.slot i = some x → s.page.slot j = some y →
    x.isDeleted = false → y.isDeleted = false →
    x.offset + x.length ≤ y.offset ∨ y.offset + y.length ≤ x.offset

theorem slot_eq_none {p : SlottedPage} {i : Nat} : p.slot i = none ↔ p.header.slotCount ≤ i := by
  rw [SlottedPage.slot]
  split
  · next h => exact ⟨by simp, fun hle => absurd h (Nat.not_lt.mpr hle)⟩
  · next h => exact ⟨fun _ => Nat.not_lt.mp h, fun _ => rfl⟩

theorem slot_lt_count {p : SlottedPage} {i : Nat} {x : Slot}
    (h : p.slot i = some x) : i < p.header.slotCount := by
  refine Nat.not_le.mp fun hle => ?_
  rw [slot_eq_none.mpr hle] at h
  cases h

theorem not_isDeleted_of_le {x : Slot} (h : x.offset ≤ 8128) : x.isDeleted = false := by
  rw [Slot.isDeleted, beq_eq_false_iff_ne]
  omega

theorem SlotHolds.live {data : Bytes} {free : Nat} {x : Slot}
    {held : Option Bytes} (h : SlotHolds data free x held)
    (hlive : x.isDeleted = false) : x.offset + x.length ≤ free ∧
      held = some (readAt data x.offset x.length) := by
  cases held with
  | none => rw [SlotHolds, hlive] at h; cases h
  | some bytes => exact ⟨h.1, by rw [h.2]⟩

theorem SlotsOk.sound {s : SlotRun} (hs : SlotsOk s) : PageSound s := by
  have hfits := hs.fits
  refine ⟨fun idx => ?_, fun i x hx hlive => ?_, hs.apart⟩
  · rw [SlottedPage.read]
    cases hx : s.page.slot idx with
    | none => rw [hs.beyond idx hx]
    | some x =>
      obtain ⟨-, hholds⟩ := hs.slots idx x hx
      cases hdel : x.isDeleted with
      | true =>
        dsimp only
        rw [hdel, if_pos rfl]
        cases hheld : s.held idx with
        | none => rfl
        | some bytes =>
          rw [hheld] at hholds
          have := not_isDeleted_of_le (x := x) (by
            have := hholds.1
            omega)
          rw [hdel] at this
          cases this
      | false =>
        obtain ⟨hle, hheld⟩ := hholds.live hdel
        dsimp only
        rw [hdel, hheld, if_neg Bool.false_ne_true, if_neg]
        rw [dataSize_eq]
        omega
  · obtain ⟨hle, -⟩ := (hs.slots i x hx).2.live hlive
    rw [dataSize_eq, slotSize_eq]
    omega

/-! ## Writing a slot -/

/-- A slot is written, one of the directory or the next one. -/
theorem slot_write {p q : SlottedPage} {d : Bytes} {idx : Nat} {x : Slot}
    (hcount : q.header.slotCount = max p.header.slotCount (idx + 1))
    (hidx : idx ≤ p.header.slotCount) (hfits : 4 * q.header.slotCount ≤ 8128)
    (hd : ∀ i, i < p.header.slotCount →
      readAt d (8128 - 4 * (i + 1)) 4 = readAt p.data (8128 - 4 * (i + 1)) 4)
    (hdata : q.data = writeAt d (8128 - 4 * (idx + 1)) x.encode)
    (ho : x.offset < 2 ^ 16) (hl : x.length < 2 ^ 16) (i : Nat) :
    q.slot i = if i = idx then some x else p.slot i := by
  by_cases hi : i = idx
  · subst hi
    rw [if_pos rfl]
    refine SlottedPage.slot_eq_some (by omega) (by omega) ho hl ?_
    rw [hdata]
    exact readAt_writeAt_self _ _ _
  · rw [if_neg hi]
    by_cases hlt : i < p.header.slotCount
    · rw [SlottedPage.slot_eq hlt, SlottedPage.slot_eq (by omega),
        slotPos_eq hlt (by omega), slotPos_eq (by omega) (by omega),
        slotSize_eq, hdata,
        readAt_writeAt_ne _ (by rw [Slot.length_encode]; omega), hd i hlt]
    · rw [slot_eq_none.mpr (by omega), slot_eq_none.mpr (by omega)]

section Step

variable {s : SlotRun}

/-- The record is written behind the others, and a slot that is not in use is
pointed at it. -/
theorem SlotsOk.put (hs : SlotsOk s) {record : Bytes} {idx : Nat}
    {p' : SlottedPage} (hidx : idx ≤ s.page.header.slotCount) (hheld : s.held idx = none)
    (hcount : p'.header.slotCount = max s.page.header.slotCount (idx + 1))
    (hfree : p'.header.freeSpaceOffset = s.page.header.freeSpaceOffset + record.length)
    (hfits : s.page.header.freeSpaceOffset + record.length + 4 * p'.header.slotCount ≤ 8128)
    (hdata : p'.data = writeAt (writeAt s.page.data s.page.header.freeSpaceOffset record)
        (8128 - 4 * (idx + 1))
        (Slot.mk s.page.header.freeSpaceOffset record.length).encode) :
    SlotsOk ⟨p', update s.held idx (some record)⟩ := by
  have hsize := hs.size
  have hslot := slot_write (x := ⟨s.page.header.freeSpaceOffset, record.length⟩)
    hcount hidx (by omega)
    (fun i hi => readAt_writeAt_ne _ (by omega)) hdata
    (by dsimp only; omega) (by dsimp only; omega)
  -- what was there before is below the new record
  have hold : ∀ off n, off + n ≤ s.page.header.freeSpaceOffset →
      readAt p'.data off n = readAt s.page.data off n := by
    intro off n hle
    rw [hdata, readAt_writeAt_ne _ (by omega), readAt_writeAt_ne _ (by omega)]
  have hlive : ∀ i x, i ≠ idx → p'.slot i = some x → x.isDeleted = false →
      x.offset + x.length ≤ s.page.header.freeSpaceOffset := by
    intro i x hi hx hdel
    rw [hslot, if_neg hi] at hx
    exact ((hs.slots i x hx).2.live hdel).1
  refine ⟨?_, ?_, fun i x hx => ?_, fun i hi => ?_, fun i j x y hij hx hy hdx hdy => ?_⟩
  · rw [hdata, length_writeAt, length_writeAt, hsize, Slot.length_encode]
    omega
  · dsimp only
    omega
  · dsimp only at hx ⊢
    rw [hslot] at hx
    by_cases hi : i = idx
    · subst hi
      rw [if_pos rfl] at hx
      cases hx
      rw [update_self]
      refine ⟨by dsimp only; omega, by dsimp only; omega, ?_⟩
      dsimp only
      rw [hdata, readAt_writeAt_ne _ (by omega), readAt_writeAt_self]
    · rw [if_neg hi] at hx
      rw [update_of_ne hi]
      obtain ⟨hlen, hholds⟩ := hs.slots i x hx
      refine ⟨hlen, ?_⟩
      cases hh : s.held i with
      | none => rw [hh] at hholds; exact hholds
      | some bytes =>
        rw [hh] at hholds
        refine ⟨by have := hholds.1; omega, ?_⟩
        rw [hold _ _ hholds.1]
        exact hholds.2
  · dsimp only at hi ⊢
    rw [hslot] at hi
    split at hi
    · cases hi
    · next hne =>
        rw [update_of_ne hne]
        exact hs.beyond i hi
  · dsimp only at hx hy
    by_cases hi : i = idx
    · right
      have hle := hlive j y (by omega) hy hdy
      rw [hslot, if_pos hi] at hx
      cases hx
      exact hle
    · by_cases hj : j = idx
      · left
        have hle := hlive i x hi hx hdx
        rw [hslot, if_pos hj] at hy
        cases hy
        exact hle
      · rw [hslot, if_neg hi] at hx
        rw [hslot, if_neg hj] at hy
        exact hs.apart i j x y hij hx hy hdx hdy

theorem bestFitStep_deleted {p : SlottedPage} {len i : Nat} {best : Option (Nat × Nat)}
    (h : ∀ b ∈ best, ∃ x, p.slot b.1 = some x ∧ x.isDeleted = true) :
    ∀ b ∈ p.bestFitStep len best i, ∃ x, p.slot b.1 = some x ∧ x.isDeleted = true := by
  rw [SlottedPage.bestFitStep]
  split
  · next x hx =>
      split
      · next hfit =>
          intro b hb
          cases hb
          exact ⟨x, hx, hfit.1⟩
      · exact h
  · exact h

theorem bestFit_deleted {p : SlottedPage} {n len idx : Nat} (h : p.bestFit n len = some idx) :
    ∃ x, p.slot idx = some x ∧ x.isDeleted = true := by
  have hfold : ∀ (is : List Nat) (best : Option (Nat × Nat)),
      (∀ b ∈ best, ∃ x, p.slot b.1 = some x ∧ x.isDeleted = true) →
      ∀ b ∈ is.foldl (p.bestFitStep len) best,
        ∃ x, p.slot b.1 = some x ∧ x.isDeleted = true := by
    intro is
    induction is with
    | nil => exact fun best hbest => hbest
    | cons i is ih => exact fun best hbest => ih _ (bestFitStep_deleted hbest)
  rw [SlottedPage.bestFit] at h
  obtain ⟨b, hb, rfl⟩ := Option.map_eq_some_iff.mp h
  exact hfold _ none (by simp) b hb

/-- With room for it a record goes behind the others, and a slot that is not
in use, or the next one, is pointed at it. -/
theorem place_eq {p : SlottedPage} {record : Bytes}
    (hfits : p.header.freeSpaceOffset + 4 * p.header.slotCount ≤ 8128)
    (hroom : record.length + slotSize ≤ p.available) :
    ∃ idx q, p.place record p.header.slotCount p.header.freeSpaceOffset = .ok (some idx, q) ∧
      idx ≤ p.header.slotCount ∧ (∀ y, p.slot idx = some y → y.isDeleted = true) ∧
      q.header.slotCount = max p.header.slotCount (idx + 1) ∧
      q.header.freeSpaceOffset = p.header.freeSpaceOffset + record.length ∧
      q.data = writeAt (writeAt p.data p.header.freeSpaceOffset record) (8128 - 4 * (idx + 1))
        (Slot.mk p.header.freeSpaceOffset record.length).encode := by
  rw [available_eq, slotSize_eq] at hroom
  have hmod : (p.header.freeSpaceOffset + record.length) % 2 ^ 16 =
      p.header.freeSpaceOffset + record.length := Nat.mod_eq_of_lt (by omega)
  rw [SlottedPage.place, if_neg (by rw [dataSize_eq]; omega), hmod]
  cases hbest : p.bestFit p.header.slotCount record.length with
  | some idx =>
    obtain ⟨x, hx, hdel⟩ := bestFit_deleted hbest
    have hlt := slot_lt_count hx
    refine ⟨idx, _, rfl, Nat.le_of_lt hlt, fun y hy => ?_, ?_, rfl, ?_⟩
    · rw [hx] at hy
      cases hy
      exact hdel
    · show p.header.slotCount = _
      omega
    · show writeAt _ (SlottedPage.slotPos p.header.slotCount idx) _ = _
      rw [slotPos_eq hlt (by omega)]
  | none =>
    refine ⟨p.header.slotCount, _, rfl, Nat.le_refl _, fun y hy => ?_, ?_, rfl, ?_⟩
    · rw [slot_eq_none.mpr (Nat.le_refl _)] at hy
      cases hy
    · show p.header.slotCount + 1 = _
      omega
    · show writeAt _ (SlottedPage.slotPos (p.header.slotCount + 1)
        (p.header.slotCount + 1 - 1)) _ = _
      rw [Nat.add_sub_cancel, slotPos_eq (by omega) (by omega)]
      rfl

/-- An insertion that finds room takes a slot that is not in use. -/
theorem SlotsOk.insert (hs : SlotsOk s) {record : Bytes} (hmax : record.length ≤ maxInlineRecordLen)
    (hroom : record.length + slotSize ≤ s.page.available) :
    ∃ idx p', s.page.insert record = .ok (some idx, p') ∧ s.held idx = none ∧
      SlotsOk ⟨p', update s.held idx (some record)⟩ := by
  have hfits := hs.fits
  have hplace : s.page.insert record = s.page.place record s.page.header.slotCount
        s.page.header.freeSpaceOffset := by
    rw [SlottedPage.insert, if_neg (Nat.not_lt.mpr hmax)]
    exact if_neg (Nat.not_lt.mpr hroom)
  obtain ⟨idx, p', hok, hidx, hdel, hcount, hfree, hdata⟩ := place_eq hfits hroom
  have hheld : s.held idx = none := by
    cases hx : s.page.slot idx with
    | none => exact hs.beyond idx hx
    | some x =>
      cases hh : s.held idx with
      | none => rfl
      | some bytes =>
        have hholds := (hs.slots idx x hx).2
        rw [hh] at hholds
        have hlive := not_isDeleted_of_le (x := x) (by have := hholds.1; omega)
        rw [hdel x hx] at hlive
        cases hlive
  rw [available_eq, slotSize_eq] at hroom
  exact ⟨idx, p', hplace.trans hok, hheld, hs.put hidx hheld hcount hfree (by omega) hdata⟩

theorem SlotsOk.delete (hs : SlotsOk s) {idx : Nat} {x : Slot} (hx : s.page.slot idx = some x) :
    SlotsOk ⟨s.page.setSlot idx { x with offset := 0xFFFF },
      update s.held idx none⟩ := by
  have hfits := hs.fits
  have hsize := hs.size
  have hlt := slot_lt_count hx
  have hdata : (s.page.setSlot idx { x with offset := 0xFFFF }).data =
      writeAt s.page.data (8128 - 4 * (idx + 1))
        ({ x with offset := 0xFFFF } : Slot).encode := by
    rw [SlottedPage.setSlot, slotPos_eq hlt (by omega)]
  have hslot := slot_write (p := s.page)
    (q := s.page.setSlot idx { x with offset := 0xFFFF })
    (show s.page.header.slotCount = _ by omega) (by omega)
    (show 4 * s.page.header.slotCount ≤ 8128 by omega) (fun i _ => rfl) hdata
    (show 0xFFFF < 2 ^ 16 by omega) (hs.slots idx x hx).1
  have hold : ∀ off n, off + n ≤ s.page.header.freeSpaceOffset →
      readAt (s.page.setSlot idx { x with offset := 0xFFFF }).data off n =
        readAt s.page.data off n := by
    intro off n hle
    rw [hdata, readAt_writeAt_ne _ (by omega)]
  -- only the slot itself is not as it was
  have hne : ∀ i y, (s.page.setSlot idx { x with offset := 0xFFFF }).slot i =
      some y → y.isDeleted = false → i ≠ idx ∧ s.page.slot i = some y := by
    intro i y hy hdel
    rw [hslot] at hy
    split at hy
    · cases hy
      cases hdel
    · next hi => exact ⟨hi, hy⟩
  refine ⟨?_, hs.fits, fun i y hy => ?_, fun i hi => ?_, fun i j y z hij hy hz hdy hdz => ?_⟩
  · dsimp only
    rw [hdata, length_writeAt, hsize, Slot.length_encode]
    omega
  · dsimp only at hy ⊢
    rw [hslot] at hy
    split at hy
    · next hi =>
        cases hy
        rw [hi, update_self]
        exact ⟨(hs.slots idx x hx).1, rfl⟩
    · next hi =>
        rw [update_of_ne hi]
        obtain ⟨hlen, hholds⟩ := hs.slots i y hy
        refine ⟨hlen, ?_⟩
        cases hh : s.held i with
        | none => rw [hh] at hholds; exact hholds
        | some bytes =>
          rw [hh] at hholds
          refine ⟨hholds.1, ?_⟩
          rw [hold _ _ hholds.1]
          exact hholds.2
  · dsimp only at hi ⊢
    rw [hslot] at hi
    split at hi
    · cases hi
    · next hne =>
        rw [update_of_ne hne]
        exact hs.beyond i hi
  · exact hs.apart i j y z hij (hne i y hy hdy).2 (hne j z hz hdz).2 hdy hdz

theorem SlotsOk.step (hs : SlotsOk s) {op : SlotOp} (hok : HasRoom s op) :
    SlotsOk (slotStep s op) ∧ Undisturbed s op := by
  cases op with
  | insert record =>
    by_cases hmax : record.length ≤ maxInlineRecordLen
    · obtain ⟨idx, p', hins, hheld, hs'⟩ := hs.insert hmax (hok hmax)
      rw [slotStep, hins]
      refine ⟨hs', ?_, ?_⟩
      · intro r hr
        cases hr
        exact ⟨_, hins⟩
      · intro i bytes hi _
        rw [slotStep, hins]
        have hne : i ≠ idx := by
          intro heq
          rw [heq, hheld] at hi
          cases hi
        exact (update_of_ne hne _ _).trans hi
    · have hins : s.page.insert record = .ok (none, s.page) := by
        rw [SlottedPage.insert, if_pos (Nat.not_le.mp hmax)]
      rw [slotStep, hins]
      refine ⟨hs, ?_, ?_⟩
      · intro r hr
        cases hr
        exact ⟨_, hins⟩
      · intro i bytes hi _
        rw [slotStep, hins]
        exact hi
  | delete idx =>
    have hdel : SlotsOk (slotStep s (.delete idx)) ∧
        ∀ i, i ≠ idx → (slotStep s (.delete idx)).held i = s.held i := by
      rw [slotStep, SlottedPage.delete]
      cases hx : s.page.slot idx with
      | none => exact ⟨hs, fun _ _ => rfl⟩
      | some x =>
        cases hlive : x.isDeleted with
        | true =>
          simp only [hlive, if_true]
          exact ⟨hs, fun _ _ => trivial⟩
        | false =>
          simp only [hlive, Bool.false_eq_true, if_false]
          exact ⟨hs.delete hx, fun i hi => update_of_ne hi _ _⟩
    refine ⟨hdel.1, by simp, fun i bytes hi hne => ?_⟩
    rw [hdel.2 i fun heq => hne (by rw [heq])]
    exact hi

end Step

theorem slotsOk_init (pageId : Nat) (pageType : PageType) : SlotsOk (.init pageId pageType) :=
  ⟨length_replicate .., Nat.zero_le _, nofun, fun _ _ => rfl, nofun⟩

theorem slots_keep_records {pageId : Nat} {pageType : PageType}
    {ops : List SlotOp}
    (hg : Guarded slotStep HasRoom (.init pageId pageType) ops) (n : Nat) :
    let s := run slotStep (.init pageId pageType) (ops.take n)
    PageSound s ∧ ∀ op, ops[n]? = some op → Undisturbed s op := by
  intro s
  have hs : SlotsOk s := run_inv_take (fun _ _ hs hok => (hs.step hok).1)
    (slotsOk_init pageId pageType) hg n
  exact ⟨hs.sound, fun op hop => (hs.step (hg.at hop)).2⟩

/-- Two records, and the first is deleted. -/
theorem slots_keep_records_three :
    let ops : List SlotOp := [.insert [1, 2], .insert [3], .delete 0]
    Guarded slotStep HasRoom (.init 1 .slottedData) ops ∧
      PageSound (run slotStep (.init 1 .slottedData) ops) := by
  intro ops
  have hg : Guarded slotStep HasRoom (.init 1 .slottedData) ops := by
    decide +kernel
  exact ⟨hg, (slots_keep_records hg 3).1⟩

/-! ## A full page -/

theorem length_flatMap_encode (slots : List Slot) :
    (slots.flatMap Slot.encode).length = 4 * slots.length := by
  simp [Nat.mul_comm]

section Directory

variable {p p' : SlottedPage} {d : Bytes} {slots : List Slot} {free : Nat}

/-- The page that compaction makes: the slots are written first to last from
the low end of the directory. -/
def SlottedPage.withDirectory (p : SlottedPage) (d : Bytes) (slots : List Slot)
    (free : Nat) : SlottedPage :=
  { p with
    data := writeAt d (dataSize - slots.length * slotSize)
      (slots.flatMap Slot.encode) }.setHeader free slots.length

/-- But the directory is read from its end. -/
theorem slot_withDirectory (hfit : 4 * slots.length ≤ 8128)
    (hslots : ∀ x ∈ slots, x.offset + x.length ≤ 8128 - 4 * slots.length)
    {i : Nat} (hi : i < slots.reverse.length) :
    (p.withDirectory d slots free).slot i = slots.reverse[i]? := by
  rw [length_reverse] at hi
  obtain ⟨x, hx⟩ : ∃ x, slots[slots.length - 1 - i]? = some x :=
    ⟨_, List.getElem?_eq_getElem (by omega)⟩
  have hmem := hslots x (mem_of_getElem? hx)
  have hread := readAt_flatMap Slot.length_encode hx []
  rw [append_nil] at hread
  have hbase := readAt_writeAt_self d (dataSize - slots.length * slotSize)
    (slots.flatMap Slot.encode)
  rw [length_flatMap_encode] at hbase
  rw [List.getElem?_reverse hi, hx]
  refine SlottedPage.slot_eq_some hi (by show slots.length * 4 ≤ 8128; omega)
    (by omega) (by omega) ?_
  show readAt (writeAt d (dataSize - slots.length * slotSize)
    (slots.flatMap Slot.encode)) (8128 - 4 * (i + 1)) 4 = x.encode
  have hpos : dataSize - slots.length * slotSize + (slots.length - 1 - i) * 4 =
      8128 - 4 * (i + 1) := by
    rw [dataSize_eq, slotSize_eq]
    omega
  rw [← hread, ← hbase, readAt_readAt _ (by omega), hpos, hbase]

theorem read_withDirectory (hfit : 4 * slots.length ≤ 8128)
    (hslots : ∀ x ∈ slots, x.offset + x.length ≤ 8128 - 4 * slots.length)
    (i : Nat) : (p.withDirectory d slots free).read i =
      .ok ((slots.map fun x => readAt d x.offset x.length).reverse[i]?) := by
  rw [← map_reverse, List.getElem?_map, SlottedPage.read]
  rcases Nat.lt_or_ge i slots.reverse.length with hi | hi
  · rw [slot_withDirectory hfit hslots hi, List.getElem?_eq_getElem hi]
    have hx := hslots _ (mem_reverse.mp (getElem_mem hi))
    generalize slots.reverse[i] = x at hx ⊢
    dsimp only
    rw [not_isDeleted_of_le (by omega), if_neg Bool.false_ne_true,
      if_neg (by rw [dataSize_eq]; omega)]
    refine congrArg (fun bytes => Except.ok (some bytes)) (readAt_writeAt_ne d (.inl ?_))
    rw [dataSize_eq, slotSize_eq]
    omega
  · have hnone : (p.withDirectory d slots free).slot i = none :=
      slot_eq_none.mpr (by rwa [length_reverse] at hi)
    rw [hnone, List.getElem?_eq_none hi]
    rfl

theorem Stores.read_compact {rs : List Bytes} (h : Stores p rs)
    (hc : p.compact = .ok p') (i : Nat) : p'.read i = .ok rs.reverse[i]? := by
  have hfits := h.layout.fits
  have hp' : p' = p.withDirectory p.data ((packFrom 0 rs).map slotOf)
      p.header.freeSpaceOffset := by
    rw [SlottedPage.withDirectory, length_map, length_packFrom]
    rw [h.compact] at hc
    cases hc
    rw [← h.count]
    rfl
  rw [hp', read_withDirectory (by rw [length_map]; omega), map_map]
  · exact congrArg (fun l => Except.ok (reverse l)[i]?)
      ((map_congr_left h.layout.record).trans (map_snd_packFrom 0 rs))
  · rw [length_map]
    refine forall_mem_map.mpr fun x hx => ?_
    exact Nat.le_trans (h.layout.below x hx) (by omega)

end Directory

theorem run_inserts (new : List Bytes) : ∀ {s : SlotRun} {rs : List Bytes},
    Stores s.page rs → (∀ r ∈ new, r.length ≤ 2048) →
    totalLen (rs ++ new) + 4 * (rs ++ new).length ≤ 8128 →
    Stores (run slotStep s (new.map .insert)).page (rs ++ new) := by
  induction new with
  | nil => intro s rs h _ _; rwa [append_nil]
  | cons r new ih =>
    intro s rs h hmax hfits
    obtain ⟨hr, hmax⟩ := forall_mem_cons.mp hmax
    rw [append_cons] at hfits ⊢
    obtain ⟨p', hins, hst, -⟩ := h.insert_of_fits (r := r) ⟨hr, by
      simp at hfits
      omega⟩
    refine ih ?_ hmax hfits
    rw [slotStep, hins]
    exact hst

/-- An insertion into a full page is refused, but it turns the order of the
slots around. -/
theorem slotStep_of_full {s : SlotRun} {rs : List Bytes} {r : Bytes}
    (h : Stores s.page rs) (hmax : r.length ≤ maxInlineRecordLen)
    (hfull : ¬ Stores.Fits rs r.length) : (slotStep s (.insert r)).held = s.held ∧
      ∀ i, (slotStep s (.insert r)).page.read i = .ok rs.reverse[i]? := by
  obtain ⟨p', hcompact, hins⟩ := h.insert_of_full hmax hfull
  rw [slotStep, hins]
  exact ⟨rfl, h.read_compact hcompact⟩

/-- Four records that fill a page. -/
def fourRecords : List Bytes :=
  [replicate 2028 1, replicate 2028 2, replicate 2028 3, replicate 2028 4]

/-- One more record is refused, and now the first slot reads the fourth
record. -/
theorem failed_insert_exchanges_records :
    ¬ ∀ (pageId : Nat) (pageType : PageType) (ops : List SlotOp) (n : Nat),
      let s := run slotStep (.init pageId pageType) (ops.take n)
      PageSound s ∧ ∀ op, ops[n]? = some op → Undisturbed s op := by
  intro hall
  have hsound : ∀ ops, PageSound (run slotStep (.init 1 .slottedData) ops) := by
    intro ops
    have h := (hall 1 .slottedData ops ops.length).1
    rwa [take_length] at h
  have h := run_inserts fourRecords (s := .init 1 .slottedData)
    (Stores.init ..) (by decide +kernel) (by decide +kernel)
  obtain ⟨hheld, hread⟩ := slotStep_of_full (r := [9]) h (by decide)
    (by decide +kernel)
  have hfour := (hsound (fourRecords.map .insert)).reads 0
  have hfive := (hsound (fourRecords.map .insert ++ [.insert [9]])).reads 0
  rw [run_append, run_cons, run_nil, hheld, hread, ← hfour, h.read] at hfive
  exact absurd hfive (by decide +kernel)

end RGraph.Storage
