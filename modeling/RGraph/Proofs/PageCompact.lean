import RGraph.Proofs.PageSlots

/-!
# What compaction does to the order of records

`compact` moves the live records to the front in slot order, one after
another, and then writes the new slots from the low end of the directory up.
A move can overwrite a record that has not been moved yet, so what is carried
to a place is what its source holds by then (`carried`); and the slot with the
highest index is the one at the low end, so the records come out in reverse.

`Packable` is what a page needs for this, and it is kept by inserts at the end
or at an index, by deletes and by compaction itself. The exception is an
`insert` that compacts the page and then finds room: it goes on with the
offset and the slot count from before.
-/

namespace RGraph.Storage

open RGraph.Lib List

/-! ## The slots as a list -/

def slotsOf (p : SlottedPage) : List Slot := (List.range p.header.slotCount).filterMap p.slot

variable {p : SlottedPage}

theorem slotsOf_eq {l : List Slot} (hlen : p.header.slotCount = l.length)
    (h : ∀ i, i < l.length → p.slot i = l[i]?) : slotsOf p = l := by
  rw [slotsOf, hlen]
  have hid := filterMap_range_getElem? id l (g := p.slot) fun i hi => by
    rw [h i hi, Option.map_id]
    rfl
  rw [hid, map_id]

theorem getElem?_slotsOf (p : SlottedPage) (i : Nat) : (slotsOf p)[i]? = p.slot i := by
  have hmap : slotsOf p = (List.range p.header.slotCount).map fun i =>
      Slot.decode (readAt p.data (SlottedPage.slotPos p.header.slotCount i) slotSize) := by
    refine slotsOf_eq (by simp) fun i hi => ?_
    rw [length_map, length_range] at hi
    rw [SlottedPage.slot_eq hi, List.getElem?_map, List.getElem?_range hi]
    rfl
  rw [hmap]
  rcases Nat.lt_or_ge i p.header.slotCount with hi | hi
  · rw [SlottedPage.slot_eq hi, List.getElem?_map, List.getElem?_range hi]
    rfl
  · rw [slot_eq_none.mpr hi]
    exact List.getElem?_eq_none (by simpa using hi)

theorem length_slotsOf (p : SlottedPage) : (slotsOf p).length = p.header.slotCount := by
  refine Nat.le_antisymm ?_ ?_
  · exact Nat.le_trans (length_filterMap_le _ _) (by simp)
  · refine Nat.not_lt.mp fun hlt => ?_
    have hnone := List.getElem?_eq_none (Nat.le_refl (slotsOf p).length)
    rw [getElem?_slotsOf, slot_eq_none] at hnone
    omega

def lengths (ss : List Slot) : Nat := (ss.map Slot.length).sum

@[simp] theorem lengths_cons (s : Slot) (ss : List Slot) :
    lengths (s :: ss) = s.length + lengths ss := by
  simp [lengths]

theorem lengths_perm {as bs : List Slot} (h : as.Perm bs) : lengths as = lengths bs :=
  (h.map _).sum_eq

/-! ## Moving the records -/

/-- What the copies carry, the first one to `off`. -/
def carried (d : Bytes) (off : Nat) : List Slot → List Bytes
  | [] => []
  | s :: ss =>
    readAt d s.offset s.length ::
      carried (writeAt d off (readAt d s.offset s.length)) (off + s.length) ss

def packedSlots (off : Nat) : List Slot → List Slot
  | [] => []
  | s :: ss => ⟨off, s.length⟩ :: packedSlots (off + s.length) ss

theorem writeAt_readAt_self {d : Bytes} {off n : Nat} (h : off + n ≤ d.length) :
    writeAt d off (readAt d off n) = d := by
  refine ext_getD ?_ fun i hi => ?_
  · rw [length_writeAt, length_readAt]
    omega
  · rw [getD_writeAt, length_readAt]
    split
    · next hin =>
        rw [getD_readAt, if_pos (by omega)]
        congr 1
        omega
    · rfl

theorem compactPlan_slots (ss : List Slot) : ∀ {off : Nat}, off + lengths ss < 2 ^ 16 →
    (SlottedPage.compactPlan off ss).2.1 = packedSlots off ss := by
  induction ss with
  | nil => intro off _; rfl
  | cons s ss ih =>
    intro off h
    rw [lengths_cons] at h
    have hmod : (off + s.length) % 2 ^ 16 = off + s.length := Nat.mod_eq_of_lt (by omega)
    rw [SlottedPage.compactPlan, hmod]
    exact congrArg (_ :: ·) (ih (by omega))

variable {ss : List Slot}

theorem mem_packedSlots : ∀ {off : Nat} {x : Slot},
    x ∈ packedSlots off ss → x.offset + x.length ≤ off + lengths ss := by
  induction ss with
  | nil => intro off x hx; cases hx
  | cons s ss ih =>
    intro off x hx
    rw [lengths_cons]
    rcases mem_cons.mp hx with rfl | hx
    · dsimp only
      omega
    · have := ih hx
      omega

theorem lengths_packedSlots (ss : List Slot) : ∀ off : Nat,
    lengths (packedSlots off ss) = lengths ss ∧ (packedSlots off ss).length = ss.length := by
  induction ss with
  | nil => intro off; exact ⟨rfl, rfl⟩
  | cons s ss ih =>
    intro off
    obtain ⟨hsum, hlen⟩ := ih (off + s.length)
    rw [packedSlots, lengths_cons, lengths_cons, hsum, length_cons, length_cons, hlen]
    exact ⟨rfl, rfl⟩

/-- The copies leave what is below `off`, and each place ends up with what was
carried there. -/
theorem applyMoves_plan (ss : List Slot) : ∀ {d : Bytes} {off : Nat},
    d.length = 8128 → off + lengths ss ≤ 8128 → (∀ s ∈ ss, s.offset + s.length ≤ 8128) →
    ∃ d', SlottedPage.applyMoves (SlottedPage.compactPlan off ss).1 d = .ok d' ∧ d'.length = 8128 ∧
      (∀ o n, o + n ≤ off → readAt d' o n = readAt d o n) ∧
      (packedSlots off ss).map (fun s => readAt d' s.offset s.length) = carried d off ss := by
  induction ss with
  | nil => intro d off hd _ _; exact ⟨d, rfl, hd, fun _ _ _ => rfl, rfl⟩
  | cons s ss ih =>
    intro d off hd hfit hin
    obtain ⟨hs, hin⟩ := forall_mem_cons.mp hin
    rw [lengths_cons] at hfit
    have hmod : (off + s.length) % 2 ^ 16 = off + s.length := Nat.mod_eq_of_lt (by omega)
    have hd₁ : (writeAt d off (readAt d s.offset s.length)).length = 8128 := by
      rw [length_writeAt, length_readAt]
      omega
    obtain ⟨d', hmoves, hd', hbelow, hplaces⟩ :=
      ih hd₁ (show off + s.length + lengths ss ≤ 8128 by omega) hin
    have hown : readAt (writeAt d off (readAt d s.offset s.length)) off
        s.length = readAt d s.offset s.length := by
      have h := readAt_writeAt_self d off (readAt d s.offset s.length)
      rwa [length_readAt] at h
    refine ⟨d', ?_, hd', fun o n hle => ?_, ?_⟩
    · rw [SlottedPage.compactPlan, hmod]
      dsimp only
      split
      · next hsame => rwa [← hsame, writeAt_readAt_self (by omega), hsame] at hmoves
      · rw [SlottedPage.applyMoves, if_neg (by rw [dataSize_eq]; omega)]
        exact hmoves
    · rw [hbelow o n (by omega), readAt_writeAt_ne _ (by rw [length_readAt]; omega)]
    · rw [packedSlots, map_cons, carried, hplaces, hbelow off s.length (Nat.le_refl _), hown]

/-! ## The page after compaction -/

/-- The live records fit in front of the directory, and lie there. -/
structure Packable (p : SlottedPage) : Prop where
  size : p.data.length = 8128
  fits : p.header.freeSpaceOffset + 4 * p.header.slotCount ≤ 8128
  inside : ∀ x ∈ p.liveSlots, x.offset + x.length ≤ p.header.freeSpaceOffset
  total : lengths p.liveSlots ≤ p.header.freeSpaceOffset

theorem liveSlots_eq (p : SlottedPage) :
    p.liveSlots = (slotsOf p).filter fun x => !x.isDeleted := rfl

theorem length_liveSlots_le (p : SlottedPage) : p.liveSlots.length ≤ p.header.slotCount := by
  rw [liveSlots_eq, ← length_slotsOf]
  exact length_filter_le _ _

theorem Packable.compact (h : Packable p) : ∃ p', p.compact = .ok p' ∧ Packable p' ∧
      p'.header.slotCount = p.liveSlots.length ∧ p'.header.freeSpaceOffset = lengths p.liveSlots ∧
      ∀ i, p'.read i = .ok ((carried p.data 0 p.liveSlots).reverse[i]?) := by
  have hfits := h.fits
  have htotal := h.total
  have hlive := length_liveSlots_le p
  obtain ⟨d, hmoves, hd, -, hplaces⟩ := applyMoves_plan p.liveSlots h.size
    (show 0 + lengths p.liveSlots ≤ 8128 by omega) fun s hs => by
      have := h.inside s hs
      omega
  have hsmall : 0 + lengths p.liveSlots < 2 ^ 16 := by omega
  obtain ⟨hlast, -⟩ := compactPlan_spec p.liveSlots hsmall
  have hslots := compactPlan_slots p.liveSlots hsmall
  obtain ⟨hsum, hlen⟩ := lengths_packedSlots p.liveSlots 0
  have hin : ∀ x ∈ packedSlots 0 p.liveSlots,
      x.offset + x.length ≤ lengths p.liveSlots := fun x hx => by
    have := mem_packedSlots hx
    omega
  generalize hq : packedSlots 0 p.liveSlots = slots at *
  have hfit : 4 * slots.length ≤ 8128 := by omega
  have hbelow : ∀ x ∈ slots, x.offset + x.length ≤ 8128 - 4 * slots.length :=
    fun x hx => Nat.le_trans (hin x hx) (by omega)
  let p' := p.withDirectory d slots (lengths p.liveSlots)
  have hslotsOf : slotsOf p' = slots.reverse :=
    slotsOf_eq (length_reverse).symm fun i => slot_withDirectory hfit hbelow
  have hlives : p'.liveSlots = slots.reverse := by
    rw [liveSlots_eq, hslotsOf, filter_eq_self]
    intro x hx
    have := hin x (mem_reverse.mp hx)
    rw [not_isDeleted_of_le (by omega)]
    rfl
  refine ⟨p', ?_, ⟨?_, ?_, ?_, ?_⟩, hlen, rfl, fun i => ?_⟩
  · rw [SlottedPage.compact]
    dsimp only
    rw [hmoves, Res.ok_bind, hslots, hlast, Nat.zero_add]
    rfl
  · show (writeAt d _ _).length = 8128
    rw [length_writeAt, length_flatMap_encode, dataSize_eq, slotSize_eq, hd]
    omega
  · show lengths p.liveSlots + 4 * slots.length ≤ 8128
    omega
  · intro x hx
    rw [hlives] at hx
    exact hin x (mem_reverse.mp hx)
  · rw [hlives, lengths_perm (reverse_perm slots), hsum]
    exact Nat.le_refl _
  · rw [← hplaces]
    exact read_withDirectory hfit hbelow i

/-! ## Calls on a page -/

section Calls

variable {p q : SlottedPage}

variable {x : Slot}

theorem Packable.put (h : Packable p) (hsize : q.data.length = 8128)
    (hfree : q.header.freeSpaceOffset = p.header.freeSpaceOffset + x.length)
    (hfits : q.header.freeSpaceOffset + 4 * q.header.slotCount ≤ 8128)
    (ho : x.offset = p.header.freeSpaceOffset)
    (hperm : q.liveSlots.Perm (x :: p.liveSlots)) : Packable q := by
  refine ⟨hsize, hfits, fun y hy => ?_, ?_⟩
  · rcases mem_cons.mp (hperm.mem_iff.mp hy) with rfl | hy
    · omega
    · have := h.inside y hy
      omega
  · have := h.total
    rw [lengths_perm hperm, lengths_cons]
    omega

theorem filter_set_perm {l : List Slot} {idx : Nat} {y : Slot}
    (hy : l[idx]? = some y) (hdel : y.isDeleted = true) (hlive : x.isDeleted = false) :
    ((l.set idx x).filter fun s => !s.isDeleted).Perm (x :: l.filter fun s => !s.isDeleted) := by
  obtain ⟨hlt, rfl⟩ := List.getElem?_eq_some_iff.mp hy
  have hset := (set_perm_cons_eraseIdx hlt x).filter fun s => !s.isDeleted
  have hold := (getElem_cons_eraseIdx_perm hlt).filter fun s => !s.isDeleted
  rw [filter_cons_of_pos (by rw [hlive]; rfl)] at hset
  rw [filter_cons_of_neg (by rw [hdel]; exact Bool.false_ne_true)] at hold
  exact hset.trans (hold.cons x)

/-- A slot that is not in use, or the next one, is pointed at a record. -/
theorem liveSlots_put {idx : Nat} (hcount : q.header.slotCount = max p.header.slotCount (idx + 1))
    (hidx : idx ≤ p.header.slotCount) (hslot : ∀ i, q.slot i = if i = idx then some x else p.slot i)
    (hdel : ∀ y, p.slot idx = some y → y.isDeleted = true)
    (hlive : x.isDeleted = false) : q.liveSlots.Perm (x :: p.liveSlots) := by
  have hlen := length_slotsOf p
  rcases Nat.lt_or_ge idx p.header.slotCount with hlt | hge
  · obtain ⟨y, hy⟩ : ∃ y, (slotsOf p)[idx]? = some y :=
      ⟨_, List.getElem?_eq_getElem (by omega)⟩
    have hset : slotsOf q = (slotsOf p).set idx x := by
      refine slotsOf_eq (by rw [length_set]; omega) fun i hi => ?_
      rw [length_set] at hi
      rw [hslot, List.getElem?_set, ← getElem?_slotsOf]
      by_cases h : i = idx
      · rw [if_pos h, if_pos h.symm, if_pos (by omega)]
      · rw [if_neg h, if_neg (Ne.symm h)]
    rw [liveSlots_eq, hset]
    exact filter_set_perm hy (hdel y (getElem?_slotsOf p idx ▸ hy)) hlive
  · have happend : slotsOf q = slotsOf p ++ [x] := by
      refine slotsOf_eq (by rw [length_append, length_singleton]
                            omega) fun i hi => ?_
      rw [hslot, ← getElem?_slotsOf]
      by_cases h : i = idx
      · rw [if_pos h, List.getElem?_append_right (by omega),
          show i - (slotsOf p).length = 0 by omega]
        rfl
      · rw [length_append, length_singleton] at hi
        rw [if_neg h, List.getElem?_append_left (by omega)]
    rw [liveSlots_eq, happend, filter_append, filter_cons_of_pos (by rw [hlive]; rfl), filter_nil]
    exact perm_append_singleton x _

theorem slot_lt (hx : x ∈ slotsOf p) : x.offset < 2 ^ 16 ∧ x.length < 2 ^ 16 := by
  obtain ⟨i, -, hi⟩ := mem_filterMap.mp hx
  rw [SlottedPage.slot] at hi
  split at hi
  · cases hi
    rw [Slot.decode]
    generalize readAt p.data _ _ = bs
    have ho := leToNat_lt (readAt bs 0 2)
    have hl := leToNat_lt (readAt bs 2 2)
    rw [length_readAt] at ho hl
    exact ⟨ho, hl⟩
  · cases hi

theorem Packable.placeAt (h : Packable p) {r : Bytes} (idx : Nat)
    (hroom : r.length + slotSize ≤ p.available) : Packable (p.placeAt idx r).2 := by
  have hfits := h.fits
  rw [available_eq, slotSize_eq] at hroom
  have hmod : (p.header.freeSpaceOffset + r.length) % 2 ^ 16 =
      p.header.freeSpaceOffset + r.length := Nat.mod_eq_of_lt (by omega)
  have hc : (p.header.slotCount + 1) * 4 ≤ 8128 := by omega
  let p₁ : SlottedPage := { p with
      data := writeAt p.data p.header.freeSpaceOffset r }.setHeader
        (p.header.freeSpaceOffset + r.length) (p.header.slotCount + 1)
  -- the slots are read with the count raised already
  have hold : (List.range p.header.slotCount).filterMap p₁.slot = slotsOf p := by
    refine filterMap_congr fun i hi => ?_
    have hlt := mem_range.mp hi
    have hcount : p₁.header.slotCount = p.header.slotCount + 1 := rfl
    rw [SlottedPage.slot_eq (by omega), SlottedPage.slot_eq hlt, hcount,
      slotPos_eq hlt (by omega), slotPos_eq (by omega) hc, slotSize_eq]
    exact congrArg (fun bs => some (Slot.decode bs)) (readAt_writeAt_ne _ (.inr (by omega)))
  let new := (slotsOf p).insertIdx (min idx (slotsOf p).length)
    ⟨p.header.freeSpaceOffset, r.length⟩
  have hplace : (p.placeAt idx r).2 = { p₁ with
      data := SlottedPage.writeSlots (p.header.slotCount + 1) 0 new p₁.data } := by
    rw [SlottedPage.placeAt]
    dsimp only
    rw [hmod]
    show SlottedPage.mk _ (SlottedPage.writeSlots (p.header.slotCount + 1) 0
      (((List.range p.header.slotCount).filterMap p₁.slot).insertIdx
        (min idx ((List.range p.header.slotCount).filterMap p₁.slot).length)
        _) _) = _
    rw [hold]
  have hnew : new.length = p.header.slotCount + 1 := by
    rw [length_insertIdx, if_pos (Nat.min_le_right _ _), length_slotsOf]
  have hslotsOf : slotsOf (p.placeAt idx r).2 = new := by
    rw [hplace]
    refine slotsOf_eq hnew.symm fun i hi => ?_
    obtain ⟨x, hx⟩ : ∃ x, new[i]? = some x := ⟨_, List.getElem?_eq_getElem hi⟩
    have hread := readAt_writeSlots hc new (i := 0) (d := p₁.data) (by omega) hx
    rw [Nat.zero_add] at hread
    have hlt : x.offset < 2 ^ 16 ∧ x.length < 2 ^ 16 := by
      have hperm := perm_insertIdx (⟨p.header.freeSpaceOffset, r.length⟩ :
        Slot) (slotsOf p) (Nat.min_le_right idx _)
      rcases mem_cons.mp (hperm.mem_iff.mp (mem_of_getElem? hx)) with
        rfl | hx
      · exact ⟨by dsimp only; omega, by dsimp only; omega⟩
      · exact slot_lt hx
    rw [hx]
    exact SlottedPage.slot_eq_some (by show i < p.header.slotCount + 1; omega)
      hc hlt.1 hlt.2 hread
  refine h.put (x := ⟨p.header.freeSpaceOffset, r.length⟩) ?_ ?_ ?_ rfl ?_
  · rw [hplace]
    refine length_writeSlots hc new (by omega) ?_
    show (writeAt _ _ _).length = 8128
    rw [length_writeAt, h.size]
    omega
  · rw [hplace]
    rfl
  · rw [hplace]
    show p.header.freeSpaceOffset + r.length + 4 * (p.header.slotCount + 1) ≤ _
    omega
  · have hperm := (perm_insertIdx (⟨p.header.freeSpaceOffset, r.length⟩ :
      Slot) (slotsOf p) (Nat.min_le_right idx _)).filter fun s => !s.isDeleted
    rw [filter_cons_of_pos (by
      rw [not_isDeleted_of_le (by dsimp only; omega)]; rfl)] at hperm
    rw [liveSlots_eq, hslotsOf]
    exact hperm

theorem Packable.insertAt (h : Packable p) (idx : Nat) (r : Bytes) :
    ∃ res q, p.insertAt idx r = .ok (res, q) ∧ Packable q := by
  rw [SlottedPage.insertAt]
  split
  · exact ⟨none, p, rfl, h⟩
  · dsimp only
    split
    · obtain ⟨p', hc, hp', -⟩ := h.compact
      rw [hc, Res.ok_bind]
      split
      · exact ⟨none, p', rfl, hp'⟩
      · next hroom => exact ⟨_, _, rfl, hp'.placeAt idx (Nat.not_lt.mp hroom)⟩
    · next hroom => exact ⟨_, _, rfl, h.placeAt idx (Nat.not_lt.mp hroom)⟩

theorem Packable.place (h : Packable p) {r : Bytes} (hroom : r.length + slotSize ≤ p.available) :
    ∃ res q, p.place r p.header.slotCount p.header.freeSpaceOffset = .ok (res, q) ∧ Packable q := by
  obtain ⟨idx, q, hok, hidx, hdel, hcount, hfree, hdata⟩ := place_eq h.fits hroom
  rw [available_eq, slotSize_eq] at hroom
  refine ⟨_, q, hok, h.put (x := ⟨p.header.freeSpaceOffset, r.length⟩) ?_ hfree (by omega) rfl ?_⟩
  · rw [hdata, length_writeAt, length_writeAt, h.size, Slot.length_encode]
    omega
  · refine liveSlots_put hcount hidx (slot_write hcount hidx (by omega)
      (fun i hi => readAt_writeAt_ne _ (.inr (by omega))) hdata
      (by dsimp only; omega) (by dsimp only; omega)) hdel
      (not_isDeleted_of_le (by dsimp only; omega))

theorem Packable.delete (h : Packable p) (idx : Nat) : Packable (p.delete idx).2 := by
  rw [SlottedPage.delete]
  cases hx : p.slot idx with
  | none => exact h
  | some x =>
    dsimp only
    split
    · exact h
    · next hlive =>
        have hfits := h.fits
        have hlt := slot_lt_count hx
        let q := p.setSlot idx { x with offset := 0xFFFF }
        have hdata : q.data = writeAt p.data (8128 - 4 * (idx + 1))
            (Slot.encode { x with offset := 0xFFFF }) := by
          show writeAt _ (SlottedPage.slotPos p.header.slotCount idx) _ = _
          rw [slotPos_eq hlt (by omega)]
        have hcount : q.header.slotCount = max p.header.slotCount (idx + 1) := by
          show p.header.slotCount = _
          omega
        have hslot := slot_write (p := p) (q := q) hcount (by omega)
          (show 4 * p.header.slotCount ≤ 8128 by omega) (fun _ _ => rfl) hdata
          (show 0xFFFF < 2 ^ 16 by omega) (slot_lt (mem_filterMap.mpr
            ⟨idx, mem_range.mpr hlt, hx⟩)).2
        -- the page before is the page after with the slot in use again
        have hperm : p.liveSlots.Perm (x :: q.liveSlots) := by
          refine liveSlots_put (p := q) (q := p) (x := x) ?_
            (Nat.le_of_lt hlt) (fun i => ?_) (fun y hy => ?_)
            (Bool.eq_false_iff.mpr hlive)
          · rw [hcount]
            omega
          · rw [hslot]
            split
            · next hi => rw [hi, hx]
            · rfl
          · rw [hslot, if_pos rfl] at hy
            cases hy
            rfl
        refine ⟨?_, h.fits, fun y hy => ?_, ?_⟩
        · show q.data.length = 8128
          rw [hdata, length_writeAt, h.size, Slot.length_encode]
          omega
        · exact h.inside y (hperm.mem_iff.mpr (mem_cons_of_mem _ hy))
        · have htotal := h.total
          rw [lengths_perm hperm, lengths_cons] at htotal
          exact Nat.le_trans (Nat.le_add_left _ _) htotal

end Calls

/-- An `insert` that compacts the page finds no room for its record then. -/
def NotResumed (p : SlottedPage) : SlotCall → Prop
  | .insert record => record.length ≤ maxInlineRecordLen →
      p.available < record.length + slotSize →
      dataSize < lengths p.liveSlots + p.liveSlots.length * slotSize +
        (record.length + slotSize)
  | _ => True

theorem Packable.insert (h : Packable p) {r : Bytes} (hok : NotResumed p (.insert r)) :
    ∃ res q, p.insert r = .ok (res, q) ∧ Packable q := by
  rw [SlottedPage.insert]
  split
  · exact ⟨none, p, rfl, h⟩
  · next hmax =>
      dsimp only
      split
      · next hfull =>
          obtain ⟨p', hc, hp', hcount, hfree, -⟩ := h.compact
          have hno := hok (Nat.not_lt.mp hmax) hfull
          have hfull' : p'.available < r.length + slotSize := by
            rw [dataSize_eq, slotSize_eq] at hno
            rw [available_eq, hcount, hfree, slotSize_eq]
            omega
          rw [hc, Res.ok_bind, if_pos hfull']
          exact ⟨none, p', rfl, hp'⟩
      · next hroom => exact h.place (Nat.not_lt.mp hroom)

theorem Packable.step (h : Packable p) {call : SlotCall}
    (hok : NotResumed p call) : Packable (callStep p call) := by
  cases call with
  | insert record =>
    obtain ⟨res, q, hq, hpack⟩ := h.insert hok
    rw [callStep, hq]
    exact hpack
  | insertAt idx record =>
    obtain ⟨res, q, hq, hpack⟩ := h.insertAt idx record
    rw [callStep, hq]
    exact hpack
  | delete idx => exact h.delete idx

theorem packable_init (pageId : Nat) (pageType : PageType) : Packable (.init pageId pageType) :=
  ⟨length_replicate .., Nat.zero_le _, nofun, Nat.le_refl 0⟩

/-! ## The order of the records -/

/-- The live records in the order of their slots. -/
def liveRecords (p : SlottedPage) : List Bytes :=
  p.liveSlots.map fun x => readAt p.data x.offset x.length

/-- Compaction leaves the live records, and nothing else, in the same order. -/
def KeepsOrder (p : SlottedPage) : Prop :=
  ∃ p', p.compact = .ok p' ∧ p'.header.slotCount = (liveRecords p).length ∧
    ∀ i, p'.read i = .ok ((liveRecords p)[i]?)

/-- No record begins below the place it is moved to. -/
def Ahead (off : Nat) : List Slot → Prop
  | [] => True
  | s :: ss => off ≤ s.offset ∧ Ahead (off + s.length) ss

instance Ahead.decidable : ∀ (off : Nat) (ss : List Slot), Decidable (Ahead off ss)
  | _, [] => .isTrue trivial
  | off, s :: ss =>
    have := Ahead.decidable (off + s.length) ss
    inferInstanceAs (Decidable (off ≤ s.offset ∧ Ahead (off + s.length) ss))

theorem Ahead.le : ∀ {off : Nat}, Ahead off ss → ∀ x ∈ ss, off ≤ x.offset := by
  induction ss with
  | nil => intro off _ x hx; cases hx
  | cons s ss ih =>
    intro off h x hx
    rcases mem_cons.mp hx with rfl | hx
    · exact h.1
    · exact Nat.le_trans (Nat.le_add_right _ _) (ih h.2 x hx)

theorem carried_of_ahead : ∀ {d : Bytes} {off : Nat}, Ahead off ss → carried d off ss =
      ss.map fun x => readAt d x.offset x.length := by
  induction ss with
  | nil => intro d off _; rfl
  | cons s ss ih =>
    intro d off h
    rw [carried, map_cons, ih h.2]
    refine congrArg (_ :: ·) (map_congr_left fun x hx => ?_)
    refine readAt_writeAt_ne _ (.inr ?_)
    rw [length_readAt]
    exact h.2.le x hx

/-- Where no record is overwritten before it is moved, the records come out in
reverse. -/
theorem Packable.keepsOrder_iff (h : Packable p) (hahead : Ahead 0 p.liveSlots) :
    KeepsOrder p ↔ (liveRecords p).reverse = liveRecords p := by
  obtain ⟨p', hc, -, hcount, -, hread⟩ := h.compact
  rw [carried_of_ahead hahead] at hread
  constructor
  · rintro ⟨q, hq, -, hall⟩
    rw [hc] at hq
    cases hq
    refine ext_getElem? fun i => ?_
    have heq := (hread i).symm.trans (hall i)
    exact Except.ok.inj heq
  · intro hpal
    refine ⟨p', hc, ?_, fun i => ?_⟩
    · rw [hcount, liveRecords, length_map]
    · rw [hread]
      exact congrArg (fun rs : List Bytes => Except.ok rs[i]?) hpal

/-- On every page that inserts at the end, inserts at an index and deletes
lead to, without an `insert` that goes on after a compaction, and with no
record below the place it is moved to, `compact` keeps the order of the live
records just when their list is its own reverse. -/
theorem compact_keeps_order {pageId : Nat} {pageType : PageType}
    {calls : List SlotCall}
    (hg : Guarded callStep NotResumed (.init pageId pageType) calls) (n : Nat) :
    let p := run callStep (.init pageId pageType) (calls.take n)
    Ahead 0 p.liveSlots → (KeepsOrder p ↔ (liveRecords p).reverse = liveRecords p) := by
  intro p
  have hp : Packable p := run_inv_take (fun _ _ h hok => h.step hok)
    (packable_init pageId pageType) hg n
  exact hp.keepsOrder_iff

/-! ### Pages without holes -/

namespace Layout

variable {base : Nat} {recs : List (Nat × Bytes)} {r : Bytes}

theorem liveRecords (h : Layout p base recs) : liveRecords p = recs.map Prod.snd := by
  rw [Storage.liveRecords, h.liveSlots, map_map]
  exact map_congr_left fun x hx => h.record x hx

/-- A record that fits is put behind the others, without a compaction. -/
theorem step_insert (h : Layout p base recs) (hr : r.length ≤ 2048)
    (hfit : base + recBytes recs + r.length + 4 * (recs.length + 1) ≤ 8128) :
    NotResumed p (.insert r) ∧
      Layout (callStep p (.insert r)) base (recs ++ [(base + recBytes recs, r)]) := by
  constructor
  · intro _ hfull
    rw [h.available, slotSize_eq] at hfull
    omega
  · obtain ⟨p', hins, h', -⟩ := h.insert hr hfit
    rwa [callStep, hins]

end Layout

theorem layout_init (pageId : Nat) (pageType : PageType) : Layout (.init pageId pageType) 0 [] :=
  ⟨length_replicate .., rfl, rfl, by decide, nofun, nofun, nofun, nofun⟩

/-- Three records that read the same backwards. -/
theorem compact_keeps_order_mirrored :
    KeepsOrder (run callStep (.init 1 .slottedData)
      (List.take 3 [.insert [7, 8], .insert [9], .insert [7, 8]])) := by
  obtain ⟨hok₁, h₁⟩ := (layout_init 1 .slottedData).step_insert (r := [7, 8])
    (by decide) (by decide)
  obtain ⟨hok₂, h₂⟩ := h₁.step_insert (r := [9]) (by decide) (by decide)
  obtain ⟨hok₃, h₃⟩ := h₂.step_insert (r := [7, 8]) (by decide) (by decide)
  have hg : Guarded callStep NotResumed (.init 1 .slottedData)
      [.insert [7, 8], .insert [9], .insert [7, 8]] := ⟨hok₁, hok₂, hok₃, trivial⟩
  refine (compact_keeps_order hg 3 ?_).mpr ?_
  · rw [take_of_length_le (by decide), run_cons, run_cons, run_cons, run_nil, h₃.liveSlots]
    decide
  · rw [take_of_length_le (by decide), run_cons, run_cons, run_cons, run_nil, h₃.liveRecords]
    decide

/-- Two records come out the other way round. -/
theorem compact_reverses_two :
    let p := run callStep (.init 1 .slottedData) [.insert [1], .insert [2]]
    liveRecords p = [[1], [2]] ∧ ¬ KeepsOrder p := by
  obtain ⟨hok₁, h₁⟩ := (layout_init 1 .slottedData).step_insert (r := [1])
    (by decide) (by decide)
  obtain ⟨hok₂, h₂⟩ := h₁.step_insert (r := [2]) (by decide) (by decide)
  have hp := ((packable_init 1 .slottedData).step hok₁).step hok₂
  rw [run_cons, run_cons, run_nil]
  refine ⟨h₂.liveRecords, fun hkeep => ?_⟩
  rw [hp.keepsOrder_iff (by rw [h₂.liveSlots]; decide), h₂.liveRecords] at hkeep
  exact absurd hkeep (by decide)

end RGraph.Storage
