import RGraph.Index.Page
import RGraph.Proofs.SlottedPage

/-!
# A B+ tree page as a list of records

`Holds p id ty rs`: the page has the id and type, its slots read as the records
`rs`, its header counts them, and they are packed above the header, so that the
room left is a matter of their lengths. Under `has_room_for` the operations of
the page are those of the list, and of the header only the count changes.
-/

namespace RGraph.Index

open RGraph.Lib RGraph.Storage List

/-! ## The header -/

structure BTreeHeader.Valid (h : BTreeHeader) : Prop where
  siblingPrev : h.siblingPrev < 2 ^ 64
  siblingNext : h.siblingNext < 2 ^ 64
  rightmostChild : h.rightmostChild < 2 ^ 64
  keyCount : h.keyCount < 2 ^ 16
  commonPrefixLen : h.commonPrefixLen < 2 ^ 16
  level : h.level < 2 ^ 8
  reserved : h.reserved.length = 3

theorem BTreeHeader.length_encode {h : BTreeHeader} (hv : h.Valid) : h.encode.length = 32 := by
  simp [BTreeHeader.encode, hv.reserved]

theorem leToNat_readAt_lt (bs : Bytes) (off n : Nat) : leToNat (readAt bs off n) < 256 ^ n := by
  have h := leToNat_lt (readAt bs off n)
  rwa [length_readAt] at h

theorem BTreeHeader.valid_decode (bs : Bytes) : (BTreeHeader.decode bs).Valid :=
  ⟨leToNat_readAt_lt bs 0 8, leToNat_readAt_lt bs 8 8,
    leToNat_readAt_lt bs 16 8, leToNat_readAt_lt bs 24 2,
    leToNat_readAt_lt bs 26 2, leToNat_readAt_lt bs 28 1, length_readAt _ _ _⟩

theorem BTreeHeader.decode_encode {h : BTreeHeader} (hv : h.Valid) :
    BTreeHeader.decode h.encode = h := by
  have h0 : readAt h.encode 0 8 = natToLE 8 h.siblingPrev :=
    readAt_append_left _ _ (length_natToLE _ _)
  have h8 : readAt h.encode 8 8 = natToLE 8 h.siblingNext :=
    readAt_of_append (natToLE 8 h.siblingPrev) _ _ rfl (by simp) (by simp)
  have h16 : readAt h.encode 16 8 = natToLE 8 h.rightmostChild :=
    readAt_of_append (natToLE 8 h.siblingPrev ++ natToLE 8 h.siblingNext) _
      (natToLE 2 h.keyCount ++ (natToLE 2 h.commonPrefixLen ++ (natToLE 1 h.level ++ h.reserved)))
      (by simp [BTreeHeader.encode]) (by simp) (by simp)
  have h24 : readAt h.encode 24 2 = natToLE 2 h.keyCount :=
    readAt_of_append (natToLE 8 h.siblingPrev ++ (natToLE 8 h.siblingNext ++
      natToLE 8 h.rightmostChild)) _ (natToLE 2 h.commonPrefixLen ++
        (natToLE 1 h.level ++ h.reserved))
      (by simp [BTreeHeader.encode]) (by simp) (by simp)
  have h26 : readAt h.encode 26 2 = natToLE 2 h.commonPrefixLen :=
    readAt_of_append (natToLE 8 h.siblingPrev ++ (natToLE 8 h.siblingNext ++
      (natToLE 8 h.rightmostChild ++ natToLE 2 h.keyCount))) _
      (natToLE 1 h.level ++ h.reserved)
      (by simp [BTreeHeader.encode]) (by simp) (by simp)
  have h28 : readAt h.encode 28 1 = natToLE 1 h.level :=
    readAt_of_append (natToLE 8 h.siblingPrev ++ (natToLE 8 h.siblingNext ++
      (natToLE 8 h.rightmostChild ++ (natToLE 2 h.keyCount ++
        natToLE 2 h.commonPrefixLen)))) _ h.reserved
      (by simp [BTreeHeader.encode]) (by simp) (by simp)
  have h29 : readAt h.encode 29 3 = h.reserved :=
    readAt_of_append (natToLE 8 h.siblingPrev ++ (natToLE 8 h.siblingNext ++
      (natToLE 8 h.rightmostChild ++ (natToLE 2 h.keyCount ++
        (natToLE 2 h.commonPrefixLen ++ natToLE 1 h.level))))) _ []
      (by simp [BTreeHeader.encode]) (by simp) hv.reserved
  rw [BTreeHeader.decode, h0, h8, h16, h24, h26, h28, h29,
    leToNat_natToLE _ _ hv.siblingPrev, leToNat_natToLE _ _ hv.siblingNext,
    leToNat_natToLE _ _ hv.rightmostChild, leToNat_natToLE _ _ hv.keyCount,
    leToNat_natToLE _ _ hv.commonPrefixLen, leToNat_natToLE _ _ hv.level]

namespace BTreePage

theorem valid_btreeHeader (p : BTreePage) : p.btreeHeader.Valid := BTreeHeader.valid_decode _

theorem btreeHeader_writeBtreeHeader {p : BTreePage} {h : BTreeHeader}
    (hv : h.Valid) : (p.writeBtreeHeader h).btreeHeader = h := by
  have hread := readAt_writeAt_self p.inner.data 0 h.encode
  rw [BTreeHeader.length_encode hv] at hread
  rw [btreeHeader, writeBtreeHeader, show btreeHeaderSize = 32 from rfl, hread,
    BTreeHeader.decode_encode hv]

/-- The siblings of a leaf, left and right. -/
def links (p : BTreePage) : PageId × PageId :=
  (p.btreeHeader.siblingPrev, p.btreeHeader.siblingNext)

theorem links_of_header {p p' : BTreePage} {n : Nat}
    (h : p'.btreeHeader = { p.btreeHeader with keyCount := n }) :
    p'.links = p.links := by
  rw [links, links, h]

theorem links_setSiblings (p : BTreePage) {prev next : PageId}
    (hp : prev < 2 ^ 64) (hn : next < 2 ^ 64) : (p.setSiblings prev next).links = (prev, next) := by
  have hv : BTreeHeader.Valid
      { p.btreeHeader with siblingPrev := prev, siblingNext := next } :=
    { p.valid_btreeHeader with siblingPrev := hp, siblingNext := hn }
  rw [links, setSiblings, btreeHeader_writeBtreeHeader hv]

end BTreePage

/-! ## Pages as lists -/

/-- A record of length `n` fits besides the records `rs`. -/
def Room (rs : List Bytes) (n : Nat) : Prop := totalLen rs + n + 4 * (rs.length + 1) ≤ 8096

structure Holds (p : BTreePage) (id : PageId) (ty : PageType)
    (rs : List Bytes) : Prop where
  layout : ∃ recs, recs.map Prod.snd = rs ∧ Layout p.inner 32 recs
  id : p.pageId = id
  type : p.inner.header.pageType = ty
  count : p.keyCount = rs.length
  short : ∀ r ∈ rs, r.length ≤ 2048

namespace Holds

variable {p : BTreePage} {id : PageId} {ty : PageType} {rs : List Bytes}

theorem slotCount (h : Holds p id ty rs) : p.slotCount = rs.length := by
  obtain ⟨recs, rfl, hl⟩ := h.layout
  rw [BTreePage.slotCount, hl.count, length_map]

theorem fits (h : Holds p id ty rs) : totalLen rs + 4 * rs.length ≤ 8096 := by
  obtain ⟨recs, rfl, hl⟩ := h.layout
  have hfits := hl.fits
  rw [recBytes_eq] at hfits
  rw [length_map]
  omega

theorem key (h : Holds p id ty rs) (i : Nat) : p.key i = .ok rs[i]? := by
  obtain ⟨recs, rfl, hl⟩ := h.layout
  rw [BTreePage.key, hl.read, List.getElem?_map]

theorem isLeaf (h : Holds p id ty rs) : p.isLeaf = decide (ty = .btreeLeaf) := by
  rw [BTreePage.isLeaf, h.type]
  cases ty <;> rfl

theorem isBranch (h : Holds p id ty rs) : p.isBranch = decide (ty = .btreeInterior) := by
  rw [BTreePage.isBranch, h.type]
  cases ty <;> rfl

theorem hasRoomFor (h : Holds p id ty rs) {n : Nat} : p.hasRoomFor n = true ↔ Room rs n := by
  obtain ⟨recs, rfl, hl⟩ := h.layout
  have hfits := hl.fits
  rw [recBytes_eq] at hfits
  rw [BTreePage.hasRoomFor, decide_eq_true_iff, hl.available, slotSize_eq,
    recBytes_eq, Room, length_map]
  omega

/-- The records from `i` on. -/
theorem records_from (h : Holds p id ty rs) : ∀ (n : Nat) {i : Nat},
    i + n = rs.length → p.records i n = .ok (rs.drop i) := by
  intro n
  induction n with
  | zero =>
    intro i hi
    rw [BTreePage.records, drop_eq_nil_of_le (by omega)]
  | succ n ih =>
    intro i hi
    have hlt : i < rs.length := by omega
    rw [BTreePage.records, h.key, ih (by omega), Res.ok_bind, Res.ok_bind,
      List.getElem?_eq_getElem hlt, drop_eq_getElem_cons hlt]
    rfl

theorem records (h : Holds p id ty rs) : p.records 0 rs.length = .ok rs := by
  rw [h.records_from rs.length (by omega), drop_zero]

/-- Only the header of the tree is rewritten. -/
theorem writeBtreeHeader (h : Holds p id ty rs) {bh : BTreeHeader}
    (hv : bh.Valid) (hc : bh.keyCount = rs.length) : Holds (p.writeBtreeHeader bh) id ty rs := by
  obtain ⟨recs, hrecs, hl⟩ := h.layout
  refine ⟨⟨recs, hrecs, hl.write_below ?_⟩, h.id, h.type, ?_, h.short⟩
  · exact Nat.le_of_eq (BTreeHeader.length_encode hv)
  · rw [BTreePage.keyCount, BTreePage.btreeHeader_writeBtreeHeader hv, hc]

theorem setSiblings (h : Holds p id ty rs) {prev next : PageId}
    (hp : prev < 2 ^ 64) (hn : next < 2 ^ 64) : Holds (p.setSiblings prev next) id ty rs :=
  h.writeBtreeHeader
    { p.valid_btreeHeader with siblingPrev := hp, siblingNext := hn } h.count

theorem setRightmostChild (h : Holds p id ty rs) {child : PageId} (hc : child < 2 ^ 64) :
    Holds (p.setRightmostChild child) id ty rs ∧ (p.setRightmostChild child).btreeHeader =
        { p.btreeHeader with rightmostChild := child } := by
  have hv : BTreeHeader.Valid { p.btreeHeader with rightmostChild := child } :=
    { p.valid_btreeHeader with rightmostChild := hc }
  exact ⟨h.writeBtreeHeader hv h.count, BTreePage.btreeHeader_writeBtreeHeader hv⟩

theorem setPageLsn (h : Holds p id ty rs) (lsn : Nat) : Holds (p.setPageLsn lsn) id ty rs := by
  obtain ⟨recs, hrecs, hl⟩ := h.layout
  exact ⟨⟨recs, hrecs, ⟨hl.size, hl.count, hl.free, hl.fits, hl.bytes,
    hl.above, hl.below, hl.record⟩⟩, h.id, h.type, h.count, h.short⟩

end Holds

variable {bh : BTreeHeader}

theorem btreeHeader_blank {id : PageId} {ty : PageType} (hv : bh.Valid) :
    (BTreePage.blank id ty bh).btreeHeader = bh :=
  BTreePage.btreeHeader_writeBtreeHeader (p := ⟨SlottedPage.init id ty⟩) hv

theorem layout_blank (id : PageId) (ty : PageType) (hv : bh.Valid) :
    Layout (BTreePage.blank id ty bh).inner 32 [] := by
  refine ⟨?_, rfl, rfl, by decide, ?_, ?_, ?_, ?_⟩
  · show (writeAt (List.replicate dataSize 0) 0 bh.encode).length = 8128
    rw [length_writeAt, length_replicate, BTreeHeader.length_encode hv, dataSize_eq]
    rfl
  · intro i x hx; simp at hx
  · intro x hx; simp at hx
  · intro x hx; simp at hx
  · intro x hx; simp at hx

/-- A page with nothing on it. -/
theorem holds_blank (id : PageId) (ty : PageType) (hv : bh.Valid)
    (hc : bh.keyCount = 0) : Holds (BTreePage.blank id ty bh) id ty [] := by
  refine ⟨⟨[], rfl, layout_blank id ty hv⟩, rfl, rfl, ?_, by simp⟩
  rw [BTreePage.keyCount, btreeHeader_blank hv, hc]
  rfl

theorem valid_new {level : Nat} (h : level < 2 ^ 8) : (BTreeHeader.new level).Valid :=
  have h64 : 0 < 2 ^ 64 := by decide
  have h16 : 0 < 2 ^ 16 := by decide
  ⟨h64, h64, h64, h16, h16, h, rfl⟩

namespace Holds

variable {p : BTreePage} {id : PageId} {ty : PageType} {rs : List Bytes}

variable {r : Bytes}

/-- An insertion into the slotted page, counted. -/
theorem counted (h : Holds p id ty rs) {inner : SlottedPage} (idx : Nat)
    {recs : List (Nat × Bytes)} (hl : Layout inner 32 recs)
    (hf : Frame 32 p.inner inner) (hperm : (recs.map Prod.snd).Perm (r :: rs))
    (hr : r.length ≤ 2048) : ∃ p', BTreePage.counted (some idx, inner) = (some idx, p') ∧
      Holds p' id ty (recs.map Prod.snd) ∧
      p'.btreeHeader = { p.btreeHeader with keyCount := rs.length + 1 } := by
  have hfits := h.fits
  have hbh : BTreePage.btreeHeader ⟨inner⟩ = p.btreeHeader := by
    rw [BTreePage.btreeHeader, BTreePage.btreeHeader, hf.data 0 btreeHeaderSize (by decide)]
  have hc : p.btreeHeader.keyCount = rs.length := h.count
  have hmod : (rs.length + 1) % 2 ^ 16 = rs.length + 1 := Nat.mod_eq_of_lt (by omega)
  have hv : BTreeHeader.Valid { p.btreeHeader with keyCount := rs.length + 1 } :=
    { p.valid_btreeHeader with
      keyCount := show rs.length + 1 < 2 ^ 16 by omega }
  simp only [BTreePage.counted, hbh, hc, hmod]
  refine ⟨_, rfl, ⟨⟨recs, rfl, hl.write_below ?_⟩, hf.pageId.trans h.id,
    hf.pageType.trans h.type, ?_, ?_⟩,
    BTreePage.btreeHeader_writeBtreeHeader hv⟩
  · exact Nat.le_of_eq (BTreeHeader.length_encode hv)
  · rw [BTreePage.keyCount, BTreePage.btreeHeader_writeBtreeHeader hv, hperm.length_eq, length_cons]
  · intro r' hr'
    rcases mem_cons.mp (hperm.mem_iff.mp hr') with rfl | hr'
    · exact hr
    · exact h.short r' hr'

theorem layout_room (h : Holds p id ty rs) {n : Nat} (hroom : Room rs n) :
    ∃ recs, recs.map Prod.snd = rs ∧ Layout p.inner 32 recs ∧ recs.length = rs.length ∧
      32 + recBytes recs + n + 4 * (recs.length + 1) ≤ 8128 := by
  obtain ⟨recs, hrecs, hl⟩ := h.layout
  have hlen : recs.length = rs.length := by rw [← hrecs, length_map]
  refine ⟨recs, hrecs, hl, hlen, ?_⟩
  rw [recBytes_eq, hrecs, hlen]
  unfold Room at hroom
  omega

theorem insertRaw (h : Holds p id ty rs) (hr : r.length ≤ 2048) (hroom : Room rs r.length) :
    ∃ p', p.insertRaw r = .ok (some rs.length, p') ∧ Holds p' id ty (rs ++ [r]) ∧
      p'.btreeHeader = { p.btreeHeader with keyCount := rs.length + 1 } := by
  obtain ⟨recs, hrecs, hl, hlen, hfit⟩ := h.layout_room hroom
  obtain ⟨inner, hins, hl', hf⟩ := hl.insert hr hfit
  obtain ⟨p', hc, hh, hbh⟩ := h.counted recs.length hl' hf (r := r)
    (by rw [map_append, hrecs]; exact perm_append_singleton r rs) hr
  refine ⟨p', ?_, ?_, hbh⟩
  · rw [BTreePage.insertRaw, hins, Res.ok_bind, hc, hlen]
  · rwa [map_append, hrecs] at hh

/-- Compaction makes no room for a record that is too long by more than the
header of the tree. -/
theorem insertRaw_none (h : Holds p id ty rs)
    (hfull : 8128 < totalLen rs + r.length + 4 * (rs.length + 1)) :
    ∃ p', p.insertRaw r = .ok (none, p') := by
  obtain ⟨recs, rfl, hl⟩ := h.layout
  rw [← recBytes_eq, length_map] at hfull
  obtain ⟨inner, hins⟩ := hl.insert_none hfull
  exact ⟨⟨inner⟩, by rw [BTreePage.insertRaw, hins]; rfl⟩

/-- It does for one that is too long by less: the header is then overwritten,
and the record is stored. -/
theorem insertRaw_ne_none (h : Holds p id ty rs) (hr : r.length ≤ 2048)
    (hroom : totalLen rs + r.length + 4 * (rs.length + 1) ≤ 8128)
    (p' : BTreePage) : p.insertRaw r ≠ .ok (none, p') := by
  obtain ⟨recs, rfl, hl⟩ := h.layout
  rw [← recBytes_eq, length_map] at hroom
  intro hins
  rw [BTreePage.insertRaw] at hins
  cases hinner : p.inner.insert r with
  | error f => rw [hinner] at hins; cases hins
  | ok res =>
    obtain ⟨idx, inner⟩ := res
    rw [hinner, Res.ok_bind] at hins
    cases idx with
    | none => exact hl.insert_ne_none hr hroom inner hinner
    | some idx => cases hins

theorem insertRawAt (h : Holds p id ty rs) {idx : Nat} (hidx : idx ≤ rs.length)
    (hr : r.length ≤ 2048) (hroom : Room rs r.length) :
    ∃ p', p.insertRawAt idx r = .ok (some idx, p') ∧ Holds p' id ty (rs.insertIdx idx r) ∧
      p'.btreeHeader = { p.btreeHeader with keyCount := rs.length + 1 } := by
  obtain ⟨recs, hrecs, hl, hlen, hfit⟩ := h.layout_room hroom
  have hidx' : idx ≤ recs.length := by omega
  obtain ⟨inner, hins, hl', hf⟩ := hl.insertAt hidx' hr hfit
  obtain ⟨p', hc, hh, hbh⟩ := h.counted idx hl' hf (r := r)
    (by rw [map_insertIdx, hrecs]; exact perm_insertIdx r rs hidx) hr
  refine ⟨p', ?_, ?_, hbh⟩
  · rw [BTreePage.insertRawAt, hins, Res.ok_bind, hc]
  · rwa [map_insertIdx, hrecs] at hh

end Holds

/-! ## Deletion -/

/-- Reading a page in which the slot `idx` is marked deleted. -/
theorem records_erase {p : BTreePage} {rs : List Bytes} {idx : Nat}
    (hkey : ∀ j, p.key j = .ok (if j = idx then none else rs[j]?)) :
    ∀ (n : Nat) {i : Nat}, i + n = rs.length →
      p.records i n = .ok (if i ≤ idx then (rs.drop i).eraseIdx (idx - i) else rs.drop i) := by
  intro n
  induction n with
  | zero =>
    intro i hi
    rw [BTreePage.records, drop_eq_nil_of_le (by omega)]
    split <;> rfl
  | succ n ih =>
    intro i hi
    have hlt : i < rs.length := by omega
    rw [BTreePage.records, hkey, ih (by omega), Res.ok_bind, Res.ok_bind,
      List.getElem?_eq_getElem hlt, drop_eq_getElem_cons hlt]
    rcases Nat.lt_trichotomy i idx with h | h | h
    · rw [if_neg (by omega), if_pos (by omega), if_pos (by omega),
        show idx - i = idx - (i + 1) + 1 by omega, eraseIdx_cons_succ]
      rfl
    · subst h
      rw [if_pos rfl, if_neg (by omega), if_pos (Nat.le_refl _), Nat.sub_self]
      rfl
    · rw [if_neg (by omega), if_neg (by omega), if_neg (by omega)]
      rfl

/-- Reinserting packs the records in their order. -/
theorem reinsert_spec : ∀ (rs : List Bytes) {inner : SlottedPage}
    {recs : List (Nat × Bytes)}, Layout inner 32 recs → (∀ r ∈ rs, r.length ≤ 2048) →
    32 + recBytes recs + totalLen rs + 4 * (recs.length + rs.length) ≤ 8128 →
    ∃ inner' recs', BTreePage.reinsert recs.length rs inner = .ok inner' ∧ Layout inner' 32 recs' ∧
      recs'.map Prod.snd = recs.map Prod.snd ++ rs ∧ Frame 32 inner inner' := by
  intro rs
  induction rs with
  | nil =>
    intro inner recs hl _ _
    exact ⟨inner, recs, rfl, hl, by simp, rfl, rfl, rfl, fun _ _ _ => rfl⟩
  | cons r rs ih =>
    intro inner recs hl hshort hfit
    rw [totalLen_cons, length_cons] at hfit
    obtain ⟨inner1, hins, hl1, hf1⟩ := hl.insertAt (Nat.le_refl _)
      (hshort r mem_cons_self) (by omega)
    rw [insertIdx_length_self] at hl1
    obtain ⟨inner2, recs2, hre, hl2, hmap, hf2⟩ := ih hl1
      (fun r hr => hshort r (mem_cons_of_mem _ hr))
      (by rw [recBytes_append, length_append]
          simp only [recBytes_cons, recBytes_nil, length_cons, length_nil]
          omega)
    refine ⟨inner2, recs2, ?_, hl2, ?_, ?_⟩
    · rw [length_append, length_singleton] at hre
      rw [BTreePage.reinsert, hins, Res.ok_bind]
      exact hre
    · rw [hmap]; simp
    · exact ⟨hf2.pageLsn.trans hf1.pageLsn, hf2.pageId.trans hf1.pageId,
        hf2.pageType.trans hf1.pageType,
        fun off n h => (hf2.data off n h).trans (hf1.data off n h)⟩

/-- A rebuilt page has the live records, and the headers it had. -/
theorem compact_spec {p : BTreePage} {id : PageId} {ty : PageType}
    {rs : List Bytes} (hty : ty = .btreeLeaf ∨ ty = .btreeInterior)
    (hrecords : p.records 0 p.slotCount = .ok rs) (hid : p.pageId = id)
    (htype : p.inner.header.pageType = ty) (hcount : p.keyCount = rs.length)
    (hshort : ∀ r ∈ rs, r.length ≤ 2048) (hfit : totalLen rs + 4 * rs.length ≤ 8096) :
    ∃ p', p.compact = .ok p' ∧ Holds p' id ty rs ∧ p'.btreeHeader = p.btreeHeader := by
  have htype' : (if p.isLeaf then PageType.btreeLeaf else .btreeInterior) =
      ty := by
    rw [BTreePage.isLeaf, htype]
    rcases hty with rfl | rfl <;> rfl
  have hv := p.valid_btreeHeader
  have hl : Layout ((BTreePage.blank p.pageId ty p.btreeHeader).setPageLsn
      p.pageLsn).inner 32 [] := by
    have h := layout_blank p.pageId ty hv
    exact ⟨h.size, h.count, h.free, h.fits, h.bytes, h.above, h.below, h.record⟩
  obtain ⟨inner, recs, hre, hl', hmap, hf⟩ := reinsert_spec rs hl hshort
    (by rw [recBytes_nil, length_nil]; omega)
  rw [map_nil, nil_append] at hmap
  rw [length_nil] at hre
  have hbh : BTreePage.btreeHeader ⟨inner⟩ = p.btreeHeader := by
    rw [BTreePage.btreeHeader, hf.data 0 btreeHeaderSize (by decide)]
    exact btreeHeader_blank hv
  refine ⟨⟨inner⟩, ?_, ⟨⟨recs, hmap, hl'⟩, hf.pageId.trans hid, hf.pageType, ?_, hshort⟩, hbh⟩
  · rw [BTreePage.compact, hrecords, Res.ok_bind]
    dsimp only
    rw [htype', hre]
    rfl
  · rw [← hcount, BTreePage.keyCount, BTreePage.keyCount, hbh]

theorem totalLen_eraseIdx_le : ∀ (rs : List Bytes) (idx : Nat),
    totalLen (rs.eraseIdx idx) ≤ totalLen rs := by
  intro rs
  induction rs with
  | nil => intro idx; exact Nat.le_refl _
  | cons r rs ih =>
    intro idx
    cases idx with
    | zero => rw [eraseIdx_cons_zero, totalLen_cons]; omega
    | succ idx =>
      have := ih idx
      rw [eraseIdx_cons_succ, totalLen_cons, totalLen_cons]
      omega

namespace Holds

variable {p : BTreePage} {id : PageId} {ty : PageType} {rs : List Bytes}

/-- The page is rebuilt without the record. -/
theorem delete (h : Holds p id ty rs) (hty : ty = .btreeLeaf ∨ ty = .btreeInterior) {idx : Nat}
    (hidx : idx < rs.length) :
    ∃ p', p.delete idx = .ok (true, p') ∧ Holds p' id ty (rs.eraseIdx idx) ∧
      p'.btreeHeader = { p.btreeHeader with keyCount := rs.length - 1 } := by
  obtain ⟨recs, hrecs, hl⟩ := h.layout
  have hlen : recs.length = rs.length := by rw [← hrecs, length_map]
  have hfits := hl.fits
  have hidx' : idx < recs.length := by omega
  obtain ⟨inner, hdel, hhead, hf, hlive, hread⟩ := hl.delete hidx'
  have hbh : BTreePage.btreeHeader ⟨inner⟩ = p.btreeHeader := by
    rw [BTreePage.btreeHeader, BTreePage.btreeHeader, hf.data 0 btreeHeaderSize (by decide)]
  have hkc : p.btreeHeader.keyCount = rs.length := h.count
  have hv : BTreeHeader.Valid { p.btreeHeader with keyCount := rs.length - 1 } :=
    { p.valid_btreeHeader with
      keyCount := show rs.length - 1 < 2 ^ 16 by omega }
  simp only [BTreePage.delete, hdel, if_true, hbh, hkc]
  generalize hq : BTreePage.writeBtreeHeader ⟨inner⟩
    { p.btreeHeader with keyCount := rs.length - 1 } = q
  have hqbh : q.btreeHeader = { p.btreeHeader with keyCount := rs.length - 1 } := by
    rw [← hq]; exact BTreePage.btreeHeader_writeBtreeHeader hv
  have hqhead : q.inner.header = p.inner.header := by rw [← hq]; exact hhead
  have hkey : ∀ j, q.key j = .ok (if j = idx then none else rs[j]?) := by
    intro j
    have hcongr : q.inner.read j = inner.read j := by
      refine SlottedPage.read_congr 32 ?_ ?_ ?_ hlive j
      · rw [hqhead, hhead]
      · intro off n hle
        rw [← hq]
        exact readAt_writeAt_ne _ (.inr (by rw [BTreeHeader.length_encode hv]; omega))
      · rw [hhead, hl.count]; omega
    rw [BTreePage.key, hcongr, hread, ← hrecs, List.getElem?_map]
  have hrecords : q.records 0 q.slotCount = .ok (rs.eraseIdx idx) := by
    have hcount : q.slotCount = rs.length := by
      rw [BTreePage.slotCount, hqhead, hl.count, hlen]
    rw [hcount, records_erase hkey rs.length (by omega),
      if_pos (Nat.zero_le _), drop_zero, Nat.sub_zero]
  have herase : (rs.eraseIdx idx).length = rs.length - 1 := length_eraseIdx_of_lt hidx
  have htotal := totalLen_eraseIdx_le rs idx
  rw [recBytes_eq, hrecs] at hfits
  obtain ⟨p', hcompact, hh, hbh'⟩ := compact_spec hty hrecords
    (show q.pageId = id by rw [BTreePage.pageId, hqhead]; exact h.id)
    (by rw [hqhead]; exact h.type)
    (by rw [BTreePage.keyCount, hqbh, herase])
    (fun r hr => h.short r (mem_of_mem_eraseIdx hr))
    (by rw [herase]; omega)
  exact ⟨p', by rw [hcompact]; rfl, hh, hbh'.trans hqbh⟩

end Holds

end RGraph.Index
