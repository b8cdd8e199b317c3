import RGraph.Wal.Record

/-!
# What is encoded is decoded

A record whose fields fit their widths and whose checksums are its own is read
back from its encoding, whatever follows. So the decode loop reads back a
concatenation of encodings and stops where they end, provided that what
follows is not a record.
-/

namespace RGraph.Wal

open RGraph.Lib List

namespace WalRecord

/-- The fields fit the widths they are written in. -/
structure Fits (r : WalRecord) : Prop where
  txid : r.txid < 2 ^ 64
  lsn : r.lsn < 2 ^ 64
  prevLsn : r.prevLsn < 2 ^ 64
  timestamp : r.timestamp < 2 ^ 64
  payload : r.payload.length < 2 ^ 32

/-- The checksums are those of the record. -/
structure Sealed (h : WalHash) (r : WalRecord) : Prop where
  header : r.headerCrc = r.computeHeaderCrc h
  payload : r.payloadHash = r.computePayloadHash h

theorem sealed_setLsn (h : WalHash) (r : WalRecord) (lsn : Nat) :
    (r.setLsn h lsn).Sealed h := ⟨rfl, rfl⟩

@[simp] theorem length_header (r : WalRecord) : r.header.length = 42 := by
  simp [header]

@[simp] theorem length_encode (r : WalRecord) : r.encode.length = r.onDiskSize := by
  simp only [encode, length_append, length_header, length_natToBE, onDiskSize, walRecordMinSize]
  omega

theorem onDiskSize_ge (r : WalRecord) : 58 ≤ r.onDiskSize := by
  rw [onDiskSize, walRecordMinSize]; omega

/-! ## The layout, field by field -/

section Layout

variable (r : WalRecord) (rest : Bytes)

theorem encode_append : r.encode ++ rest =
    natToBE 4 walMagicStart ++ ([walVersion] ++ ([r.recordType.toByte] ++
    (natToBE 8 r.txid ++ (natToBE 8 r.lsn ++ (natToBE 8 r.prevLsn ++
    (natToBE 8 r.timestamp ++ (natToBE 4 r.payload.length ++
    (natToBE 4 r.headerCrc.toNat ++ (r.payload ++ (natToBE 8 r.payloadHash.toNat ++
    (natToBE 4 walMagicEnd ++ rest))))))))))) := by
  simp only [encode, header, append_assoc]

@[simp]
theorem readAt_field (w v : Nat) (l : Bytes) : readAt (natToBE w v ++ l) 0 w = natToBE w v :=
  readAt_append_left _ _ (length_natToBE w v)

theorem readAt_cons (b : UInt8) (l : Bytes) (off n : Nat) :
    readAt (b :: l) (off + 1) n = readAt l off n := by
  rw [readAt, readAt, drop_succ_cons]

theorem read_magicStart : readAt (r.encode ++ rest) 0 4 = natToBE 4 walMagicStart := by
  rw [encode_append]
  exact readAt_append_left _ _ (length_natToBE _ _)

theorem read_version : (r.encode ++ rest).getD 4 0 = walVersion := by
  rw [encode_append, getD_append_right _ _ _ _ (by simp)]
  simp

theorem read_type : (r.encode ++ rest).getD 5 0 = r.recordType.toByte := by
  rw [encode_append, getD_append_right _ _ _ _ (by simp)]
  simp

theorem read_txid : readAt (r.encode ++ rest) 6 8 = natToBE 8 r.txid := by
  simp [encode_append, readAt_append_right, readAt_cons]

theorem read_lsn : readAt (r.encode ++ rest) 14 8 = natToBE 8 r.lsn := by
  simp [encode_append, readAt_append_right, readAt_cons]

theorem read_prevLsn : readAt (r.encode ++ rest) 22 8 = natToBE 8 r.prevLsn := by
  simp [encode_append, readAt_append_right, readAt_cons]

theorem read_timestamp : readAt (r.encode ++ rest) 30 8 = natToBE 8 r.timestamp := by
  simp [encode_append, readAt_append_right, readAt_cons]

theorem read_payloadLen : readAt (r.encode ++ rest) 38 4 = natToBE 4 r.payload.length := by
  simp [encode_append, readAt_append_right, readAt_cons]

theorem read_headerCrc : readAt (r.encode ++ rest) 42 4 = natToBE 4 r.headerCrc.toNat := by
  simp [encode_append, readAt_append_right, readAt_cons]

/-- From the payload on, the positions move with its length. -/
theorem read_tail (off n : Nat) : readAt (r.encode ++ rest) (46 + off) n =
      readAt (r.payload ++ (natToBE 8 r.payloadHash.toNat ++
        (natToBE 4 walMagicEnd ++ rest))) off n := by
  rw [encode_append]
  iterate 9 rw [readAt_append_right _ _ (by simp; omega)]
  simp only [length_natToBE, length_singleton]
  rw [show 46 + off - 4 - 1 - 1 - 8 - 8 - 8 - 8 - 4 - 4 = off by omega]

theorem read_payload : readAt (r.encode ++ rest) 46 r.payload.length = r.payload := by
  rw [← Nat.add_zero 46, read_tail]
  exact readAt_append_left _ _ rfl

theorem read_payloadHash : readAt (r.encode ++ rest) (46 + r.payload.length) 8 =
      natToBE 8 r.payloadHash.toNat := by
  rw [read_tail, readAt_append_right _ _ (Nat.le_refl _), Nat.sub_self]
  exact readAt_append_left _ _ (length_natToBE _ _)

theorem read_magicEnd : readAt (r.encode ++ rest) (54 + r.payload.length) 4 =
      natToBE 4 walMagicEnd := by
  rw [show 54 + r.payload.length = 46 + (r.payload.length + 8) by omega,
    read_tail, readAt_append_right _ _ (Nat.le_add_right _ _),
    readAt_append_right _ _ (by simp), Nat.add_sub_cancel_left,
    length_natToBE, Nat.sub_self]
  exact readAt_append_left _ _ (length_natToBE _ _)

end Layout

theorem decode_encode {h : WalHash} {r : WalRecord} (hf : r.Fits)
    (hs : r.Sealed h) (pre rest : Bytes) : decode h (pre ++ (r.encode ++ rest)) pre.length =
      some (r, r.onDiskSize) := by
  have hlen : (r.encode ++ rest).length = r.onDiskSize + rest.length := by
    rw [length_append, length_encode]
  have hsize : r.onDiskSize = 46 + r.payload.length + 12 := by
    rw [onDiskSize, walRecordMinSize]; omega
  have hstart : beToNat (natToBE 4 walMagicStart) = walMagicStart := beToNat_natToBE _ _ (by decide)
  have hend : beToNat (natToBE 4 walMagicEnd) = walMagicEnd := beToNat_natToBE _ _ (by decide)
  have hplen : beToNat (natToBE 4 r.payload.length) = r.payload.length :=
    beToNat_natToBE _ _ hf.payload
  have hcrc : UInt32.ofNat (beToNat (natToBE 4 r.headerCrc.toNat)) = r.headerCrc := by
    rw [beToNat_natToBE 4 _ (UInt32.toNat_lt _), UInt32.ofNat_toNat]
  have hhash : UInt64.ofNat (beToNat (natToBE 8 r.payloadHash.toNat)) = r.payloadHash := by
    rw [beToNat_natToBE 8 _ (UInt64.toNat_lt _), UInt64.ofNat_toNat]
  rw [decode, drop_left]
  simp only [read_magicStart, read_version, read_type, read_txid, read_lsn,
    read_prevLsn, read_timestamp, read_payloadLen, read_headerCrc, hplen,
    read_payload, read_payloadHash, read_magicEnd, hstart, hend,
    beToNat_natToBE 8 _ hf.txid, beToNat_natToBE 8 _ hf.lsn,
    beToNat_natToBE 8 _ hf.prevLsn, beToNat_natToBE 8 _ hf.timestamp,
    RecordType.ofByte?_toByte, hcrc, hhash]
  rw [if_neg (by rw [hlen, walRecordMinSize]; omega), if_neg (by simp),
    if_neg (by simp), if_neg (by omega), if_neg (by simp),
    if_neg (not_not.mpr hs.header.symm), if_neg (not_not.mpr hs.payload.symm),
    hsize]

/-- Nothing that starts with another magic is a record. -/
theorem decode_of_magic {h : WalHash} {pre bs : Bytes}
    (hm : beToNat (readAt bs 0 4) ≠ walMagicStart) : decode h (pre ++ bs) pre.length = none := by
  rw [decode, drop_left]
  dsimp only
  rw [if_pos hm]
  split <;> rfl

/-! ## The decode loop -/

def encodeAll (rs : List WalRecord) : Bytes := rs.flatMap encode

@[simp] theorem encodeAll_nil : encodeAll [] = [] := rfl

@[simp] theorem encodeAll_cons (r : WalRecord) (rs : List WalRecord) :
    encodeAll (r :: rs) = r.encode ++ encodeAll rs := rfl

theorem encodeAll_append (rs qs : List WalRecord) :
    encodeAll (rs ++ qs) = encodeAll rs ++ encodeAll qs :=
  flatMap_append

/-- Records that were written: they fit and carry their own checksums. -/
def Written (h : WalHash) (rs : List WalRecord) : Prop := ∀ r ∈ rs, r.Fits ∧ r.Sealed h

theorem Written.append {h : WalHash} {rs qs : List WalRecord} (hr : Written h rs)
    (hq : Written h qs) : Written h (rs ++ qs) := by
  intro r hm
  rcases mem_append.mp hm with hm | hm
  · exact hr r hm
  · exact hq r hm

/-- The loop reads back what was written, up to a tail that is empty or does
not decode. -/
theorem decodeLoop_encodeAll {h : WalHash} {tail : Bytes} (rs : List WalRecord) (hw : Written h rs)
    (htail : ∀ pre, tail = [] ∨ decode h (pre ++ tail) pre.length = none) :
    ∀ (pre : Bytes) (fuel : Nat), rs.length < fuel →
      decodeLoop h (pre ++ (encodeAll rs ++ tail)) fuel pre.length =
        (rs, pre.length + (encodeAll rs).length) := by
  induction rs with
  | nil =>
    intro pre fuel hfuel
    obtain ⟨fuel, rfl⟩ : ∃ k, fuel = k + 1 := ⟨fuel - 1, by omega⟩
    rw [decodeLoop, encodeAll_nil, nil_append, length_nil, Nat.add_zero]
    split
    · next hlt =>
        rcases htail pre with rfl | hnone
        · simp at hlt
        · rw [hnone]
    · rfl
  | cons r rs ih =>
    intro pre fuel hfuel
    obtain ⟨fuel, rfl⟩ : ∃ k, fuel = k + 1 := ⟨fuel - 1, by omega⟩
    rw [length_cons] at hfuel
    obtain ⟨hf, hs⟩ := hw r mem_cons_self
    have hrest : pre ++ (encodeAll (r :: rs) ++ tail) =
        (pre ++ r.encode) ++ (encodeAll rs ++ tail) := by
      simp
    have hpos := r.onDiskSize_ge
    rw [decodeLoop, if_pos (by simp; omega), encodeAll_cons, append_assoc, decode_encode hf hs]
    dsimp only
    have hih := ih (fun q hq => hw q (mem_cons_of_mem _ hq)) (pre ++ r.encode) fuel (by omega)
    rw [length_append, length_encode, append_assoc] at hih
    rw [hih]
    simp only [length_append, length_encode]
    rw [Nat.add_assoc]

theorem length_le_encodeAll (rs : List WalRecord) : 58 * rs.length ≤ (encodeAll rs).length := by
  induction rs with
  | nil => simp
  | cons r rs ih =>
    have := r.onDiskSize_ge
    rw [encodeAll_cons, length_append, length_encode, length_cons]
    omega

theorem decode_segment {h : WalHash} {tail : Bytes} {rs : List WalRecord} (hw : Written h rs)
    (htail : ∀ pre, tail = [] ∨ decode h (pre ++ tail) pre.length = none) :
    loadSingleSegment h (encodeAll rs ++ tail) = rs ∧
      lastValidOffset h (encodeAll rs ++ tail) = (encodeAll rs).length := by
  have hlen := length_le_encodeAll rs
  rw [loadSingleSegment, lastValidOffset]
  rcases Nat.eq_zero_or_pos (encodeAll rs ++ tail).length with h0 | hpos
  · have hrs : rs = [] := by
      rw [length_append] at h0
      exact length_eq_zero_iff.mp (by omega)
    subst hrs
    rw [h0, decodeLoop]
    exact ⟨rfl, rfl⟩
  · have hfuel : rs.length < (encodeAll rs ++ tail).length := by
      rw [length_append] at hpos ⊢
      omega
    have := decodeLoop_encodeAll rs hw htail [] _ hfuel
    rw [nil_append, length_nil] at this
    rw [this]
    exact ⟨rfl, Nat.zero_add _⟩

/-! ## What is accepted was written -/

/-- What decodes as a record is the encoding of that record. -/
theorem encode_of_decode {h : WalHash} {buf : Bytes} {offset size : Nat}
    {r : WalRecord} (hd : decode h buf offset = some (r, size)) :
    (r.Fits ∧ r.Sealed h) ∧ size = r.onDiskSize ∧ offset + size ≤ buf.length ∧
      readAt buf offset size = r.encode := by
  simp only [decode, Option.ite_none_left_eq_some] at hd
  obtain ⟨-, hstart, hver, hd⟩ := hd
  split at hd
  · cases hd
  next t ht =>
  simp only [Option.ite_none_left_eq_some, Option.some.injEq,
    Prod.mk.injEq, not_not] at hd hstart hver
  obtain ⟨hlen, hend, hcrc, hhash, rfl, rfl⟩ := hd
  have hlt : ∀ off w, beToNat (readAt (buf.drop offset) off w) < 256 ^ w :=
    fun off w => by simpa using beToNat_lt (readAt (buf.drop offset) off w)
  refine ⟨⟨⟨hlt 6 8, hlt 14 8, hlt 22 8, hlt 30 8, ?_⟩, hcrc.symm, hhash.symm⟩, ?_, ?_, ?_⟩
  · rw [length_readAt]
    exact hlt 38 4
  · rw [onDiskSize, length_readAt, walRecordMinSize]
    omega
  · rw [length_drop] at hlen
    omega
  · -- the fields, read one after the other
    change readAt (buf.drop offset) 0 _ = _
    rw [Nat.add_assoc, show 46 = 4 + (1 + (1 + (8 + (8 + (8 + (8 + (4 + 4)))))))
      from rfl, show 12 = 8 + 4 from rfl]
    simp only [readAt_add, readAt_one, append_assoc]
    simp only [encode, header, append_assoc, Nat.zero_add, Nat.reduceAdd, hver,
      RecordType.toByte_of_ofByte? ht, ← hstart, ← hend, length_readAt,
      UInt32.toNat_ofNat_of_lt' (hlt 42 4), UInt64.toNat_ofNat_of_lt' (hlt _ 8),
      natToBE_readAt]
    rw [Nat.add_right_comm 46]

/-- The bytes from `offset` to `last` are those of `rs`, and no record follows. -/
structure Holds (h : WalHash) (raw : Bytes) (offset last : Nat)
    (rs : List WalRecord) : Prop where
  written : Written h rs
  last_le : last ≤ raw.length
  last_eq : last = offset + (encodeAll rs).length
  bytes : readAt raw offset (encodeAll rs).length = encodeAll rs
  stops : raw.length ≤ last ∨ decode h raw last = none

theorem holds_nil {h : WalHash} {raw : Bytes} {offset : Nat} (hle : offset ≤ raw.length)
    (hstop : raw.length ≤ offset ∨ decode h raw offset = none) : Holds h raw offset offset [] :=
  ⟨by simp [Written], hle, rfl, by simp [readAt, setLen], hstop⟩

theorem holds_decodeLoop {h : WalHash} {raw : Bytes} (fuel : Nat) :
    ∀ {offset}, offset ≤ raw.length → raw.length ≤ offset + fuel →
      Holds h raw offset (decodeLoop h raw fuel offset).2 (decodeLoop h raw fuel offset).1 := by
  induction fuel with
  | zero => exact fun hle hge => holds_nil hle (.inl hge)
  | succ fuel ih =>
    intro offset hle hge
    rw [decodeLoop]
    split
    · cases hd : decode h raw offset with
      | none => exact holds_nil hle (.inr hd)
      | some x =>
        obtain ⟨hr, hsize, hend, hbytes⟩ := encode_of_decode hd
        have hpos := x.1.onDiskSize_ge
        obtain ⟨hw, hlast, heq, hrest, hstop⟩ := ih hend (by omega)
        refine ⟨forall_mem_cons.mpr ⟨hr, hw⟩, hlast, ?_, ?_, hstop⟩ <;>
          rw [encodeAll_cons, length_append, length_encode, ← hsize]
        · rw [heq, Nat.add_assoc]
        · rw [readAt_add, hbytes, hrest]
    · next hlt => exact holds_nil hle (.inl (Nat.not_lt.mp hlt))

/-- From a segment with any content, what is loaded is what the segment holds,
up to the last valid offset. -/
theorem holds_loadSingleSegment (h : WalHash) (raw : Bytes) :
    Holds h raw 0 (lastValidOffset h raw) (loadSingleSegment h raw) :=
  holds_decodeLoop raw.length (Nat.zero_le _) (Nat.le_add_left _ _)

/-- What is read after bytes were appended: the same, if the scan still stops
where it did, and what was appended as well, if nothing was torn. -/
theorem loadSingleSegment_append {h : WalHash} {f bs : Bytes}
    (hstop : lastValidOffset h f < f.length → decode h (f ++ bs) (lastValidOffset h f) = none) :
    loadSingleSegment h (f ++ bs) = loadSingleSegment h f ∨
      loadSingleSegment h (f ++ bs) = loadSingleSegment h f ++ loadSingleSegment h bs := by
  have hsplit (raw : Bytes) : raw = encodeAll (loadSingleSegment h raw) ++
      raw.drop (lastValidOffset h raw) := by
    obtain ⟨-, hle, heq, hbytes, -⟩ := holds_loadSingleSegment h raw
    rw [Nat.zero_add] at heq
    rw [readAt, drop_zero, setLen, ← heq, Nat.sub_eq_zero_of_le hle, replicate_zero,
      append_nil] at hbytes
    rw [← hbytes, take_append_drop]
  have hat (buf : Bytes) (off : Nat) (pre : Bytes) (hd : decode h buf off = none) :
      decode h (pre ++ buf.drop off) pre.length = none := by
    rw [decode] at hd ⊢
    rwa [drop_left]
  obtain ⟨hw, hle, heq, -, -⟩ := holds_loadSingleSegment h f
  obtain ⟨hw', -, -, -, hstop'⟩ := holds_loadSingleSegment h bs
  by_cases hlt : lastValidOffset h f < f.length
  · left
    have hfile : f ++ bs = encodeAll (loadSingleSegment h f) ++
        (f ++ bs).drop (lastValidOffset h f) := by
      rw [drop_append_of_le_length hle, ← append_assoc, ← hsplit]
    rw [hfile]
    exact (decode_segment hw fun pre => .inr (hat _ _ pre (hstop hlt))).1
  · right
    have hwhole : f = encodeAll (loadSingleSegment h f) := by
      have := hsplit f
      rwa [drop_of_length_le (Nat.not_lt.mp hlt), append_nil] at this
    have hfile : f ++ bs = encodeAll (loadSingleSegment h f ++ loadSingleSegment h bs) ++
        bs.drop (lastValidOffset h bs) := by
      rw [encodeAll_append, append_assoc, ← hsplit, ← hwhole]
    rw [hfile]
    refine (decode_segment (hw.append hw') fun pre => ?_).1
    rcases hstop' with hend | hnone
    · exact .inl (drop_of_length_le hend)
    · exact .inr (hat _ _ pre hnone)

end WalRecord

end RGraph.Wal
