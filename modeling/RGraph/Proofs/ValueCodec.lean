import RGraph.Index.ValueCodec
import RGraph.Lib.ByteOrder

/-!
# The order of encoded values

An encoded value is its rank and a body. The bodies of numbers have one width,
so they sort as numbers; the bodies of strings, lists and maps are escaped and
end in a bare zero byte. The escape of a byte starts with that byte, which
keeps the order, but the escape of a zero byte starts with the terminator: a
terminated value is told apart from what follows it just when that does not
start with `0xFF`, the second byte of the escape. Order, reading back and
being the start of another encoding are each settled for a value in front of
any bytes, and the results on keys are cases of those.
-/

namespace RGraph.Index

open RGraph.Lib RGraph.Graph List

/-! ## Escaped bytes -/

theorem escapeByte_eq (b : UInt8) : escapeByte b = b :: (escapeByte b).tail := by
  unfold escapeByte
  split
  · next h => rw [h]; rfl
  · split
    · next h => rw [h]; rfl
    · rfl

/-- What follows a value does not start with the second byte of an escape. -/
def Apart (s : Bytes) : Prop := s.head? ≠ some 0xFF

variable {s : Bytes}

theorem compare_apart (hs : Apart s) (r : Bytes) : compare s (0xFF :: r) = .lt := by
  cases s with
  | nil => rfl
  | cons x s =>
    have hx : x ≠ 0xFF := fun h => hs (congrArg some h)
    have hlt : x.toNat < UInt8.toNat 0xFF := by
      show x.toNat < 255
      have hle := x.toNat_lt
      have hne : x.toNat ≠ 255 := fun h => hx (UInt8.toNat_inj.mp h)
      omega
    rw [List.compare_cons_cons, compare_toNat, Nat.compare_eq_lt.mpr hlt]
    rfl

theorem compare_zero_escape (hs : Apart s) (b : UInt8) (r : Bytes) :
    compare (0x00 :: s) (escapeByte b ++ r) = .lt := by
  by_cases hb : b = 0x00
  · rw [hb]
    show compare (0x00 :: s) (0x00 :: 0xFF :: r) = .lt
    rw [List.compare_cons_cons, Std.compare_self, compare_apart hs]
    rfl
  · have hlt : (0x00 : UInt8).toNat < b.toNat :=
      Nat.pos_of_ne_zero fun h => hb (UInt8.toNat_inj.mp h)
    rw [escapeByte_eq, cons_append, List.compare_cons_cons, compare_toNat,
      Nat.compare_eq_lt.mpr hlt]
    rfl

variable {t : Bytes}

/-- Terminated strings compare as the strings do, and then as what follows. -/
theorem compare_escaped (hs : Apart s) (ht : Apart t) (a b : Bytes) :
    compare (a.flatMap escapeByte ++ 0x00 :: s) (b.flatMap escapeByte ++ 0x00 :: t) =
      (compare a b).then (compare s t) := by
  induction a generalizing b with
  | nil =>
    cases b with
    | nil =>
      show compare (0x00 :: s) (0x00 :: t) = compare s t
      rw [List.compare_cons_cons, Std.compare_self]
      rfl
    | cons y b =>
      rw [flatMap_nil, nil_append, flatMap_cons, append_assoc, compare_zero_escape hs]
      rfl
  | cons x a ih =>
    cases b with
    | nil =>
      rw [flatMap_nil, nil_append, flatMap_cons, append_assoc, Std.OrientedCmp.gt_iff_lt.mpr
          (compare_zero_escape ht x _)]
      rfl
    | cons y b =>
      rw [flatMap_cons, flatMap_cons, append_assoc, append_assoc, List.compare_cons_cons]
      by_cases hxy : x = y
      · rw [hxy, compare_append rfl, ih, Std.compare_self, Std.compare_self]
        rfl
      · have hne : compare x y ≠ .eq := fun h =>
          hxy (Std.LawfulEqCmp.eq_of_compare h)
        rw [escapeByte_eq x, escapeByte_eq y, cons_append, cons_append, List.compare_cons_cons]
        cases hc : compare x y with
        | lt => rfl
        | eq => exact absurd hc hne
        | gt => rfl

theorem escaped_startsWith (a b : Bytes) :
    a.flatMap escapeByte ++ [0x00] <+: b.flatMap escapeByte ++ [0x00] ↔
      a = b ∨ a ++ [0x00] <+: b := by
  induction a generalizing b with
  | nil =>
    cases b with
    | nil => simp
    | cons y b =>
      rw [flatMap_cons, escapeByte_eq]
      simp [cons_prefix_cons]
  | cons x a ih =>
    cases b with
    | nil =>
      rw [flatMap_cons]
      by_cases hx : x = 0x00
      · rw [hx]
        simp [escapeByte, cons_prefix_cons]
      · rw [escapeByte_eq]
        simp [cons_prefix_cons, hx]
    | cons y b =>
      by_cases hxy : x = y
      · rw [hxy, flatMap_cons, flatMap_cons, append_assoc,
          append_assoc, prefix_append_right_inj, ih]
        simp [cons_prefix_cons]
      · rw [flatMap_cons, flatMap_cons, escapeByte_eq x, escapeByte_eq y]
        simp [cons_prefix_cons, hxy]

theorem decodeTerminated_escapeByte (x : UInt8) (t : Bytes) :
    decodeTerminated (escapeByte x ++ t) = (decodeTerminated t).map fun r =>
        (x :: r.1, (escapeByte x).length + r.2) := by
  by_cases h0 : x = 0x00
  · rw [h0]
    rfl
  · by_cases h1 : x = 0xFF
    · rw [h1]
      rfl
    · rw [escapeByte, if_neg h0, if_neg h1]
      cases t with
      | nil => simp [decodeTerminated, h0]
      | cons c t => simp [decodeTerminated, h0, h1]

/-- The bytes of a string are read back in front of whatever follows. -/
theorem decodeTerminated_escaped (a t : Bytes) :
    decodeTerminated (a.flatMap escapeByte ++ t) = (decodeTerminated t).map fun r =>
        (a ++ r.1, (a.flatMap escapeByte).length + r.2) := by
  induction a with
  | nil => simp
  | cons x a ih =>
    rw [flatMap_cons, append_assoc, decodeTerminated_escapeByte, ih, Option.map_map]
    refine congrFun (congrArg Option.map (funext fun r => ?_)) _
    rw [length_append, Nat.add_assoc]
    rfl

theorem decodeTerminated_end (ht : Apart t) : decodeTerminated (0x00 :: t) = some ([], 1) := by
  cases t with
  | nil => rfl
  | cons c t =>
    have hc : c ≠ 0xFF := fun h => ht (congrArg some h)
    simp [decodeTerminated, hc]

/-- Before `0xFF` the terminator is taken for an escaped zero. -/
theorem decodeTerminated_taken (a t : Bytes) (n : Nat) :
    decodeTerminated (a.flatMap escapeByte ++ 0x00 :: 0xFF :: t) ≠ some (a, n) := by
  rw [decodeTerminated_escaped]
  show ((decodeTerminated t).map _).map _ ≠ _
  cases decodeTerminated t with
  | none => simp
  | some r =>
    intro h
    have hlen := congrArg (fun r => r.1.length) (Option.some.inj h)
    simp at hlen

theorem encodeTerminated_eq {bytes : Bytes} (h : (encodeTerminated bytes).length < 0xFFFF) :
    encodeTerminated bytes = bytes.flatMap escapeByte ++ [0x00] := by
  have hle : ∀ bs : Bytes, bs.length ≤ (bs.flatMap escapeByte).length := by
    intro bs
    induction bs with
    | nil => exact Nat.le_refl 0
    | cons b bs ih =>
      rw [flatMap_cons, escapeByte_eq]
      simp only [length_cons, length_append]
      omega
  have htake := hle (bytes.take 0xFFFF)
  rw [encodeTerminated, length_append] at h
  rw [length_take] at htake
  rw [encodeTerminated, take_of_length_le (by omega)]

/-! ## Values -/

theorem toNat_xor_signBit (n : UInt64) :
    (n ^^^ signBit).toNat = if n.toNat < 2 ^ 63 then n.toNat + 2 ^ 63 else n.toNat - 2 ^ 63 := by
  have hx : (n ^^^ signBit).toNat = n.toNat ^^^ 2 ^ 63 := rfl
  have hlt := n.toNat_lt
  rw [hx, Nat.xor_comm]
  split
  · next h =>
      rw [two_pow_xor (by omega)]
      omega
  · next h =>
      have hr : n.toNat = 2 ^ 63 ^^^ (n.toNat - 2 ^ 63) := by
        rw [two_pow_xor (by omega)]
        omega
      rw [hr, ← Nat.xor_assoc, Nat.xor_self, Nat.zero_xor, ← hr]

theorem toNat_orderI64 (v : Int64) : ((orderI64 v).toNat : Int) = v.toInt + 2 ^ 63 := by
  have hlt := v.toUInt64.toNat_lt
  have hv : v.toInt = if 2 * v.toUInt64.toNat < 2 ^ 64
      then (v.toUInt64.toNat : Int) else v.toUInt64.toNat - 2 ^ 64 := by
    exact BitVec.toInt_eq_toNat_cond _
  rw [orderI64, toNat_xor_signBit, hv]
  split <;> split <;> omega

theorem and_signBit (n : UInt64) : (n &&& signBit != 0) = true ↔ 2 ^ 63 ≤ n.toNat := by
  have hlt := n.toNat_lt
  have hand : (n &&& signBit).toNat = (n.toNat / 2 ^ 63 % 2) * 2 ^ 63 := by
    show n.toNat &&& 2 ^ 63 = _
    rw [Nat.and_two_pow, Nat.toNat_testBit]
  rw [bne_iff_ne, ne_eq, ← UInt64.toNat_inj, hand]
  show ¬ _ = 0 ↔ _
  omega

theorem toNat_not (n : UInt64) : (~~~n).toNat = 2 ^ 64 - 1 - n.toNat := UInt64.toNat_not n

/-- The ordered form of a float is its sort key, as an unsigned number. -/
theorem toNat_orderF64Bits (bits : UInt64) :
    ((orderF64Bits bits).toNat : Int) = Binary64.sortKey bits.toNat + 2 ^ 63 := by
  have hlt := bits.toNat_lt
  rw [orderF64Bits, Binary64.sortKey_eq]
  by_cases h : 2 ^ 63 ≤ bits.toNat
  · rw [if_pos ((and_signBit _).mpr h), if_pos h, toNat_not]
    omega
  · rw [if_neg (mt (and_signBit _).mp h), if_neg h, toNat_xor_signBit, if_pos (Nat.not_le.mp h)]
    omega

theorem orderF64Bits_unorder (bits : UInt64) : orderF64Bits (unorderF64Bits bits) = bits := by
  have hlt := bits.toNat_lt
  rw [unorderF64Bits]
  by_cases h : 2 ^ 63 ≤ bits.toNat
  · have hpos : ¬ 2 ^ 63 ≤ (bits ^^^ signBit).toNat := by
      rw [toNat_xor_signBit, if_neg (Nat.not_lt.mpr h)]
      omega
    rw [if_pos ((and_signBit _).mpr h), orderF64Bits, if_neg (mt (and_signBit _).mp hpos),
      UInt64.xor_assoc, UInt64.xor_self, UInt64.xor_zero]
  · have hneg : 2 ^ 63 ≤ (~~~bits).toNat := by
      rw [toNat_not]
      omega
    rw [if_neg (mt (and_signBit _).mp h), orderF64Bits, if_pos ((and_signBit _).mpr hneg),
      UInt64.not_not]

theorem rank_lt (v : Value) : v.rank < 256 := by
  cases v <;> simp [Value.rank]

theorem encodeBytes_cons (v : Value) :
    encodeBytes v = UInt8.ofNat v.rank :: (encodeBytes v).tail := by
  cases v <;> rfl

theorem compare_rank (v w : Value) : compare (UInt8.ofNat v.rank) (UInt8.ofNat w.rank) =
      compare v.rank w.rank := by
  rw [compare_toNat, UInt8.toNat_ofNat', UInt8.toNat_ofNat',
    Nat.mod_eq_of_lt (rank_lt v), Nat.mod_eq_of_lt (rank_lt w)]

theorem compare_shifted {m n : Nat} {x y : Int} (hm : (m : Int) = x + 2 ^ 63)
    (hn : (n : Int) = y + 2 ^ 63) : compare m n = compare x y := by
  rcases Int.lt_trichotomy x y with h | h | h
  · rw [Std.compare_eq_lt.mpr h, Nat.compare_eq_lt.mpr (by omega)]
  · rw [h, Std.compare_self, Nat.compare_eq_eq.mpr (by omega)]
  · rw [Std.compare_eq_gt.mpr h, Nat.compare_eq_gt.mpr (by omega)]

variable {v : Value}

theorem length_tail {n : Nat} (h : (encodeBytes v).length ≤ n) :
    (encodeBytes v).tail.length < n := by
  rw [encodeBytes_cons] at h
  exact h

variable {w : Value}

theorem compare_body (hv : (encodeBytes v).length ≤ maxEncodedLen)
    (hw : (encodeBytes w).length ≤ maxEncodedLen) (hs : v.terminated → Apart s)
    (ht : w.terminated → Apart t) (hr : v.rank = w.rank) :
    compare ((encodeBytes v).tail ++ s) ((encodeBytes w).tail ++ t) =
      (v.compareSame w).then (compare s t) := by
  have hbig : maxEncodedLen < 0xFFFF := by decide
  have hterm (a b : Bytes) (ha : (encodeTerminated a).length < maxEncodedLen)
      (hb : (encodeTerminated b).length < maxEncodedLen) (hs : Apart s)
      (ht : Apart t) : compare (encodeTerminated a ++ s)
        (encodeTerminated b ++ t) = (compare a b).then (compare s t) := by
    rw [encodeTerminated_eq (by omega), encodeTerminated_eq (by omega),
      append_assoc, append_assoc]
    exact compare_escaped hs ht a b
  have hword (a b : UInt64) : compare (natToBE 8 a.toNat ++ s) (natToBE 8 b.toNat ++ t) =
        (compare a.toNat b.toNat).then (compare s t) := by
    rw [compare_append (by simp), compare_natToBE a.toNat_lt b.toNat_lt]
  cases v <;> cases w <;> first | (simp [Value.rank] at hr; done) | skip
  case null.null => rfl
  case bool.bool a b => cases a <;> cases b <;> rfl
  case int64.int64 a b =>
    rw [Value.compareSame, ← compare_shifted (toNat_orderI64 a) (toNat_orderI64 b)]
    exact hword _ _
  case float64.float64 a b => exact hword a b
  case string.string a b => exact hterm a b (length_tail hv) (length_tail hw) (hs rfl) (ht rfl)
  case list.list a b => exact hterm a b (length_tail hv) (length_tail hw) (hs rfl) (ht rfl)
  case map.map a b => exact hterm a b (length_tail hv) (length_tail hw) (hs rfl) (ht rfl)

theorem compare_encodeBytes (hv : (encodeBytes v).length ≤ maxEncodedLen)
    (hw : (encodeBytes w).length ≤ maxEncodedLen) (hs : v.terminated → Apart s)
    (ht : w.terminated → Apart t) : compare (encodeBytes v ++ s) (encodeBytes w ++ t) =
      (v.cmp w).then (compare s t) := by
  rw [encodeBytes_cons v, encodeBytes_cons w, cons_append,
    cons_append, List.compare_cons_cons, compare_rank, Value.cmp,
    Ordering.then_assoc]
  by_cases hr : v.rank = w.rank
  · rw [compare_body hv hw hs ht hr]
  · cases hc : compare v.rank w.rank with
    | lt => rfl
    | eq => exact absurd (Nat.compare_eq_eq.mp hc) hr
    | gt => rfl


section Decode

variable {s : Bytes}

theorem decodeTerminated_encode {a : Bytes} (ha : (encodeTerminated a).length < maxEncodedLen) :
    decodeTerminated (encodeTerminated a ++ s) =
      some (a, (encodeTerminated a).length) ↔ Apart s := by
  have hbig : maxEncodedLen < 0xFFFF := by decide
  rw [encodeTerminated_eq (by omega), append_assoc]
  constructor
  · intro h hs
    obtain ⟨t, rfl⟩ : ∃ t, s = 0xFF :: t := by
      cases s with
      | nil => cases hs
      | cons c t => exact ⟨t, by rw [Option.some.inj hs]⟩
    exact decodeTerminated_taken a t _ h
  · intro hs
    rw [decodeTerminated_escaped, singleton_append, decodeTerminated_end hs]
    simp

theorem decode_word (a : UInt64) :
    UInt64.ofNat (beToNat ((natToBE 8 a.toNat ++ s).take 8)) = a := by
  rw [take_left' (by simp), beToNat_natToBE 8 _ a.toNat_lt, UInt64.ofNat_toNat]

theorem decode_terminated_as {f : Bytes → Value} (hf : ∀ a b, f a = f b → a = b) {a : Bytes}
    (ha : (encodeTerminated a).length < maxEncodedLen) :
    ((decodeTerminated (encodeTerminated a ++ s)).map fun r =>
        (f r.1, 1 + r.2)) = some (f a, (encodeTerminated a).length + 1) ↔
      Apart s := by
  rw [← decodeTerminated_encode ha, Option.map_eq_some_iff]
  constructor
  · rintro ⟨⟨b, n⟩, hb, heq⟩
    obtain ⟨hfb, hn⟩ := Prod.mk.inj heq
    dsimp only at hfb hn
    rw [hb, hf _ _ hfb, show n = (encodeTerminated a).length by omega]
  · exact fun h => ⟨_, h, by rw [Nat.add_comm]⟩

/-- A value is read back unless the terminator is followed by `0xFF`. -/
theorem decodeValue_encode {v : Value} (hv : (encodeBytes v).length ≤ maxEncodedLen) :
    decodeValue (encodeBytes v ++ s) = some (v, (encodeBytes v).length) ↔
      (v.terminated → Apart s) := by
  have hone {p : Prop} : p ↔ (true = true → p) := ⟨fun h _ => h, fun h => h rfl⟩
  cases v with
  | null => exact iff_of_true rfl nofun
  | bool b => cases b <;> exact iff_of_true rfl nofun
  | int64 v =>
    refine iff_of_true ?_ nofun
    show (if (natToBE 8 (orderI64 v).toNat ++ s).length < 8 then none
      else some (Value.int64 (unorderI64 (UInt64.ofNat (beToNat
        ((natToBE 8 (orderI64 v).toNat ++ s).take 8)))), 9)) = _
    rw [if_neg (by simp), decode_word, unorderI64, orderI64, UInt64.xor_assoc,
      UInt64.xor_self, UInt64.xor_zero]
    rfl
  | float64 ordered =>
    refine iff_of_true ?_ nofun
    show (if (natToBE 8 ordered.toNat ++ s).length < 8 then none
      else some (Value.float64 (UInt64.ofNat (beToNat
        ((natToBE 8 ordered.toNat ++ s).take 8))), 9)) = _
    rw [if_neg (by simp), decode_word]
    rfl
  | string a =>
    exact (decode_terminated_as (fun _ _ => Value.string.inj) (length_tail hv)).trans hone
  | list a =>
    exact (decode_terminated_as (fun _ _ => Value.list.inj) (length_tail hv)).trans hone
  | map a =>
    exact (decode_terminated_as (fun _ _ => Value.map.inj) (length_tail hv)).trans hone

end Decode

theorem encodeValue_eq_some {a : Bytes} : encodeValue v = some a ↔
      (encodeBytes v).length ≤ maxEncodedLen ∧ encodeBytes v = a := by
  rw [encodeValue]
  split
  · next h => exact iff_of_false nofun fun hn => absurd hn.1 (by omega)
  · next h =>
      exact ⟨fun he => ⟨by omega, Option.some.inj he⟩, fun he => congrArg some he.2⟩

/-- Two floats that the codec sorts as documented: equal ones, and two that are
not both NaN, neither of them a NaN with its sign bit set. -/
def Value.FloatsSorted : Value → Value → Prop
  | .float64 a, .float64 b => a = b ∨
    ¬ (Binary64.isNan (unorderF64Bits a).toNat ∧ Binary64.isNan (unorderF64Bits b).toNat) ∧
    ¬ (Binary64.isNan (unorderF64Bits a).toNat ∧ Binary64.negative (unorderF64Bits a).toNat) ∧
    ¬ (Binary64.isNan (unorderF64Bits b).toNat ∧ Binary64.negative (unorderF64Bits b).toNat)
  | _, _ => True

theorem cmp_eq_documentedCmp : v.cmp w = v.documentedCmp w ↔ v.FloatsSorted w := by
  cases v <;> cases w
  case float64.float64 a b =>
    have ha := toNat_orderF64Bits (unorderF64Bits a)
    have hb := toNat_orderF64Bits (unorderF64Bits b)
    have hinj : (unorderF64Bits a).toNat = (unorderF64Bits b).toNat ↔ a = b := by
      rw [UInt64.toNat_inj]
      exact ⟨fun h => by rw [← orderF64Bits_unorder a, h, orderF64Bits_unorder],
        congrArg unorderF64Bits⟩
    rw [orderF64Bits_unorder] at ha hb
    show compare a.toNat b.toNat = Binary64.cmp _ _ ↔ _
    rw [compare_shifted ha hb,
      Binary64.compare_sortKey_iff (unorderF64Bits a).toNat_lt (unorderF64Bits b).toNat_lt, hinj]
    exact Iff.rfl
  all_goals exact iff_of_true rfl trivial

/-- The bytes of the second value are those of the first, a zero and more. -/
def Value.ZeroExtended : Value → Value → Prop
  | .string a, .string b => a ++ [0x00] <+: b
  | .list a, .list b => a ++ [0x00] <+: b
  | .map a, .map b => a ++ [0x00] <+: b
  | _, _ => False

theorem Value.ZeroExtended.rank_eq (h : v.ZeroExtended w) : v.rank = w.rank := by
  cases v <;> cases w <;> first | exact h.elim | rfl

theorem Value.ZeroExtended.irrefl : ¬ v.ZeroExtended v := by
  cases v <;> first | exact id | exact fun h => absurd h.length_le (by simp)

theorem orderI64_inj {a b : Int64} : orderI64 a = orderI64 b ↔ a = b := by
  constructor
  · intro h
    have ha := toNat_orderI64 a
    have hb := toNat_orderI64 b
    rw [h] at ha
    exact Int64.toInt_inj.mp (by omega)
  · exact congrArg orderI64

theorem natToBE_startsWith {a b : UInt64} : natToBE 8 a.toNat <+: natToBE 8 b.toNat ↔ a = b := by
  constructor
  · intro h
    have heq := h.eq_of_length (by simp)
    have hnat := congrArg beToNat heq
    rw [beToNat_natToBE 8 _ a.toNat_lt, beToNat_natToBE 8 _ b.toNat_lt] at hnat
    exact UInt64.toNat_inj.mp hnat
  · rintro rfl
    exact prefix_rfl

theorem encodeBytes_startsWith (hv : (encodeBytes v).length ≤ maxEncodedLen)
    (hw : (encodeBytes w).length ≤ maxEncodedLen) :
    encodeBytes v <+: encodeBytes w ↔ v = w ∨ v.ZeroExtended w := by
  have hbig : maxEncodedLen < 0xFFFF := by decide
  have hterm {a b : Bytes} (ha : (encodeTerminated a).length < maxEncodedLen)
      (hb : (encodeTerminated b).length < maxEncodedLen) :
      encodeTerminated a <+: encodeTerminated b ↔ a = b ∨ a ++ [0x00] <+: b := by
    rw [encodeTerminated_eq (by omega), encodeTerminated_eq (by omega)]
    exact escaped_startsWith a b
  by_cases hr : v.rank = w.rank
  · rw [encodeBytes_cons v, encodeBytes_cons w, hr, prefix_cons_inj]
    cases v <;> cases w <;> first | (simp [Value.rank] at hr; done) | skip
    case null.null => exact iff_of_true prefix_rfl (.inl rfl)
    case bool.bool a b =>
      cases a <;> cases b <;> simp [encodeBytes, Value.ZeroExtended]
    case int64.int64 a b =>
      rw [Value.int64.injEq, ← orderI64_inj, ← natToBE_startsWith]
      exact (or_false _).symm.to_iff
    case float64.float64 a b =>
      rw [Value.float64.injEq, ← natToBE_startsWith]
      exact (or_false _).symm.to_iff
    case string.string a b =>
      rw [Value.string.injEq]
      exact hterm (length_tail hv) (length_tail hw)
    case list.list a b =>
      rw [Value.list.injEq]
      exact hterm (length_tail hv) (length_tail hw)
    case map.map a b =>
      rw [Value.map.injEq]
      exact hterm (length_tail hv) (length_tail hw)
  · refine iff_of_false (fun h => hr ?_) fun h => hr ?_
    · rw [encodeBytes_cons v, encodeBytes_cons w, cons_prefix_cons] at h
      have heq : compare v.rank w.rank = .eq := by
        rw [← compare_rank, h.1, Std.compare_self]
      exact Nat.compare_eq_eq.mp heq
    · rcases h with rfl | h
      · rfl
      · exact Value.ZeroExtended.rank_eq h

/-- The codec orders two values as documented, and tells them apart in front of
more bytes, when neither is the other one cut off before a zero byte, and
floats are no odd NaNs. -/
theorem encodeValue_ordered {v w : Value} {a b : Bytes}
    (ha : encodeValue v = some a) (hb : encodeValue w = some b) :
    (compare a b = v.documentedCmp w ∧ (a <+: b → a = b) ∧ (b <+: a → b = a) ∧
        (a = b → v = w)) ↔
      ¬ v.ZeroExtended w ∧ ¬ w.ZeroExtended v ∧ v.FloatsSorted w := by
  obtain ⟨hv, rfl⟩ := encodeValue_eq_some.mp ha
  obtain ⟨hw, rfl⟩ := encodeValue_eq_some.mp hb
  have hinj {v w : Value} (hv : (encodeBytes v).length ≤ maxEncodedLen)
      (hw : (encodeBytes w).length ≤ maxEncodedLen)
      (h : encodeBytes v = encodeBytes w) : v = w := by
    have hdv := (decodeValue_encode (s := []) hv).mpr fun _ => nofun
    have hdw := (decodeValue_encode (s := []) hw).mpr fun _ => nofun
    rw [h, hdw] at hdv
    exact (Prod.mk.inj (Option.some.inj hdv)).1.symm
  have hself {v w : Value} (h : v.ZeroExtended w) : v ≠ w := by
    rintro rfl
    exact Value.ZeroExtended.irrefl h
  have hcmp : compare (encodeBytes v) (encodeBytes w) = v.cmp w := by
    have h := compare_encodeBytes (s := []) (t := []) hv hw (fun _ => nofun) fun _ => nofun
    simpa using h
  rw [hcmp, cmp_eq_documentedCmp]
  constructor
  · rintro ⟨hfloats, hvw, hwv, -⟩
    exact ⟨fun h => hself h (hinj hv hw
        (hvw ((encodeBytes_startsWith hv hw).mpr (.inr h)))),
      fun h => hself h (hinj hw hv
        (hwv ((encodeBytes_startsWith hw hv).mpr (.inr h)))), hfloats⟩
  · rintro ⟨hvw, hwv, hfloats⟩
    refine ⟨hfloats, fun h => ?_, fun h => ?_, hinj hv hw⟩
    · rw [((encodeBytes_startsWith hv hw).mp h).resolve_right hvw]
    · rw [((encodeBytes_startsWith hw hv).mp h).resolve_right hwv]

/-- Minus infinity and the NaN of `from_f64`. -/
theorem encodeValue_ordered_nan :
    let v := Value.float64 (orderF64Bits 0xFFF0000000000000)
    let w := Value.float64 (orderF64Bits 0x7FF8000000000000)
    compare (encodeBytes v) (encodeBytes w) = v.documentedCmp w := by
  intro v w
  have hsorted : v.FloatsSorted w := Or.inr (by decide)
  exact ((encodeValue_ordered (v := v) (w := w) rfl rfl).mpr ⟨id, id, hsorted⟩).1

/-- The empty string is written as the first bytes of a string of one zero, and
a NaN with its sign bit set is put before minus infinity. -/
theorem encodeValue_empty_in_zero :
    (encodeValue (.string []) = some [0x04, 0x00] ∧
      encodeValue (.string [0x00]) = some [0x04, 0x00, 0xFF, 0x00] ∧
      ¬ ([0x04, 0x00] <+: [0x04, 0x00, 0xFF, (0x00 : UInt8)] →
        [0x04, 0x00] = [0x04, 0x00, 0xFF, (0x00 : UInt8)])) ∧
    (encodePropertyValue .float64 [0xFF, 0xF8, 0, 0, 0, 0, 0, 0] =
        some [0x03, 0x00, 0x07, 0xFF, 0xFF, 0xFF, 0xFF, 0xFF, 0xFF] ∧
      encodePropertyValue .float64 [0xFF, 0xF0, 0, 0, 0, 0, 0, 0] =
        some [0x03, 0x00, 0x0F, 0xFF, 0xFF, 0xFF, 0xFF, 0xFF, 0xFF] ∧
      (Value.float64 (orderF64Bits 0xFFF8000000000000)).documentedCmp
        (.float64 (orderF64Bits 0xFFF0000000000000)) = .gt) := by
  decide

/-! ## Values inside property keys -/

theorem apart_natToBE (e : BitVec 128) : Apart (natToBE 16 e.toNat) ↔ e.toNat / 2 ^ 120 ≠ 0xFF := by
  have hlt := e.isLt
  have hpow : 256 ^ 15 = 2 ^ 120 := rfl
  rw [Apart, head_natToBE, hpow, Nat.mod_eq_of_lt (by omega)]
  refine not_congr ⟨fun h => ?_, fun h => by rw [h]; rfl⟩
  have hnat := congrArg UInt8.toNat (Option.some.inj h)
  rwa [UInt8.toNat_ofNat', Nat.mod_eq_of_lt (by omega)] at hnat

/-- The value part of a key reads as `v`, and what follows is `e`. -/
def Recovers (key : Bytes) (v : Value) (e : BitVec 128) : Prop :=
  ∃ n, decodeValue (key.drop 8) = some (v, n) ∧ key.drop (8 + n) = natToBE 16 e.toNat

theorem recovers_propertyIndexKey {p : UInt64} {e : BitVec 128}
    (hv : (encodeBytes v).length ≤ maxEncodedLen) :
    Recovers (propertyIndexKey p.toNat (encodeBytes v) e.toNat) v e ↔
      ¬ (v.terminated ∧ e.toNat / 2 ^ 120 = 0xFF) := by
  have hdrop : (propertyIndexKey p.toNat (encodeBytes v) e.toNat).drop 8 =
      encodeBytes v ++ natToBE 16 e.toNat := drop_left' (by simp)
  rw [not_and, ← ne_eq, ← apart_natToBE, ← decodeValue_encode hv, Recovers, hdrop]
  constructor
  · rintro ⟨n, hn, he⟩
    rw [← drop_drop, hdrop] at he
    have hlen := congrArg List.length he
    simp only [length_drop, length_append, length_natToBE] at hlen
    rw [hn, show n = (encodeBytes v).length by omega]
  · intro h
    exact ⟨_, h, by rw [← drop_drop, hdrop, drop_left]⟩

/-- Keys of a property index sort as their fields do and give them back, just
when no terminated value stands before an entity id that starts with `0xFF`. -/
theorem propertyIndexKey_ordered {p q : UInt64} {v w : Value} {a b : Bytes}
    {e f : BitVec 128} (ha : encodeValue v = some a) (hb : encodeValue w = some b) :
    (compare (propertyIndexKey p.toNat a e.toNat)
          (propertyIndexKey q.toNat b f.toNat) = (compare p.toNat q.toNat).then
          ((v.cmp w).then (compare e.toNat f.toNat)) ∧
      Recovers (propertyIndexKey p.toNat a e.toNat) v e ∧
      Recovers (propertyIndexKey q.toNat b f.toNat) w f) ↔
      ¬ (v.terminated ∧ e.toNat / 2 ^ 120 = 0xFF) ∧
        ¬ (w.terminated ∧ f.toNat / 2 ^ 120 = 0xFF) := by
  obtain ⟨hv, rfl⟩ := encodeValue_eq_some.mp ha
  obtain ⟨hw, rfl⟩ := encodeValue_eq_some.mp hb
  rw [recovers_propertyIndexKey hv, recovers_propertyIndexKey hw,
    and_iff_right_iff_imp]
  rintro ⟨hve, hwf⟩
  rw [not_and, ← ne_eq, ← apart_natToBE] at hve hwf
  rw [propertyIndexKey, propertyIndexKey, compare_append (by simp),
    compare_natToBE p.toNat_lt q.toNat_lt, compare_encodeBytes hv hw hve hwf,
    compare_natToBE e.isLt f.isLt]

theorem propertyIndexKey_ordered_text :
    Recovers (propertyIndexKey 7 [0x04, 0x61, 0x00] 1) (.string [0x61]) 1 := by
  have h := (propertyIndexKey_ordered (p := 7) (q := 7) (v := .string [0x61])
    (w := .string [0x61]) (e := 1) (f := 1) rfl rfl).mpr
      ⟨by decide, by decide⟩
  exact h.2.1

/-- Before the entity id `0xFF01…`, the empty string is read as a longer one
and sorts after the string of one zero. -/
theorem propertyIndexKey_empty_text : encodeValue (.string []) = some [0x04, 0x00] ∧
      encodeValue (.string [0x00]) = some [0x04, 0x00, 0xFF, 0x00] ∧
      compare (propertyIndexKey 7 [0x04, 0x00] (0xFF01 * 2 ^ 112))
          (propertyIndexKey 7 [0x04, 0x00, 0xFF, 0x00] 1) ≠
        (compare 7 7).then (((Value.string []).cmp (.string [0x00])).then
          (compare (0xFF01 * 2 ^ 112) 1)) ∧
      ¬ Recovers (propertyIndexKey 7 [0x04, 0x00] (0xFF01 * 2 ^ 112))
        (.string []) (BitVec.ofNat 128 (0xFF01 * 2 ^ 112)) := by
  refine ⟨rfl, rfl, by decide, ?_⟩
  rintro ⟨n, hn, -⟩
  have hread : decodeValue
      ((propertyIndexKey 7 [0x04, 0x00] (0xFF01 * 2 ^ 112)).drop 8) =
        some (.string [0x00, 0x01], 5) := by decide
  rw [hread] at hn
  cases hn

end RGraph.Index
