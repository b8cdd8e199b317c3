import Mathlib

/-!
# Byte strings

Fixed-width integers written most significant byte first (`natToBE`) and read
back (`beToNat`), with the little-endian pair as their reversal.
-/

namespace RGraph.Lib

open List

abbrev Bytes := List UInt8

/-- The low `w` bytes of `n`, most significant first. -/
def natToBE : Nat → Nat → Bytes
  | 0, _ => []
  | w + 1, n => natToBE w (n / 256) ++ [UInt8.ofNat (n % 256)]

def beToNat (bs : Bytes) : Nat := bs.foldl (fun acc b => acc * 256 + b.toNat) 0

def natToLE (w n : Nat) : Bytes := (natToBE w n).reverse

def leToNat (bs : Bytes) : Nat := beToNat bs.reverse

@[simp] theorem length_natToBE (w n : Nat) : (natToBE w n).length = w := by
  induction w generalizing n with
  | zero => rfl
  | succ w ih => simp [natToBE, ih]

@[simp] theorem length_natToLE (w n : Nat) : (natToLE w n).length = w := by
  simp [natToLE]

theorem beToNat_append (xs : Bytes) (b : UInt8) :
    beToNat (xs ++ [b]) = beToNat xs * 256 + b.toNat := by
  simp [beToNat, foldl_append]

theorem beToNat_natToBE (w n : Nat) (h : n < 256 ^ w) : beToNat (natToBE w n) = n := by
  induction w generalizing n with
  | zero =>
    have : n = 0 := by simpa using h
    rw [this]; rfl
  | succ w ih =>
    have hdiv : n / 256 < 256 ^ w := by
      rw [Nat.pow_succ] at h
      exact Nat.div_lt_of_lt_mul (by omega)
    have hbyte : (UInt8.ofNat (n % 256)).toNat = n % 256 := by
      simp
    rw [natToBE, beToNat_append, ih _ hdiv, hbyte]
    omega

/-- A number too large for its width loses its high bytes. -/
theorem beToNat_natToBE_le (w n : Nat) : beToNat (natToBE w n) ≤ n := by
  induction w generalizing n with
  | zero => exact Nat.zero_le _
  | succ w ih =>
    have hdiv := ih (n / 256)
    have hbyte : (UInt8.ofNat (n % 256)).toNat = n % 256 := by
      simp
    rw [natToBE, beToNat_append, hbyte]
    omega

theorem beToNat_lt (bs : Bytes) : beToNat bs < 256 ^ bs.length := by
  induction bs using List.reverseRecOn with
  | nil => decide
  | append_singleton bs b ih =>
    have hb := b.toNat_lt
    rw [beToNat_append, length_append, length_singleton, Nat.pow_succ]
    omega

theorem natToBE_beToNat (bs : Bytes) : natToBE bs.length (beToNat bs) = bs := by
  induction bs using reverseRecOn with
  | nil => rfl
  | append_singleton bs b ih =>
    have hb := b.toNat_lt
    rw [length_append, beToNat_append, length_singleton, natToBE,
      show (beToNat bs * 256 + b.toNat) / 256 = beToNat bs by omega, ih]
    simp

theorem leToNat_lt (bs : Bytes) : leToNat bs < 256 ^ bs.length := by
  have h := beToNat_lt bs.reverse
  rwa [length_reverse] at h

theorem leToNat_natToLE (w n : Nat) (h : n < 256 ^ w) : leToNat (natToLE w n) = n := by
  rw [leToNat, natToLE, reverse_reverse, beToNat_natToBE w n h]

/-! ### Order -/

theorem beToNat_append_list (xs ys : Bytes) :
    beToNat (xs ++ ys) = beToNat xs * 256 ^ ys.length + beToNat ys := by
  induction ys using List.reverseRecOn with
  | nil => simp [beToNat]
  | append_singleton ys b ih =>
    rw [← append_assoc, beToNat_append, ih, beToNat_append,
      length_append, length_singleton, Nat.pow_succ, Nat.add_mul,
      Nat.add_assoc, Nat.mul_assoc]

theorem beToNat_cons (x : UInt8) (xs : Bytes) :
    beToNat (x :: xs) = x.toNat * 256 ^ xs.length + beToNat xs := by
  have h := beToNat_append_list [x] xs
  simpa [beToNat] using h

theorem compare_toNat (x y : UInt8) : compare x y = compare x.toNat y.toNat := by
  show compareOfLessAndEq x y = compareOfLessAndEq x.toNat y.toNat
  simp only [compareOfLessAndEq, UInt8.lt_iff_toNat_lt, UInt8.toNat_inj]

/-- Numbers compare digit by digit. -/
theorem compare_mul_add {n a b c d : Nat} (hc : c < n) (hd : d < n) :
    compare (a * n + c) (b * n + d) = (compare a b).then (compare c d) := by
  rcases Nat.lt_trichotomy a b with hlt | rfl | hgt
  · have hle := Nat.mul_le_mul_right n hlt
    rw [Nat.succ_mul] at hle
    rw [Nat.compare_eq_lt.mpr hlt, Nat.compare_eq_lt.mpr (by omega)]
    rfl
  · rw [Nat.compare_eq_eq.mpr rfl]
    show _ = compare c d
    rcases Nat.lt_trichotomy c d with h | rfl | h
    · rw [Nat.compare_eq_lt.mpr h, Nat.compare_eq_lt.mpr (by omega)]
    · rw [Nat.compare_eq_eq.mpr rfl, Nat.compare_eq_eq.mpr rfl]
    · rw [Nat.compare_eq_gt.mpr h, Nat.compare_eq_gt.mpr (by omega)]
  · have hle := Nat.mul_le_mul_right n hgt
    rw [Nat.succ_mul] at hle
    rw [Nat.compare_eq_gt.mpr hgt, Nat.compare_eq_gt.mpr (by omega)]
    rfl

/-- Byte strings of one length compare as the numbers they stand for. -/
theorem compare_beToNat {xs ys : Bytes} (h : xs.length = ys.length) :
    compare xs ys = compare (beToNat xs) (beToNat ys) := by
  induction xs generalizing ys with
  | nil =>
    rw [eq_nil_of_length_eq_zero h.symm]
    rfl
  | cons x xs ih =>
    cases ys with
    | nil => cases h
    | cons y ys =>
      have hlen : xs.length = ys.length := Nat.succ.inj h
      have hx := beToNat_lt xs
      have hy := beToNat_lt ys
      rw [List.compare_cons_cons, ih hlen, beToNat_cons, beToNat_cons,
        compare_toNat, ← hlen, compare_mul_add hx (by rwa [hlen])]

/-- Two fields, the first one counting more. -/
theorem compare_natToBE_append {v w a b c d : Nat} (ha : a < 256 ^ v)
    (hb : b < 256 ^ v) (hc : c < 256 ^ w) (hd : d < 256 ^ w) :
    compare (natToBE v a ++ natToBE w c) (natToBE v b ++ natToBE w d) =
      (compare a b).then (compare c d) := by
  rw [compare_beToNat (by simp), beToNat_append_list, beToNat_append_list,
    length_natToBE, length_natToBE, beToNat_natToBE v a ha,
    beToNat_natToBE v b hb, beToNat_natToBE w c hc, beToNat_natToBE w d hd,
    compare_mul_add hc hd]

end RGraph.Lib
