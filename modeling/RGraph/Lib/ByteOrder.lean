import Mathlib.Order.Defs.LinearOrder
import Mathlib.Data.List.Lex
import RGraph.Lib.Bytes

/-!
# The order of byte strings

Byte slices compare lexicographically by unsigned byte, so that fields of a
fixed width compare as the numbers that they hold.
-/

namespace RGraph.Lib

instance linearOrderUInt8 : LinearOrder UInt8 where
  le_refl := UInt8.le_refl
  le_trans _ _ _ := UInt8.le_trans
  lt_iff_le_not_ge a b := by
    simp only [UInt8.lt_iff_toNat_lt, UInt8.le_iff_toNat_le]
    omega
  le_antisymm _ _ := UInt8.le_antisymm
  le_total := UInt8.le_total
  toDecidableLE := inferInstance
  toDecidableLT := inferInstance
  toDecidableEq := inferInstance

theorem le_of_startsWith {xs ys : Bytes} (h : xs <+: ys) : xs ≤ ys :=
  not_lt.mp fun hlt => absurd h.le (by simpa using hlt)

theorem compare_eq_lt {xs ys : Bytes} : compare xs ys = .lt ↔ xs < ys := by
  induction xs generalizing ys with
  | nil => cases ys <;> simp
  | cons x xs ih =>
    cases ys with
    | nil => simp
    | cons y ys =>
      rw [List.compare_cons_cons, Ordering.then_eq_lt, ih, List.cons_lt_cons_iff,
        Std.compare_eq_lt, Std.compare_eq_iff_eq]

theorem isLT_compare (xs ys : Bytes) : (compare xs ys).isLT = decide (xs < ys) := by
  rw [Bool.eq_iff_iff, decide_eq_true_iff, Ordering.isLT_iff_eq_lt, compare_eq_lt]

theorem isLE_compare (xs ys : Bytes) : (compare xs ys).isLE = decide (xs ≤ ys) := by
  rw [Bool.eq_iff_iff, decide_eq_true_iff, ← Ordering.ne_gt_iff_isLE, ← not_lt, ← compare_eq_lt,
    Std.OrientedCmp.gt_iff_lt]

/-- Parts of one length compare before what follows them. -/
theorem compare_append {xs ys : Bytes} (h : xs.length = ys.length) (s t : Bytes) :
    compare (xs ++ s) (ys ++ t) = (compare xs ys).then (compare s t) := by
  induction xs generalizing ys with
  | nil =>
    rw [List.eq_nil_of_length_eq_zero h.symm]
    rfl
  | cons x xs ih =>
    cases ys with
    | nil => cases h
    | cons y ys =>
      rw [List.cons_append, List.cons_append, List.compare_cons_cons,
        List.compare_cons_cons, ih (Nat.succ.inj h), Ordering.then_assoc]

theorem compare_natToBE {w a b : Nat} (ha : a < 256 ^ w) (hb : b < 256 ^ w) :
    compare (natToBE w a) (natToBE w b) = compare a b := by
  rw [compare_beToNat (by simp), beToNat_natToBE w a ha, beToNat_natToBE w b hb]

/-- The first byte is the most significant one. -/
theorem head_natToBE (w n : Nat) :
    (natToBE (w + 1) n).head? = some (UInt8.ofNat (n / 256 ^ w % 256)) := by
  induction w generalizing n with
  | zero => simp [natToBE]
  | succ w ih =>
    rw [natToBE, List.head?_append, ih, Nat.div_div_eq_div_mul, ← Nat.pow_succ']
    rfl

theorem two_pow_xor {n r : Nat} (h : r < 2 ^ n) : 2 ^ n ^^^ r = 2 ^ n + r := by
  have hor := Nat.two_pow_add_eq_or_of_lt h 1
  rw [Nat.mul_one] at hor
  rw [hor]
  refine Nat.eq_of_testBit_eq fun i => ?_
  rw [Nat.testBit_xor, Nat.testBit_or, Nat.testBit_two_pow]
  by_cases hi : n = i
  · have hr : r.testBit i = false := Nat.testBit_lt_two_pow (hi ▸ h)
    simp [hi, hr]
  · simp [hi]

end RGraph.Lib
