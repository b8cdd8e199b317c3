import Mathlib

/-!
# Doubles by their bits

The bits of a double are its sign and a body of 63 bits, the exponent and the
fraction. A number is a multiple of the least positive one, `2^-1074`, and the
body grows with the absolute value, so doubles sort like integers once the
negative ones are turned around (`sortKey`). What this does to NaNs is said
exactly: one with its sign bit set comes before all numbers.
-/

namespace RGraph.Lib.Binary64

def negative (bits : Nat) : Bool := 2 ^ 63 ≤ bits

def body (bits : Nat) : Nat := bits % 2 ^ 63

/-- All bits of the exponent are set, and a bit of the fraction. -/
def isNan (bits : Nat) : Bool := 2047 * 2 ^ 52 < body bits

/-- The absolute value of a body, in units of `2^-1074`. The infinities are
where the next power of two would be. -/
def magnitude (body : Nat) : Nat :=
  if body / 2 ^ 52 = 0 then body % 2 ^ 52
  else (2 ^ 52 + body % 2 ^ 52) * 2 ^ (body / 2 ^ 52 - 1)

def value (bits : Nat) : Int :=
  if negative bits then -(magnitude (body bits) : Int) else magnitude (body bits)

/-- The order of the numbers, `-0` before `+0`, and every NaN behind them. -/
def cmp (a b : Nat) : Ordering :=
  if isNan a || isNan b then compare (isNan a) (isNan b)
  else (compare (value a) (value b)).then (compare (negative b) (negative a))

/-- The bits as an integer, the negative ones turned around. -/
def sortKey (bits : Nat) : Int := if negative bits then -1 - (body bits : Int) else body bits

theorem magnitude_strictMono : StrictMono magnitude := by
  refine strictMono_nat_of_lt_succ fun m => ?_
  by_cases hcarry : m % 2 ^ 52 + 1 = 2 ^ 52
  · -- the fraction was full: the next power of two
    have hdiv : (m + 1) / 2 ^ 52 = m / 2 ^ 52 + 1 := by omega
    have hmod : (m + 1) % 2 ^ 52 = 0 := by omega
    rw [magnitude, magnitude, hdiv, hmod, if_neg (Nat.succ_ne_zero _), Nat.add_sub_cancel]
    split
    · next h => rw [h]; omega
    · next h =>
        obtain ⟨e, he⟩ := Nat.exists_eq_succ_of_ne_zero h
        rw [he, Nat.succ_sub_one]
        calc (2 ^ 52 + m % 2 ^ 52) * 2 ^ e < 2 ^ 52 * 2 * 2 ^ e :=
              Nat.mul_lt_mul_of_pos_right (by omega) (Nat.two_pow_pos e)
          _ = (2 ^ 52 + 0) * 2 ^ (e + 1) := by
              rw [Nat.mul_assoc, Nat.mul_comm 2, ← Nat.pow_succ, Nat.add_zero]
  · have hdiv : (m + 1) / 2 ^ 52 = m / 2 ^ 52 := by omega
    have hmod : (m + 1) % 2 ^ 52 = m % 2 ^ 52 + 1 := by omega
    rw [magnitude, magnitude, hdiv, hmod]
    split
    · exact Nat.lt_succ_self _
    · exact Nat.mul_lt_mul_of_pos_right (by omega) (Nat.two_pow_pos _)

/-- Numbers sort like their keys. -/
theorem compare_sortKey (a b : Nat) : compare (sortKey a) (sortKey b) =
    (compare (value a) (value b)).then (compare (negative b) (negative a)) := by
  have hlt := @magnitude_strictMono (body a) (body b)
  have hgt := @magnitude_strictMono (body b) (body a)
  rw [sortKey, sortKey, value, value]
  cases ha : negative a <;> cases hb : negative b <;>
    simp only [Bool.false_eq_true, if_true, if_false, Std.compare_self, Ordering.then_eq]
  case false.false =>
    rcases Nat.lt_trichotomy (body a) (body b) with h | h | h
    · rw [Std.compare_eq_lt.mpr (Int.ofNat_lt.mpr h),
        Std.compare_eq_lt.mpr (Int.ofNat_lt.mpr (hlt h))]
    · rw [h, Std.compare_self, Std.compare_self]
    · rw [Std.compare_eq_gt.mpr (Int.ofNat_lt.mpr h),
        Std.compare_eq_gt.mpr (Int.ofNat_lt.mpr (hgt h))]
  case true.true =>
    rcases Nat.lt_trichotomy (body a) (body b) with h | h | h
    · have hm := hlt h
      rw [Std.compare_eq_gt.mpr (by omega), Std.compare_eq_gt.mpr (by omega)]
    · rw [h, Std.compare_self, Std.compare_self]
    · have hm := hgt h
      rw [Std.compare_eq_lt.mpr (by omega), Std.compare_eq_lt.mpr (by omega)]
  case false.true =>
    rw [Std.compare_eq_gt.mpr (by omega)]
    rcases (by omega : (-(magnitude (body b)) : Int) < magnitude (body a) ∨
      (magnitude (body a) : Int) = -(magnitude (body b))) with h | h
    · rw [Std.compare_eq_gt.mpr h]
      rfl
    · rw [h, Std.compare_self]
      rfl
  case true.false =>
    rw [Std.compare_eq_lt.mpr (by omega)]
    rcases (by omega : (-(magnitude (body a)) : Int) < magnitude (body b) ∨
      -(magnitude (body a) : Int) = magnitude (body b)) with h | h
    · rw [Std.compare_eq_lt.mpr h]
      rfl
    · rw [h, Std.compare_self]
      rfl

theorem sortKey_eq {a : Nat} : sortKey a =
    if 2 ^ 63 ≤ a then -1 - ((a % 2 ^ 63 : Nat) : Int) else ((a % 2 ^ 63 : Nat) : Int) := by
  simp [sortKey, negative, body]

/-- The keys are in the order of the doubles for equal ones, and for two that
are not both NaN and neither of them a NaN with its sign bit set. -/
theorem compare_sortKey_iff {a b : Nat} (ha : a < 2 ^ 64) (hb : b < 2 ^ 64) :
    compare (sortKey a) (sortKey b) = cmp a b ↔ a = b ∨ ¬ (isNan a ∧ isNan b) ∧
      ¬ (isNan a ∧ negative a) ∧ ¬ (isNan b ∧ negative b) := by
  have hnan (a : Nat) : isNan a = true ↔ 2047 * 2 ^ 52 < a % 2 ^ 63 := decide_eq_true_iff
  have hneg (a : Nat) : negative a = true ↔ 2 ^ 63 ≤ a := decide_eq_true_iff
  have hna := hnan a
  have hnb := hnan b
  rw [hneg, hneg]
  cases h₁ : isNan a <;> cases h₂ : isNan b <;> rw [cmp, h₁, h₂] <;> rw [h₁] at hna <;>
    rw [h₂] at hnb <;> simp only [true_iff, Bool.false_eq_true, false_iff, not_lt] at hna hnb
  case false.false => simp [compare_sortKey]
  case true.true =>
    show compare _ _ = .eq ↔ _
    rw [Std.compare_eq_iff_eq, sortKey_eq, sortKey_eq]
    simp only [and_self, not_true_eq_false, false_and, or_false]
    omega
  case true.false =>
    show compare _ _ = .gt ↔ _
    rw [Std.compare_eq_gt, sortKey_eq, sortKey_eq]
    simp only [Bool.false_eq_true, and_false, not_false_eq_true, true_and, false_and, and_true]
    omega
  case false.true =>
    show compare _ _ = .lt ↔ _
    rw [Std.compare_eq_lt, sortKey_eq, sortKey_eq]
    simp only [Bool.false_eq_true, false_and, not_false_eq_true, true_and]
    omega

end RGraph.Lib.Binary64
