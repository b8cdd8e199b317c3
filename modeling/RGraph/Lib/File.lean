import Mathlib.Data.List.Basic
import Mathlib.Data.List.GetD
import RGraph.Lib.Bytes

/-!
# Files as byte strings

A positioned write past the end fills the gap with zeros; a positioned read
fills a zeroed buffer with what the file has. The lemmas go through `getD _ 0`,
the byte at a position of a file that goes on with zeros for ever.
-/

namespace RGraph.Lib

open List

def setLen (f : Bytes) (n : Nat) : Bytes := f.take n ++ List.replicate (n - f.length) 0

def writeAt (f : Bytes) (off : Nat) (bs : Bytes) : Bytes :=
  f.take off ++ List.replicate (off - f.length) 0 ++ bs ++ f.drop (off + bs.length)

def readAt (f : Bytes) (off n : Nat) : Bytes := setLen (f.drop off) n

@[simp] theorem length_setLen (f : Bytes) (n : Nat) : (setLen f n).length = n := by
  simp only [setLen, length_append, length_take, length_replicate]
  omega

@[simp] theorem length_readAt (f : Bytes) (off n : Nat) : (readAt f off n).length = n := by
  simp [readAt]

theorem length_writeAt (f : Bytes) (off : Nat) (bs : Bytes) :
    (writeAt f off bs).length = max f.length (off + bs.length) := by
  simp only [writeAt, length_append, length_take, length_replicate, length_drop]
  omega

theorem getD_replicate_zero (n i : Nat) : (List.replicate n (0 : UInt8)).getD i 0 = 0 := by
  rw [getD_eq_getElem?_getD, List.getElem?_replicate]
  split <;> rfl

theorem getD_setLen (f : Bytes) (n i : Nat) :
    (setLen f n).getD i 0 = if i < n then f.getD i 0 else 0 := by
  rw [setLen]
  by_cases hi : i < (f.take n).length
  · rw [getD_append _ _ _ _ hi]
    rw [length_take] at hi
    rw [if_pos (by omega), getD_eq_getElem?_getD,
      getD_eq_getElem?_getD, List.getElem?_take, if_pos (by omega)]
  · rw [getD_append_right _ _ _ _ (Nat.not_lt.mp hi), getD_replicate_zero]
    rw [length_take] at hi
    split
    · rw [getD_eq_default _ _ (by omega)]
    · rfl

theorem getD_drop (f : Bytes) (n i : Nat) : (f.drop n).getD i 0 = f.getD (n + i) 0 := by
  rw [getD_eq_getElem?_getD, getD_eq_getElem?_getD, List.getElem?_drop]

theorem getD_readAt (f : Bytes) (off n i : Nat) :
    (readAt f off n).getD i 0 = if i < n then f.getD (off + i) 0 else 0 := by
  rw [readAt, getD_setLen, getD_drop]

theorem getD_writeAt (f : Bytes) (off : Nat) (bs : Bytes) (i : Nat) : (writeAt f off bs).getD i 0 =
      if off ≤ i ∧ i < off + bs.length then bs.getD (i - off) 0
      else f.getD i 0 := by
  have hpre : (setLen f off).length = off := length_setLen f off
  rw [writeAt, ← setLen]
  by_cases hlt : i < off + bs.length
  · have hlen : i < (setLen f off ++ bs).length := by
      rw [length_append, hpre]; exact hlt
    rw [getD_append _ _ _ _ hlen]
    by_cases hoff : off ≤ i
    · rw [if_pos ⟨hoff, hlt⟩, getD_append_right _ _ _ _ (by omega), hpre]
    · rw [if_neg (by omega), getD_append _ _ _ _ (by omega), getD_setLen, if_pos (by omega)]
  · have hlen : (setLen f off ++ bs).length = off + bs.length := by
      rw [length_append, hpre]
    rw [getD_append_right _ _ _ _ (by omega), hlen, if_neg (by omega),
      getD_drop, Nat.add_sub_cancel' (by omega)]

/-- Two byte strings of one length that agree at every position are equal. -/
theorem ext_getD {f g : Bytes} (hlen : f.length = g.length)
    (h : ∀ i, i < f.length → f.getD i 0 = g.getD i 0) : f = g := by
  refine ext_getElem hlen fun i hf hg => ?_
  have := h i hf
  rwa [getD_eq_getElem _ _ hf, getD_eq_getElem _ _ hg] at this

theorem readAt_congr {f g : Bytes} {off n : Nat}
    (h : ∀ i, i < n → f.getD (off + i) 0 = g.getD (off + i) 0) :
    readAt f off n = readAt g off n := by
  refine ext_getD (by simp) fun i hi => ?_
  rw [length_readAt] at hi
  rw [getD_readAt, getD_readAt, if_pos hi, if_pos hi, h i hi]

theorem readAt_writeAt_self (f : Bytes) (off : Nat) (bs : Bytes) :
    readAt (writeAt f off bs) off bs.length = bs := by
  refine ext_getD (by simp) fun i hi => ?_
  rw [length_readAt] at hi
  rw [getD_readAt, if_pos hi, getD_writeAt, if_pos (by omega), Nat.add_sub_cancel_left]

theorem readAt_writeAt_ne (f : Bytes) {off off' n : Nat} {bs : Bytes}
    (h : off' + n ≤ off ∨ off + bs.length ≤ off') :
    readAt (writeAt f off bs) off' n = readAt f off' n := by
  refine readAt_congr fun i hi => ?_
  rw [getD_writeAt, if_neg (by omega)]

theorem readAt_readAt (f : Bytes) {off i m n : Nat} (h : i + m ≤ n) :
    readAt (readAt f off n) i m = readAt f (off + i) m := by
  refine ext_getD (by simp) fun j hj => ?_
  rw [length_readAt] at hj
  rw [getD_readAt, getD_readAt, getD_readAt, if_pos hj, if_pos hj, if_pos (by omega), Nat.add_assoc]

/-- Growing a file changes no read. -/
theorem readAt_setLen (f : Bytes) {m : Nat} (off n : Nat)
    (h : f.length ≤ m) : readAt (setLen f m) off n = readAt f off n := by
  refine readAt_congr fun i _ => ?_
  rw [getD_setLen]
  split
  · rfl
  · rw [getD_eq_default _ _ (by omega)]

theorem setLen_eq_self {f : Bytes} {n : Nat} (h : f.length = n) : setLen f n = f := by
  subst h
  simp [setLen]

theorem readAt_of_append {f : Bytes} (pre mid post : Bytes) {off n : Nat}
    (hf : f = pre ++ (mid ++ post)) (hoff : pre.length = off)
    (hn : mid.length = n) : readAt f off n = mid := by
  subst hf hoff hn
  rw [readAt, drop_left, setLen, take_left]
  simp

theorem readAt_append_left (a b : Bytes) {n : Nat} (h : a.length = n) : readAt (a ++ b) 0 n = a :=
  readAt_of_append [] a b (nil_append _).symm rfl h

theorem readAt_append_right {a : Bytes} (b : Bytes) {off : Nat} (n : Nat) (h : a.length ≤ off) :
    readAt (a ++ b) off n = readAt b (off - a.length) n := by
  rw [readAt, readAt, drop_append, drop_eq_nil_of_le h, nil_append]

/-- One of several blocks of the same width. -/
theorem readAt_flatMap {α : Type*} {f : α → Bytes} {w : Nat}
    (hf : ∀ a, (f a).length = w) {l : List α} {i : Nat} {a : α}
    (hi : l[i]? = some a) (post : Bytes) : readAt (l.flatMap f ++ post) (i * w) w = f a := by
  induction l generalizing i with
  | nil => cases hi
  | cons b l ih =>
    rw [flatMap_cons, append_assoc]
    cases i with
    | zero =>
      cases hi
      rw [Nat.zero_mul]
      exact readAt_append_left _ _ (hf a)
    | succ i =>
      rw [readAt_append_right _ _ (by rw [hf, Nat.succ_mul]; omega), hf,
        Nat.succ_mul, Nat.add_sub_cancel]
      exact ih hi

theorem writeAt_zero (f bs : Bytes) : writeAt f 0 bs = bs ++ f.drop bs.length := by
  simp [writeAt]

theorem natToBE_readAt (f : Bytes) (off w : Nat) :
    natToBE w (beToNat (readAt f off w)) = readAt f off w := by
  simpa only [length_readAt] using natToBE_beToNat (readAt f off w)

theorem readAt_add (f : Bytes) (off m n : Nat) :
    readAt f off (m + n) = readAt f off m ++ readAt f (off + m) n := by
  refine ext_getD (by simp) fun i hi => ?_
  rw [length_readAt] at hi
  rw [getD_readAt, if_pos hi]
  by_cases him : i < m
  · rw [getD_append _ _ _ _ (by simpa), getD_readAt, if_pos him]
  · rw [getD_append_right _ _ _ _ (by simpa using him), getD_readAt,
      length_readAt, if_pos (by omega), Nat.add_assoc, Nat.add_sub_cancel' (by omega)]

theorem readAt_one (f : Bytes) (off : Nat) : readAt f off 1 = [f.getD off 0] := by
  refine ext_getD (by simp) fun i hi => ?_
  rw [length_readAt] at hi
  rw [getD_readAt, if_pos hi, Nat.lt_one_iff.mp hi]
  rfl

end RGraph.Lib
