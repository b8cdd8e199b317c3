import RGraph.Cypher.Parser

/-!
# The place of a parse error

The offset of an error counts bytes, and the loop that finds its line and
column counts characters. They agree if the text before the error is ASCII, or
if nothing comes after it.
-/

namespace RGraph.Cypher

open List

/-- The characters that start before a byte offset. -/
def charsBefore : Nat → List Char → List Char
  | _, [] => []
  | n, c :: cs => if n = 0 then [] else c :: charsBefore (n - c.utf8Size) cs

/-- The line and the column that the offset has. -/
def LocatedError.Right (source : List Char) (e : LocatedError) : Prop :=
  e.line = 1 + (charsBefore e.offset source).count '\n' ∧
    e.column = 1 + ((charsBefore e.offset source).rtakeWhile (· != '\n')).length

def byteLen (t : List Char) : Nat := (t.map Char.utf8Size).sum

theorem charsBefore_byteLen (pre post : List Char) :
    charsBefore (byteLen pre) (pre ++ post) = pre := by
  induction pre with
  | nil => cases post <;> simp [charsBefore, byteLen]
  | cons c pre ih =>
    have hc := c.utf8Size_pos
    have hlen : byteLen (c :: pre) = c.utf8Size + byteLen pre := rfl
    rw [cons_append, charsBefore, if_neg (by omega), hlen, Nat.add_sub_cancel_left, ih]

theorem length_le_byteLen (t : List Char) : t.length ≤ byteLen t := by
  have hmap : (t.map Char.utf8Size).length = t.length := length_map _
  rw [byteLen, ← hmap]
  refine length_le_sum_of_one_le _ fun n hn => ?_
  obtain ⟨c, -, rfl⟩ := mem_map.mp hn
  exact c.utf8Size_pos

theorem byteLen_eq_length {t : List Char} : byteLen t = t.length ↔ ∀ c ∈ t, c.utf8Size = 1 := by
  induction t with
  | nil => simp [byteLen]
  | cons c t ih =>
    have hc := c.utf8Size_pos
    have ht := length_le_byteLen t
    have hlen : byteLen (c :: t) = c.utf8Size + byteLen t := rfl
    rw [forall_mem_cons, ← ih, hlen, length_cons]
    omega

/-! ## The loop -/

/-- One round of the loop. -/
def nextPlace (lc : Nat × Nat) (c : Char) : Nat × Nat :=
  if c = '\n' then (lc.1 + 1, 1) else (lc.1, lc.2 + 1)

theorem lineColLoop_eq (offset : Nat) (cs : List Char) (i : Nat) (lc : Nat × Nat) :
    lineColLoop offset cs i lc = (cs.take (offset - i)).foldl nextPlace lc := by
  induction cs generalizing i lc with
  | nil => rw [lineColLoop, take_nil, foldl_nil]
  | cons c cs ih =>
    rw [lineColLoop]
    split
    · next h => rw [Nat.sub_eq_zero_of_le h, take_zero, foldl_nil]
    · next h =>
        rw [ih, show offset - i = offset - (i + 1) + 1 by omega,
          take_succ_cons, foldl_cons, nextPlace]

theorem foldl_nextPlace (t : List Char) : t.foldl nextPlace (1, 1) =
      (1 + t.count '\n', 1 + (t.rtakeWhile (· != '\n')).length) := by
  induction t using List.reverseRecOn with
  | nil => rfl
  | append_singleton t c ih =>
    rw [foldl_concat, ih, nextPlace, count_append]
    split
    · next h =>
        subst h
        rw [rtakeWhile_concat_neg _ _ _ (by decide)]
        simp [Nat.add_assoc]
    · next h =>
        rw [rtakeWhile_concat_pos (· != '\n') _ _ (bne_iff_ne.mpr h)]
        simp [h, Nat.add_assoc]

/-- Each character moves the place on. -/
theorem lt_foldl_nextPlace {t : List Char} (h : t ≠ []) (lc : Nat × Nat) :
    toLex lc < toLex (t.foldl nextPlace lc) := by
  have hstep : ∀ (lc : Nat × Nat) c, toLex lc < toLex (nextPlace lc c) := by
    intro lc c
    rw [nextPlace, Prod.Lex.toLex_lt_toLex]
    split
    · exact .inl (Nat.lt_succ_self _)
    · exact .inr ⟨rfl, Nat.lt_succ_self _⟩
  induction t generalizing lc with
  | nil => exact absurd rfl h
  | cons c t ih =>
    rw [foldl_cons]
    by_cases ht : t = []
    · rw [ht, foldl_nil]
      exact hstep lc c
    · exact (hstep lc c).trans (ih ht _)

/-- The place of an error at any byte offset that a token can have. -/
theorem error_place_iff (pre post : List Char) (e : ParseError) (stop : Nat) :
    (e.locate (pre ++ post) (byteLen pre, stop)).Right (pre ++ post) ↔
      e ≠ .unknownInfix ∧ ((∀ c ∈ pre, c.utf8Size = 1) ∨ post = []) := by
  by_cases he : e = .unknownInfix
  · subst he
    exact ⟨fun h => absurd (h.1.trans (Nat.add_comm _ _)).symm
      (Nat.succ_ne_zero _), fun h => absurd rfl h.1⟩
  have hloc : e.locate (pre ++ post) (byteLen pre, stop) =
      ⟨e, byteLen pre, (offsetToLineCol (pre ++ post) (byteLen pre)).1,
        (offsetToLineCol (pre ++ post) (byteLen pre)).2,
        some (byteLen pre, stop)⟩ := by
    cases e <;> first | rfl | exact absurd rfl he
  have hlen := length_le_byteLen pre
  -- the characters that the loop takes too many
  let more := post.take (byteLen pre - pre.length)
  have hloop : offsetToLineCol (pre ++ post) (byteLen pre) =
      more.foldl nextPlace (pre.foldl nextPlace (1, 1)) := by
    rw [offsetToLineCol, lineColLoop_eq, Nat.sub_zero, take_append,
      take_of_length_le hlen, foldl_append]
  have hright : (e.locate (pre ++ post) (byteLen pre, stop)).Right
      (pre ++ post) ↔ more = [] := by
    rw [hloc, LocatedError.Right, charsBefore_byteLen, ← Prod.mk.injEq,
      ← foldl_nextPlace, hloop]
    constructor
    · intro heq
      by_contra hne
      exact (lt_foldl_nextPlace hne _).ne' (congrArg toLex heq)
    · intro hnil
      rw [hnil, foldl_nil]
  rw [hright, take_eq_nil_iff, ← byteLen_eq_length, and_iff_right he]
  refine or_congr_left ?_
  omega

/-- In `RETURN 'é' + )` the parser finds no operand behind the `+`. The bracket
is the 14th character and starts at byte 14, so the column is said to be 15. -/
theorem error_place_after_accent :
    (∀ c : Compound, parseExpression c 3 0 [.string "é", .plus, .rParen] =
      .ok (.error (.unexpectedInExpression .rParen), [.rParen])) ∧
    ¬ ∀ (pre post : List Char) (e : ParseError) (stop : Nat),
      (e.locate (pre ++ post) (byteLen pre, stop)).Right (pre ++ post) := by
  refine ⟨fun c => rfl, fun h => ?_⟩
  have hplace := (h "RETURN 'é' + ".toList [')'] (.unexpectedInExpression .rParen) 15).2
  exact absurd hplace (by decide)

end RGraph.Cypher
