import Mathlib

/-!
# Lines of CSV (`cli/import.rs`)

A line is written field by field. What a field is written as is read back
whatever field comes before it and whatever comes after the next comma.
-/

namespace RGraph.Cli

open List

/-- The loop of `split_csv`: the characters that are left, the field so far
and whether it is in quotes. -/
def splitCsvLoop : List Char → List Char → Bool → List (List Char)
  | [], field, _ => [field]
  | '"' :: '"' :: cs, field, true => splitCsvLoop cs (field ++ ['"']) true
  | c :: cs, field, inQuotes =>
    if c = '"' then splitCsvLoop cs field (!inQuotes)
    else if c = ',' ∧ inQuotes = false then
      field :: splitCsvLoop cs [] inQuotes
    else splitCsvLoop cs (field ++ [c]) inQuotes

def splitCsv (line : List Char) : List (List Char) := splitCsvLoop line [] false

variable {f rest cur : List Char}

def doubleQuotes (f : List Char) : List Char :=
  f.flatMap fun c => if c = '"' then ['"', '"'] else [c]

/-- A field in quotes, or as it is if it has neither commas nor quotes. -/
def Written (f w : List Char) : Prop :=
  w = '"' :: (doubleQuotes f ++ ['"']) ∨ (',' ∉ f ∧ '"' ∉ f) ∧ w = f

/-- The end of a line, or a comma. -/
def FieldEnd (rest : List Char) : Prop := rest = [] ∨ ∃ t, rest = ',' :: t

theorem splitCsvLoop_plain (hc : ',' ∉ f) (hq : '"' ∉ f) :
    splitCsvLoop (f ++ rest) cur false = splitCsvLoop rest (cur ++ f) false := by
  induction f generalizing cur with
  | nil => rw [nil_append, append_nil]
  | cons c f ih =>
    rw [mem_cons, not_or] at hc hq
    rw [cons_append, splitCsvLoop, if_neg (Ne.symm hq.1),
      if_neg fun h => hc.1 h.1.symm, ih hc.2 hq.2, append_assoc]
    · rfl
    · nofun

theorem splitCsvLoop_quoted (hend : FieldEnd rest) :
    splitCsvLoop (doubleQuotes f ++ '"' :: rest) cur true = splitCsvLoop rest (cur ++ f) false := by
  induction f generalizing cur with
  | nil => rcases hend with rfl | ⟨t, rfl⟩ <;> simp [doubleQuotes, splitCsvLoop]
  | cons c f ih =>
    by_cases hc : c = '"'
    · subst hc
      have hcons : doubleQuotes ('"' :: f) = '"' :: '"' :: doubleQuotes f := rfl
      rw [hcons, cons_append, cons_append, splitCsvLoop, ih, append_assoc]
      rfl
    · have hcons : doubleQuotes (c :: f) = c :: doubleQuotes f := by
        simp [doubleQuotes, hc]
      rw [hcons, cons_append, splitCsvLoop, if_neg hc, if_neg (by simp), ih, append_assoc]
      · rfl
      · simp [hc]

theorem Written.split {w : List Char} (h : Written f w) (hend : FieldEnd rest) :
    splitCsvLoop (w ++ rest) [] false = splitCsvLoop rest f false := by
  rcases h with rfl | ⟨⟨hc, hq⟩, rfl⟩
  · rw [cons_append, append_assoc, splitCsvLoop, if_pos rfl, Bool.not_false,
      singleton_append, splitCsvLoop_quoted hend, nil_append]
    nofun
  · exact splitCsvLoop_plain hc hq

/-- Fields written one by one and joined with commas. -/
theorem split_written_fields {fs ws : List (List Char)} (hne : fs ≠ [])
    (h : Forall₂ Written fs ws) : splitCsv ([','].intercalate ws) = fs := by
  induction h with
  | nil => exact absurd rfl hne
  | @cons f w fs ws hw hws ih =>
    rw [splitCsv]
    cases hws with
    | nil =>
      rw [intercalate_singleton, ← append_nil w, hw.split (Or.inl rfl)]
      rfl
    | @cons f' w' fs ws hw' hws =>
      have ih := ih (cons_ne_nil _ _)
      rw [intercalate_cons_cons, append_assoc, singleton_append,
        hw.split (Or.inr ⟨_, rfl⟩), splitCsvLoop, if_neg (by decide),
        if_pos ⟨rfl, rfl⟩]
      · exact congrArg (f :: ·) ih
      · nofun

/-- A field with a comma and a quote, and one that is left as it is. -/
theorem split_written_fields_two :
    splitCsv ([','].intercalate [['"', 'a', ',', '"', '"', '"'], ['b']]) =
      [['a', ',', '"'], ['b']] :=
  split_written_fields (cons_ne_nil _ _)
    (.cons (Or.inl rfl) (.cons (Or.inr ⟨by decide, rfl⟩) .nil))

/-- No field at all gives the line of one empty field. -/
theorem split_no_fields : ¬ ∀ fs ws : List (List Char), Forall₂ Written fs ws →
    splitCsv ([','].intercalate ws) = fs :=
  fun h => absurd (h [] [] .nil) (by decide)

end RGraph.Cli
