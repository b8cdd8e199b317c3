import RGraph.Rdf.Term
import RGraph.Proofs.GraphRecord

/-!
# Reading back the bytes of a term

A missing language tag is written as an empty one, and an empty one is read as
missing.
-/

namespace RGraph.Rdf

open RGraph.Lib RGraph.Graph List

/-- The parts with a length before them are shorter than 64 KiB. -/
def Term.Short : Term → Prop
  | literal lit => (nameBytes lit.datatype).length < 2 ^ 16 ∧
      (nameBytes (lit.language.getD "")).length < 2 ^ 16
  | _ => True

/-- A literal with a language tag that is the empty string. -/
def Term.EmptyTag : Term → Prop
  | literal lit => lit.language = some ""
  | _ => False

theorem readU16_append {n : Nat} (h : n < 2 ^ 16) (rest : Bytes) :
    readU16 (natToBE 2 n ++ rest) = some (n, rest) := by
  have hlen : (natToBE 2 n).length = 2 := length_natToBE 2 n
  rw [readU16, if_neg (by rw [length_append, hlen]; omega),
    take_left' hlen, drop_left' hlen, beToNat_natToBE 2 n h]

theorem readStr_append (s : String) (rest : Bytes) :
    readStr (nameBytes s ++ rest) (nameBytes s).length = some (s, rest) := by
  rw [readStr, if_neg (by rw [length_append]; omega), take_left, drop_left,
    nameFromUtf8_nameBytes, Option.map_some]

theorem decode_literal {lit : RdfLiteral} (h : (Term.literal lit).Short) :
    Term.decode (Term.literal lit).encode = some (.literal { lit with
      language := if lit.language.getD "" = "" then none
        else some (lit.language.getD "") }) := by
  rw [Term.encode, Term.decode, if_neg (by decide), if_neg (by decide),
    if_pos rfl, lengthPrefixed, lengthPrefixed, append_assoc, append_assoc]
  simp only [readU16_append h.1, readU16_append h.2, readStr_append,
    nameFromUtf8_nameBytes, bind, Option.bind_some]

theorem decode_encode_iff {t : Term} (h : t.Short) :
    Term.decode t.encode = some t ↔ ¬ t.EmptyTag := by
  cases t with
  | iri s | blankNode s => simp [Term.encode, Term.decode, nameFromUtf8_nameBytes, Term.EmptyTag]
  | literal lit =>
    obtain ⟨lexical, datatype, language⟩ := lit
    rw [decode_literal h, Option.some_inj, Term.literal.injEq, RdfLiteral.mk.injEq, Term.EmptyTag]
    cases language with
    | none => simp
    | some tag => by_cases htag : tag = "" <;> simp [htag]

/-- What is read back, and that no two terms have the same bytes. -/
theorem term_codec_iff {t : Term} (h : t.Short) : (Term.decode t.encode = some t ↔ ¬ t.EmptyTag) ∧
      (¬ t.EmptyTag → ∀ u : Term, u.Short → ¬ u.EmptyTag →
        u.encode = t.encode → u = t) := by
  refine ⟨decode_encode_iff h, fun ht u hu hu' heq => ?_⟩
  have hdec := (decode_encode_iff hu).mpr hu'
  rw [heq, (decode_encode_iff h).mpr ht] at hdec
  exact (Option.some.inj hdec).symm

theorem term_codec_iff_tagged : Term.decode (Term.literal ⟨"chat", "", some "fr"⟩).encode =
      some (.literal ⟨"chat", "", some "fr"⟩) :=
  (term_codec_iff (t := .literal ⟨"chat", "", some "fr"⟩)
    (show _ ∧ _ by decide)).1.mpr (show ¬ some "fr" = some "" by decide)

/-- The empty tag is lost, and the bytes are those of the literal without
it. -/
theorem empty_tag_is_lost : ¬ ∀ t : Term, t.Short → Term.decode t.encode = some t ∧
      ∀ u : Term, u.Short → u.encode = t.encode → u = t := by
  intro h
  have heq := (h (.literal ⟨"", "", none⟩) (show _ ∧ _ by decide)).2
    (.literal ⟨"", "", some ""⟩) (show _ ∧ _ by decide) rfl
  cases heq

end RGraph.Rdf
