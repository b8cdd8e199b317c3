import Mathlib

/-!
# Sorted entries between fences

The key space of a search tree is cut by separators, and each subtree holds the
entries between two of them. `Within lo es hi` says that the entries `es` are
in strict key order and lie in `[lo, hi)`; the bounds are keys, or open at the
ends of the key space. A range is cut around a key (`Within.cut`), and two
ranges that meet are put together (`Within.append`).
-/

namespace RGraph.Lib

open List

variable {α β : Type} [LinearOrder α]

/-- A key, or an end of the key space. -/
abbrev Bound (α : Type) := WithBot (WithTop α)

def fence (a : α) : Bound α := ((a : WithTop α) : WithBot (WithTop α))

@[simp] theorem fence_le_fence {a b : α} : fence a ≤ fence b ↔ a ≤ b := by
  simp [fence]

@[simp] theorem fence_lt_fence {a b : α} : fence a < fence b ↔ a < b := by
  simp [fence]

@[simp] theorem fence_lt_top (a : α) : fence a < (⊤ : Bound α) := by
  rw [fence, ← WithBot.coe_top, WithBot.coe_lt_coe]
  exact WithTop.coe_lt_top a

@[simp] theorem bot_lt_fence (a : α) : (⊥ : Bound α) < fence a := WithBot.bot_lt_coe _

/-! ## Entries in a range -/

structure Within (lo : Bound α) (es : List (α × β)) (hi : Bound α) :
    Prop where
  sorted : es.Pairwise fun a b => a.1 < b.1
  lower : ∀ e ∈ es, lo ≤ fence e.1
  upper : ∀ e ∈ es, fence e.1 < hi

namespace Within

variable {lo mid hi : Bound α} {as bs : List (α × β)}

theorem singleton {e : α × β} (hlo : lo ≤ fence e.1) (hhi : fence e.1 < hi) : Within lo [e] hi :=
  ⟨pairwise_singleton _ _, by simpa using hlo, by simpa using hhi⟩

/-- Two ranges that meet at a fence. -/
theorem append (ha : Within lo as mid) (hb : Within mid bs hi) (hlo : lo ≤ mid)
    (hhi : mid ≤ hi) : Within lo (as ++ bs) hi := by
  refine ⟨pairwise_append.mpr ⟨ha.sorted, hb.sorted, fun a hma b hmb => ?_⟩,
    fun e he => ?_, fun e he => ?_⟩
  · exact fence_lt_fence.mp ((ha.upper a hma).trans_le (hb.lower b hmb))
  · rcases mem_append.mp he with he | he
    · exact ha.lower e he
    · exact hlo.trans (hb.lower e he)
  · rcases mem_append.mp he with he | he
    · exact (ha.upper e he).trans_le hhi
    · exact hb.upper e he

end Within

/-- A list on which `P` can only turn from true to false splits there. -/
theorem exists_split {γ : Type} (P : γ → Prop) [DecidablePred P] :
    ∀ {l : List γ}, l.Pairwise (fun a b => P b → P a) →
      ∃ as bs, l = as ++ bs ∧ (∀ a ∈ as, P a) ∧ ∀ b ∈ bs, ¬ P b := by
  intro l
  induction l with
  | nil => intro _; exact ⟨[], [], rfl, by simp, by simp⟩
  | cons x l ih =>
    intro h
    obtain ⟨hx, hl⟩ := pairwise_cons.mp h
    by_cases hP : P x
    · obtain ⟨as, bs, rfl, has, hbs⟩ := ih hl
      refine ⟨x :: as, bs, rfl, fun a ha => ?_, hbs⟩
      rcases mem_cons.mp ha with rfl | ha
      · exact hP
      · exact has a ha
    · refine ⟨[], x :: l, rfl, by simp, fun b hb hPb => ?_⟩
      rcases mem_cons.mp hb with rfl | hb
      · exact hP hPb
      · exact hP (hx b hb hPb)

/-- A range around a key: the entries below it, and the rest. -/
theorem Within.cut {lo hi : Bound α} {es : List (α × β)} (h : Within lo es hi)
    (k : α) : ∃ as bs, es = as ++ bs ∧ (∀ a ∈ as, a.1 < k) ∧ ∀ b ∈ bs, k ≤ b.1 := by
  have hmono : es.Pairwise fun a b => b.1 < k → a.1 < k := h.sorted.imp fun hlt hk => hlt.trans hk
  obtain ⟨as, bs, rfl, has, hbs⟩ := exists_split (fun e : α × β => e.1 < k) hmono
  exact ⟨as, bs, rfl, has, fun b hb => not_lt.mp (hbs b hb)⟩

/-- An entry with the key at which a range is cut is the first of the rest. -/
theorem Within.mem_key_iff {lo hi : Bound α} {as bs : List (α × β)}
    (h : Within lo (as ++ bs) hi) {k : α} (has : ∀ a ∈ as, a.1 < k)
    (hbs : ∀ b ∈ bs, k ≤ b.1) (v : β) : (k, v) ∈ as ++ bs ↔ bs.head? = some (k, v) := by
  rw [mem_append]
  constructor
  · rintro (hm | hm)
    · exact absurd (has _ hm) (lt_irrefl k)
    · obtain ⟨b, bs', rfl⟩ := exists_cons_of_ne_nil (ne_nil_of_mem hm)
      rcases mem_cons.mp hm with rfl | hm
      · rfl
      · -- the first entry that is not below the key is below this one
        have hsorted := (pairwise_append.mp h.sorted).2.1
        have hlt := (pairwise_cons.mp hsorted).1 _ hm
        exact absurd (hbs b mem_cons_self) hlt.not_ge
  · exact fun hm => Or.inr (mem_of_mem_head? hm)

end RGraph.Lib
