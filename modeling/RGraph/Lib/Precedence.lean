import Mathlib.Data.List.Basic

/-!
# Operator precedence

A sequence of operands with an operator between any two can be read as many
trees. Levels of the operators and a side for each level leave one of them: an
operator that binds tighter stands below one that binds looser, and among
operators of one level the last stands on top, or the first if the level goes
to the right.
-/

namespace RGraph.Lib

inductive InfixTree (ο α : Type) where
  | leaf (a : α)
  | node (op : ο) (left right : InfixTree ο α)

namespace InfixTree

variable {ο α : Type}

/-- The first operand. -/
def first : InfixTree ο α → α
  | leaf a => a
  | node _ l _ => l.first

/-- The operators, each with the operand after it. -/
def rest : InfixTree ο α → List (ο × α)
  | leaf _ => []
  | node op l r => l.rest ++ (op, r.first) :: r.rest

def root : InfixTree ο α → Option ο
  | leaf _ => none
  | node op _ _ => some op

/-- Every operator stands where its level and the side of its level put it. -/
def Grouped (level : ο → Nat) (right : ο → Prop) : InfixTree ο α → Prop
  | leaf _ => True
  | node op l r =>
    (∀ o ∈ l.root, level op < level o ∨ level op = level o ∧ ¬ right op) ∧
    (∀ o ∈ r.root, level op < level o ∨ level op = level o ∧ right op) ∧
    l.Grouped level right ∧ r.Grouped level right

variable {level : ο → Nat} {right : ο → Prop} {op op' : ο}
  {t t' l l' r r' : InfixTree ο α} {p : ο × α}

theorem exists_root (h : p ∈ t.rest) : ∃ o, t.root = some o := by
  cases t with
  | leaf => cases h
  | node op l r => exact ⟨op, rfl⟩

/-- The operator on top is among the loosest. -/
theorem Grouped.root_le (h : t.Grouped level right) (hp : p ∈ t.rest)
    (ho : op ∈ t.root) : level op ≤ level p.1 := by
  induction t generalizing op with
  | leaf => cases hp
  | node o l r ihl ihr =>
    cases ho
    obtain ⟨hl, hr, hgl, hgr⟩ := h
    rcases List.mem_append.mp hp with hp | hp
    · obtain ⟨o', ho'⟩ := exists_root hp
      have := ihl hgl hp ho'
      rcases hl o' ho' with hlt | ⟨heq, -⟩ <;> omega
    · rcases List.mem_cons.mp hp with rfl | hp
      · exact Nat.le_refl _
      · obtain ⟨o', ho'⟩ := exists_root hp
        have := ihr hgr hp ho'
        rcases hr o' ho' with hlt | ⟨heq, -⟩ <;> omega

/-- An operator on top has on its far side tighter ones only. -/
theorem Grouped.lt_of_mem_left (h : (node op l r).Grouped level right)
    (hright : right op) (hp : p ∈ l.rest) : level op < level p.1 := by
  obtain ⟨o, ho⟩ := exists_root hp
  have := h.2.2.1.root_le hp ho
  rcases h.1 o ho with hlt | ⟨-, hnot⟩
  · omega
  · exact absurd hright hnot

theorem Grouped.lt_of_mem_right (h : (node op l r).Grouped level right)
    (hright : ¬ right op) (hp : p ∈ r.rest) : level op < level p.1 := by
  obtain ⟨o, ho⟩ := exists_root hp
  have := h.2.2.2.root_le hp ho
  rcases h.2.1 o ho with hlt | ⟨-, hr⟩
  · omega
  · exact absurd hr hright

variable (hside : ∀ o o', level o = level o' → (right o ↔ right o'))
include hside

/-- Of two operators on top of one sequence none stands before the other: it
would be left of the other, which would be right of it. -/
theorem Grouped.length_le (h : (node op l r).Grouped level right)
    (h' : (node op' l' r').Grouped level right)
    (hrest : (node op l r).rest = (node op' l' r').rest) : l'.rest.length ≤ l.rest.length := by
  rcases List.append_eq_append_iff.mp hrest with ⟨x, hl, hr⟩ | ⟨x, hl, -⟩
  · cases x with
    | nil => simp [hl]
    | cons p x =>
      obtain ⟨rfl, htail⟩ := List.cons.inj hr
      have hop : (op, r.first) ∈ l'.rest := by simp [hl]
      have hop' : (op', r'.first) ∈ r.rest := by simp [htail]
      have hle := h.root_le (List.mem_append_right _ (.tail _ hop')) rfl
      have hge := h'.root_le (List.mem_append_left _ hop) rfl
      have hlevel := Nat.le_antisymm hle hge
      by_cases hside' : right op
      · have := h'.lt_of_mem_left ((hside _ _ hlevel).mp hside') hop
        exact absurd hle (Nat.not_le.mpr this)
      · have := h.lt_of_mem_right hside' hop'
        exact absurd hge (Nat.not_le.mpr this)
  · simp [hl]

/-- One tree at most is grouped so. -/
theorem Grouped.unique (h : t.Grouped level right)
    (h' : t'.Grouped level right) (hfirst : t.first = t'.first)
    (hrest : t.rest = t'.rest) : t = t' := by
  induction t generalizing t' with
  | leaf a =>
    cases t' with
    | leaf b => exact congrArg leaf hfirst
    | node op' l' r' => exact absurd hrest.symm (by simp [rest])
  | node op l r ihl ihr =>
    cases t' with
    | leaf b => exact absurd hrest (by simp [rest])
    | node op' l' r' =>
      have hlength := Nat.le_antisymm (h'.length_le hside h hrest.symm)
        (h.length_le hside h' hrest)
      obtain ⟨hl, hr⟩ := List.append_inj hrest hlength
      obtain ⟨hop, htail⟩ := List.cons.inj hr
      obtain ⟨rfl, hf⟩ := Prod.mk.inj hop
      rw [ihl h.2.2.1 h'.2.2.1 hfirst hl, ihr h.2.2.2 h'.2.2.2 hf htail]

end InfixTree

end RGraph.Lib
