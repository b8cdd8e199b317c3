import RGraph.Cypher.Parser
import RGraph.Lib.Precedence

/-!
# Precedence of the operators

`parse_expression` reads a sequence of operands and operators as the tree in
which every level goes to the left. For the power that is not what the table
is meant to say: its right binding power is larger than the left one, so an
operand of a power ends before the next power.
-/

namespace RGraph.Cypher

open RGraph.Lib Call InfixTree

/-! ## Sequences -/

/-- The levels, from the loosest to the tightest. -/
def InfixOp.level : InfixOp → Nat
  | or => 0
  | xor => 1
  | and => 2
  | eq | ne | lt | gt | le | ge | «in» | contains | starts | ends => 3
  | add | sub => 4
  | mul | div | mod => 5
  | pow => 6

/-- The words that are no variables. -/
def reservedNames : List String :=
  ["TRUE", "FALSE", "NULL", "CASE", "REDUCE", "ALL", "ANY", "NONE", "SINGLE", "EXISTS"]

/-- A variable or a literal. -/
def Token.operand : Token → Option Expression
  | ident name =>
    if name.toUpper ∈ reservedNames then none else some (.var name)
  | t => t.literal.map .literal

structure Operand where
  token : Token
  expression : Expression
  reads : token.operand = some expression

/-- An operator, as it is written, and the operand after it. -/
structure Infix where
  op : InfixOp
  token : Token
  operand : Operand
  reads : token.infixOp = some (some op)

def Infix.tokens (i : Infix) : List Token :=
  (if i.op = .starts ∨ i.op = .ends then [i.token, .with] else [i.token]) ++
    [i.operand.token]

def Infix.pair (i : Infix) : InfixOp × Expression := (i.op, i.operand.expression)

def sequenceTokens (items : List Infix) : List Token := items.flatMap Infix.tokens

/-- The expression that a tree of operators stands for. -/
def treeExpression : InfixTree InfixOp Expression → Expression
  | leaf e => e
  | node op l r => op.build (treeExpression l) (treeExpression r)

/-! ## The tree that is read -/

theorem bindingPower_eq (op : InfixOp) : infixBindingPower op =
    (10 * (op.level + 1), 10 * (op.level + 1) + 1) := by
  cases op <;> rfl

/-- What comes next is an operator or the end. -/
def Stops (ts : List Token) : Prop := ∀ t ∈ ts.head?, t.infixOp.isSome

theorem stops_sequence (items : List Infix) : Stops (sequenceTokens items) := by
  intro t ht
  cases items with
  | nil => cases ht
  | cons i items =>
    have htoken : i.token = t := by
      rw [sequenceTokens, List.flatMap_cons, Infix.tokens] at ht
      split at ht <;> simpa using ht
    simp [← htoken, i.reads]

variable {c : Compound} {ts : List Token} {fuel : Nat}

theorem peek_eq (ts : List Token) : peek ts = .ok (.ok (ts.headD .eof), ts) := rfl

theorem Stops.headD_ne (h : Stops ts) {t : Token} (ht : t.infixOp = none)
    (heof : t ≠ .eof) : ts.headD .eof ≠ t := by
  cases ts with
  | nil => exact heof.symm
  | cons t' ts =>
    rintro rfl
    exact absurd (h t' rfl) (by simpa using ht)

theorem parsePostfix_stops (h : Stops ts) (e : Expression) :
    parsePostfix c (fuel + 1) e ts = .ok (.ok e, ts) := by
  have hdot := h.headD_ne (t := .dot) rfl nofun
  have hbracket := h.headD_ne (t := .lBracket) rfl nofun
  rw [parsePostfix, bind_of_ok (peek_eq ts)]
  generalize ts.headD .eof = t at hdot hbracket
  cases t <;> first | rfl | contradiction

theorem parseIdentPrimary_var (h : Stops ts) {name : String}
    (hname : name.toUpper ∉ reservedNames) :
    parseIdentPrimary c (fuel + 1) name ts = .ok (.ok (.var name), ts) := by
  have hword : parseIdentPrimary c (fuel + 1) name = (do
      if (← peek) = .lParen then
        advance
        let call ← c.arguments
        parsePostfix c (fuel + 1) (.functionCall name call.1 call.2)
      else parsePostfix c (fuel + 1) (.var name)) := by
    rw [parseIdentPrimary]
    split <;> first
      | rfl
      | exact absurd (by simp [reservedNames, *]) hname
  rw [hword, bind_of_ok (peek_eq ts), if_neg (h.headD_ne (t := .lParen) rfl (by simp))]
  exact parsePostfix_stops h _

theorem parseUnary_operand (expr : Nat → Parse Expression) (o : Operand)
    (h : Stops ts) : parseUnary c expr (fuel + 1) (o.token :: ts) = .ok (.ok o.expression, ts) := by
  obtain ⟨token, e, hreads⟩ := o
  rw [parseUnary, bind_of_ok (peek_eq _)]
  cases token with
  | ident name =>
    rw [Token.operand] at hreads
    split at hreads
    · cases hreads
    · next hname =>
        cases hreads
        exact (bind_of_ok (parseIdentPrimary_var h hname) _).trans (parsePostfix_stops h _)
  | _ => cases hreads <;> exact parsePostfix_stops h _

theorem isNullLoop_stops (h : Stops ts) (e : Expression) :
    isNullLoop (fuel + 1) e ts = .ok (.ok e, ts) := by
  have his := h.headD_ne (t := .is) rfl nofun
  rw [isNullLoop, bind_of_ok (peek_eq ts), if_neg his]
  rfl

/-- What is read of a sequence, after `before`: a tree of operators that bind
at least as tight as `minBp`, up to one that does not. -/
structure Climbed (minBp : Nat) (before : List (InfixOp × Expression))
    (items : List Infix) (t : InfixTree InfixOp Expression)
    (left : List Infix) : Prop where
  rest : t.rest ++ left.map Infix.pair = before ++ items.map Infix.pair
  grouped : t.Grouped InfixOp.level fun _ => False
  root : ∀ o ∈ t.root, minBp ≤ (infixBindingPower o).1
  stop : ∀ i ∈ left.head?, (infixBindingPower i.op).1 < minBp

/-- What `parse_expression` does on fewer than `n` operators. -/
def ReadsBelow (n : Nat) (expr : Nat → Parse Expression) : Prop :=
  ∀ minBp (first : Operand) (items : List Infix), items.length < n →
    ∃ t left, expr minBp (first.token :: sequenceTokens items) =
        .ok (.ok (treeExpression t), sequenceTokens left) ∧
      t.first = first.expression ∧ Climbed minBp [] items t left

theorem consumeInfix_eq {expr : Nat → Parse Expression} (lhs : Expression)
    (i : Infix) (ts : List Token) :
    consumeInfix expr lhs (some i.op) (i.tokens ++ ts) =
      (do return i.op.build lhs (← expr (infixBindingPower i.op).2))
        (i.operand.token :: ts) := by
  rw [consumeInfix, Infix.tokens]
  split <;> rfl

/-- The loop keeps a tree to which the next operator can be added on top. -/
theorem infixLoop_climbs {n minBp : Nat} {expr : Nat → Parse Expression}
    (hexpr : ReadsBelow n expr) (k : Nat) (items : List Infix)
    (lhs : InfixTree InfixOp Expression) (hk : items.length < k) (hn : items.length ≤ n)
    (hgrouped : lhs.Grouped InfixOp.level fun _ => False)
    (hroot : ∀ o ∈ lhs.root, minBp ≤ (infixBindingPower o).1)
    (hhead : ∀ i ∈ items.head?, ∀ o ∈ lhs.root, i.op.level ≤ o.level) :
    ∃ t left, infixLoop expr minBp k (treeExpression lhs) (sequenceTokens items) =
          .ok (.ok (treeExpression t), sequenceTokens left) ∧
      t.first = lhs.first ∧ Climbed minBp lhs.rest items t left := by
  induction k generalizing items lhs with
  | zero => exact absurd hk (Nat.not_lt_zero _)
  | succ k ih =>
  cases items with
  | nil =>
    refine ⟨lhs, [], rfl, rfl, rfl, hgrouped, hroot, fun _ h => ?_⟩
    cases h
  | cons i items =>
    have hpeek : (sequenceTokens (i :: items)).headD .eof = i.token := by
      rw [sequenceTokens, List.flatMap_cons, Infix.tokens]
      split <;> rfl
    rw [infixLoop, bind_of_ok (peek_eq _), hpeek, i.reads]
    by_cases hbp : (infixBindingPower i.op).1 < minBp
    · refine ⟨lhs, i :: items, congrFun (if_pos hbp) _, rfl, rfl, hgrouped, hroot, ?_⟩
      rintro _ ⟨⟩
      exact hbp
    obtain ⟨r, left, hr, hfirst, hclimb⟩ := hexpr (infixBindingPower i.op).2 i.operand items hn
    have hleft : left.length ≤ items.length := by
      have := congrArg List.length hclimb.rest
      simp only [List.length_append, List.length_map, List.nil_append] at this
      omega
    have hnode : (node i.op lhs r).Grouped InfixOp.level fun _ => False := by
      refine ⟨fun o ho => ?_, fun o ho => ?_, hgrouped, hclimb.grouped⟩
      · rcases Nat.lt_or_eq_of_le (hhead i rfl o ho) with hlt | heq
        · exact .inl hlt
        · exact .inr ⟨heq, not_false⟩
      · have := hclimb.root o ho
        simp only [bindingPower_eq] at this
        exact .inl (by omega)
    obtain ⟨t, left', ht, htfirst, hend⟩ := ih left (node i.op lhs r)
      (Nat.lt_of_le_of_lt hleft (Nat.lt_of_succ_lt_succ hk))
      (Nat.le_trans hleft (Nat.le_of_lt hn)) hnode
      (by rintro _ ⟨⟩; exact Nat.le_of_not_lt hbp) (by
        rintro j hj _ ⟨⟩
        have := hclimb.stop j hj
        simp only [bindingPower_eq] at this
        omega)
    have hconsume : consumeInfix expr (treeExpression lhs) (some i.op)
        (sequenceTokens (i :: items)) =
          .ok (.ok (treeExpression (node i.op lhs r)), sequenceTokens left) :=
      (consumeInfix_eq _ i _).trans (bind_of_ok hr _)
    refine ⟨t, left', (congrFun (if_neg hbp) _).trans
      ((bind_of_ok hconsume _).trans ht), htfirst, ?_, hend.grouped,
      hend.root, hend.stop⟩
    have hrest : r.rest ++ left.map Infix.pair = items.map Infix.pair := hclimb.rest
    rw [hend.rest, InfixTree.rest, hfirst, List.append_assoc, List.cons_append, hrest]
    rfl

theorem parseExpression_climbs (c : Compound) (n fuel : Nat)
    (hfuel : n < fuel) : ReadsBelow n (parseExpression c fuel) := by
  induction n generalizing fuel with
  | zero => exact fun _ _ _ h => absurd h (Nat.not_lt_zero _)
  | succ n ih =>
    intro minBp first items hitems
    obtain ⟨k, rfl⟩ : ∃ k, fuel = k + 2 := ⟨fuel - 2, by omega⟩
    have hroot : ∀ o ∈ (leaf first.expression : InfixTree InfixOp _).root,
        minBp ≤ (infixBindingPower o).1 := nofun
    obtain ⟨t, left, ht, hfirst, hclimb⟩ := infixLoop_climbs
      (ih (k + 1) (by omega)) (k + 1) items (leaf first.expression)
      (by omega) (Nat.le_of_lt_succ hitems) trivial hroot
      (fun _ _ => nofun)
    refine ⟨t, left, ?_, hfirst, hclimb⟩
    rw [parseExpression, bind_of_ok (parseUnary_operand _ first (stops_sequence items))]
    exact (bind_of_ok ht _).trans (isNullLoop_stops (stops_sequence left) _)

/-! ## Powers -/

/-- No power stands right after a power. -/
def PowersApart (ops : List InfixOp) : Prop := ops.IsChain fun o o' => o = .pow → o' ≠ .pow

theorem InfixOp.level_eq_pow {o : InfixOp} (h : InfixOp.pow.level ≤ o.level) : o = .pow := by
  revert h
  cases o <;> decide

theorem pow_right_leaf {l r : InfixTree InfixOp Expression}
    (h : (node .pow l r).Grouped InfixOp.level fun _ => False) : ∃ e, r = leaf e := by
  cases r with
  | leaf e => exact ⟨e, rfl⟩
  | node o _ _ =>
    rcases h.2.1 o rfl with hlt | ⟨-, hfalse⟩
    · exact absurd (InfixOp.level_eq_pow hlt.le) (by rintro rfl; simp at hlt)
    · exact hfalse.elim

/-- The tree in which every level goes to the left is the one in which the
power goes to the right only if there is no choice. -/
theorem grouped_pow_iff {t : InfixTree InfixOp Expression}
    (h : t.Grouped InfixOp.level fun _ => False) : (t.Grouped InfixOp.level fun o => o = .pow) ↔
      PowersApart (t.rest.map Prod.fst) := by
  induction t with
  | leaf e => exact ⟨fun _ => .nil, fun _ => trivial⟩
  | node op l r ihl ihr =>
    have ⟨hl, hr, hgl, hgr⟩ := h
    by_cases hpow : op = .pow
    · subst hpow
      obtain ⟨e, rfl⟩ := pow_right_leaf h
      cases l with
      | leaf a => simp [Grouped, PowersApart, InfixTree.rest, InfixTree.root]
      | node o l r =>
        -- Two powers in a row, and the second one is on top.
        obtain rfl : o = .pow := InfixOp.level_eq_pow ((hl o rfl).elim le_of_lt (·.1.le))
        obtain ⟨e', rfl⟩ := pow_right_leaf hgl
        simp [Grouped, PowersApart, InfixTree.rest, InfixTree.root, List.isChain_append]
    · have hsides : (node op l r).Grouped InfixOp.level (fun o => o = .pow) ↔
          (l.Grouped InfixOp.level fun o => o = .pow) ∧
          (r.Grouped InfixOp.level fun o => o = .pow) := by
        simp only [Grouped, hpow, not_false_eq_true, and_true, and_false, or_false] at hl hr ⊢
        exact ⟨fun h => h.2.2, fun h => ⟨hl, hr, h⟩⟩
      rw [hsides, ihl hgl, ihr hgr]
      simp [PowersApart, InfixTree.rest, List.isChain_append, List.isChain_cons, hpow]

/-- A sequence is read as a whole. The tree is the one in which every level
but the power goes to the left, and the power to the right, unless a power
stands right after a power. -/
theorem parse_sequence_iff (c : Compound) (first : Operand)
    (items : List Infix) (fuel : Nat) (hfuel : items.length + 2 ≤ fuel) :
    ∃ t, parseExpression c fuel 0 (first.token :: sequenceTokens items) =
        .ok (.ok (treeExpression t), []) ∧
      t.first = first.expression ∧ t.rest = items.map Infix.pair ∧
      (((t.Grouped InfixOp.level fun o => o = .pow) ∧
          ∀ t' : InfixTree InfixOp Expression, (t'.Grouped InfixOp.level fun o => o = .pow) →
            t'.first = first.expression → t'.rest = items.map Infix.pair →
            t' = t) ↔
        PowersApart (items.map Infix.op)) := by
  obtain ⟨t, left, ht, hfirst, hclimb⟩ :=
    parseExpression_climbs c (items.length + 1) fuel hfuel 0 first items
      (Nat.lt_succ_self _)
  obtain rfl : left = [] := by
    cases left with
    | nil => rfl
    | cons i left => exact absurd (hclimb.stop i rfl) (Nat.not_lt_zero _)
  have hrest : t.rest = items.map Infix.pair := by
    simpa using hclimb.rest
  refine ⟨t, ht, hfirst, hrest, ?_⟩
  have hops : t.rest.map Prod.fst = items.map Infix.op := by
    rw [hrest, List.map_map]
    rfl
  rw [← hops, ← grouped_pow_iff hclimb.grouped]
  refine ⟨And.left, fun h => ⟨h, fun t' ht' hfirst' hrest' => ?_⟩⟩
  have hside : ∀ o o' : InfixOp, o.level = o'.level →
      (o = .pow ↔ o' = .pow) := by
    intro o o' hlevel
    constructor
    · rintro rfl
      exact InfixOp.level_eq_pow hlevel.le
    · rintro rfl
      exact InfixOp.level_eq_pow hlevel.ge
  exact ht'.unique hside h (hfirst'.trans hfirst.symm) (hrest'.trans hrest.symm)

/-- No compound primary is read. -/
def noCompound : Compound :=
  let none {α : Type} : Parse α := fail .unknownInfix
  ⟨none, none, none, none, fun _ => none, none, none, fun _ => none⟩

def Operand.number (v : Int64) : Operand := ⟨.integer v, .literal (.integer v), rfl⟩

def Infix.power (v : Int64) : Infix := ⟨.pow, .caret, .number v, rfl⟩

/-- `2 ^ 3 + 1` -/
theorem parse_sequence_iff_power : PowersApart [.pow, .add] ∧ ∃ t, parseExpression noCompound 4 0
        [.integer 2, .caret, .integer 3, .plus, .integer 1] = .ok (.ok (treeExpression t), []) ∧
      t.Grouped InfixOp.level fun o => o = .pow := by
  have happart : PowersApart [.pow, .add] := by
    simp [PowersApart]
  obtain ⟨t, ht, -, -, hiff⟩ := parse_sequence_iff noCompound (.number 2)
    [.power 3, ⟨.add, .plus, .number 1, rfl⟩] 4 (by decide)
  exact ⟨happart, t, ht, (hiff.mpr happart).1⟩

/-- `2 ^ 3 ^ 2` is read as `(2 ^ 3) ^ 2`. -/
theorem powers_go_to_the_left :
    let number (v : Int64) : InfixTree InfixOp Expression :=
      leaf (.literal (.integer v))
    let left := node InfixOp.pow (node .pow (number 2) (number 3)) (number 2)
    let right := node InfixOp.pow (number 2) (node .pow (number 3) (number 2))
    parseExpression noCompound 4 0
        [.integer 2, .caret, .integer 3, .caret, .integer 2] =
          .ok (.ok (treeExpression left), []) ∧
      (right.Grouped InfixOp.level fun o => o = .pow) ∧
      right.first = left.first ∧ right.rest = left.rest ∧
      treeExpression left ≠ treeExpression right := by
  refine ⟨rfl, ?_, rfl, rfl, ?_⟩
  · simp [Grouped, InfixTree.root]
  · simp [treeExpression, InfixOp.build]

end RGraph.Cypher
