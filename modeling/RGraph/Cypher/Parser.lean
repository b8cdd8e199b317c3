import RGraph.Cypher.Ast
import RGraph.Lib.Fault

/-!
# The parser of expressions (`cypher/parser.rs`)

The state of the parser is the list of tokens from its position on, without
the `Eof` at its end and without the source ranges. The parser of an operand
calls others for what has brackets or a word of its own; these are inputs,
`Compound`.
-/

namespace RGraph.Cypher

open RGraph.Lib Call

inductive Token where
  | ident (s : String)
  | parameter (s : String)
  | string (s : String)
  | integer (v : Int64)
  | float (bits : UInt64)
  | dateLiteral (s : String)
  | timeLiteral (s : String)
  | dateTimeLiteral (s : String)
  | durationLiteral (s : String)
  | «match» | «return» | «where» | create | delete | set | remove | merge
  | «with» | unwind | union | unionAll | call
  | distinct | as | asc | desc | skip | limit | order | «by» | on | when
  | «then» | «else» | case | «end» | «in» | contains | starts | ends | and | or
  | not | is | nullKw | trueKw | falseKw
  | lParen | rParen | lBracket | rBracket | lBrace | rBrace | colon | comma
  | semi | dot | arrow | lArrow | dash | pipe | star | plus | slash | percent
  | caret | eq | ne | lt | gt | le | ge | assign
  | eof
  | error (s : String)
  deriving DecidableEq, Repr

/-- What the message of an error says. -/
inductive ParseError where
  | expected (token got : Token)
  | expectedIdentifier (got : Token)
  | unexpectedInExpression (got : Token)
  | expectedNull (afterNot : Bool)
  | unknownInfix
  deriving DecidableEq, Repr

/-- An error with its place; the span is in bytes. -/
structure LocatedError where
  error : ParseError
  offset : Nat
  line : Nat
  column : Nat
  span : Option (Nat × Nat)

/-- The loop of `offset_to_line_col`: the characters that are left, the index
of the first of them, the line and the column. -/
def lineColLoop (offset : Nat) : List Char → Nat → Nat × Nat → Nat × Nat
  | [], _, lc => lc
  | c :: cs, i, (line, col) =>
    if offset ≤ i then (line, col)
    else lineColLoop offset cs (i + 1) (if c = '\n' then (line + 1, 1) else (line, col + 1))

def offsetToLineCol (source : List Char) (offset : Nat) : Nat × Nat :=
  lineColLoop offset source 0 (1, 1)

/-- `Parser::error` at a token with this span. Only the error of
`consume_infix` has no place. -/
def ParseError.locate (source : List Char) (span : Nat × Nat) :
    ParseError → LocatedError
  | unknownInfix => ⟨unknownInfix, 0, 0, 0, none⟩
  | e =>
    let (line, column) := offsetToLineCol source span.1
    ⟨e, span.1, line, column, some span⟩

abbrev Parse (α : Type) := Call (List Token) ParseError α

def peek : Parse Token := do return (← get).headD .eof

def advance : Parse Unit := modify List.tail

def expect (token : Token) : Parse Unit := do
  let got ← peek
  if got = token then advance else fail (.expected token got)

def expectIdent : Parse String := do
  match ← peek with
  | .ident s =>
    advance
    pure s
  | got => fail (.expectedIdentifier got)

structure Compound where
  /-- `parse_list_or_comprehension` -/
  list : Parse Expression
  /-- `parse_map_literal` -/
  map : Parse Expression
  /-- `parse_case_expression` -/
  case : Parse Expression
  /-- `parse_reduce_expression` -/
  reduce : Parse Expression
  /-- `parse_quantifier` -/
  quantifier : QuantifierKind → Parse Expression
  /-- `parse_exists` -/
  «exists» : Parse Expression
  /-- The arguments of a function, after the `(`. -/
  arguments : Parse (List Expression × Bool)
  /-- An index or a slice, after the `[`. -/
  index : Expression → Parse Expression

/-! ## Operators -/

/-- The operators that take an operand on both sides. -/
inductive InfixOp where
  | or | xor | and
  | eq | ne | lt | gt | le | ge | «in» | contains | starts | ends
  | add | sub | mul | div | mod | pow
  deriving DecidableEq, Repr

/-- `current_infix_op`: `some none` is `NOT`, which is not one. -/
def Token.infixOp : Token → Option (Option InfixOp)
  | or => some (some .or)
  | and => some (some .and)
  | ident s => if s.toUpper = "XOR" then some (some .xor) else none
  | not => some none
  | eq => some (some .eq)
  | ne => some (some .ne)
  | lt => some (some .lt)
  | gt => some (some .gt)
  | le => some (some .le)
  | ge => some (some .ge)
  | «in» => some (some .in)
  | contains => some (some .contains)
  | starts => some (some .starts)
  | ends => some (some .ends)
  | plus => some (some .add)
  | dash => some (some .sub)
  | star => some (some .mul)
  | slash => some (some .div)
  | percent => some (some .mod)
  | caret => some (some .pow)
  | _ => none

def infixBindingPower : InfixOp → Nat × Nat
  | .or => (10, 11)
  | .xor => (20, 21)
  | .and => (30, 31)
  | .eq | .ne | .lt | .gt | .le | .ge | .in | .contains | .starts | .ends => (40, 41)
  | .add | .sub => (50, 51)
  | .mul | .div | .mod => (60, 61)
  | .pow => (70, 71)

def prefixNotBp : Nat := 35

/-- The node that `consume_infix` makes. -/
def InfixOp.build : InfixOp → Expression → Expression → Expression
  | or => .or
  | xor => .xor
  | and => .and
  | eq => .comparison .eq
  | ne => .comparison .ne
  | lt => .comparison .lt
  | gt => .comparison .gt
  | le => .comparison .le
  | ge => .comparison .ge
  | «in» => .in
  | contains => .contains
  | starts => .startsWith
  | ends => .endsWith
  | add => .binaryOp .add
  | sub => .binaryOp .sub
  | mul => .binaryOp .mul
  | div => .binaryOp .div
  | mod => .binaryOp .mod
  | pow => .binaryOp .pow

/-! ## Expressions

Each loop and each call of `parse_expression` gets rounds. -/

section Expressions

variable (c : Compound)

def parsePostfix : Nat → Expression → Parse Expression
  | 0, _ => lift (.error .diverge)
  | fuel + 1, lhs => do
    match ← peek with
    | .dot =>
      advance
      parsePostfix fuel (.propertyAccess lhs (← expectIdent))
    | .lBracket =>
      advance
      parsePostfix fuel (← c.index lhs)
    | _ => pure lhs

def parseIdentPrimary (fuel : Nat) (name : String) : Parse Expression :=
  match name.toUpper with
  | "TRUE" => pure (.literal (.boolean true))
  | "FALSE" => pure (.literal (.boolean false))
  | "NULL" => pure (.literal .null)
  | "CASE" => c.case
  | "REDUCE" => c.reduce
  | "ALL" => c.quantifier .all
  | "ANY" => c.quantifier .any
  | "NONE" => c.quantifier .none
  | "SINGLE" => c.quantifier .single
  | "EXISTS" => c.exists
  | _ => do
    if (← peek) = .lParen then
      advance
      let (args, distinct) ← c.arguments
      parsePostfix c fuel (.functionCall name args distinct)
    else parsePostfix c fuel (.var name)

/-- The literal that a token is. -/
def Token.literal : Token → Option Literal
  | nullKw => some .null
  | trueKw => some (.boolean true)
  | falseKw => some (.boolean false)
  | integer v => some (.integer v)
  | float bits => some (.float bits)
  | string s => some (.string s)
  | dateLiteral s => some (.date s)
  | timeLiteral s => some (.time s)
  | dateTimeLiteral s => some (.dateTime s)
  | durationLiteral s => some (.duration s)
  | _ => none

/-- `expr` is `parse_expression` with fewer rounds. -/
def parsePrimary (expr : Nat → Parse Expression) (fuel : Nat) :
    Parse Expression := do
  let token ← peek
  match token.literal with
  | some l =>
    advance
    pure (.literal l)
  | none =>
    match token with
    | .parameter p =>
      advance
      pure (.parameter p)
    | .lParen =>
      advance
      let e ← expr 0
      expect .rParen
      pure e
    | .lBracket => c.list
    | .lBrace => c.map
    | .star =>
      advance
      pure .wildcard
    | .case => c.case
    | .ident name =>
      advance
      parseIdentPrimary c fuel name
    | got => fail (.unexpectedInExpression got)

def parseUnary (expr : Nat → Parse Expression) (fuel : Nat) :
    Parse Expression := do
  match ← peek with
  | .not =>
    advance
    return .not (← expr prefixNotBp)
  | .dash =>
    advance
    return .unaryOp .neg (← parsePrimary c expr fuel)
  | _ => parsePostfix c fuel (← parsePrimary c expr fuel)

/-- `consume_infix`; after a `NOT` it fails in any case. -/
def consumeInfix (expr : Nat → Parse Expression) (lhs : Expression) :
    Option InfixOp → Parse Expression
  | none => do
    advance
    let _ ← expr 0
    fail .unknownInfix
  | some op => do
    advance
    if op = .starts ∨ op = .ends then expect .with
    return op.build lhs (← expr (infixBindingPower op).2)

def infixLoop (expr : Nat → Parse Expression) (minBp : Nat) :
    Nat → Expression → Parse Expression
  | 0, _ => lift (.error .diverge)
  | fuel + 1, lhs => do
    match (← peek).infixOp with
    | none => pure lhs
    | some op =>
      if (op.elim 0 fun op => (infixBindingPower op).1) < minBp then
        pure lhs
      else infixLoop expr minBp fuel (← consumeInfix expr lhs op)

/-- `NULL` as a keyword or in back quotes. -/
def Token.isNull (t : Token) : Bool :=
  match t with
  | nullKw => true
  | ident s => s.toUpper = "NULL"
  | _ => false

def isNullLoop : Nat → Expression → Parse Expression
  | 0, _ => lift (.error .diverge)
  | fuel + 1, lhs => do
    if (← peek) = .is then
      advance
      let negated := decide ((← peek) = .not)
      when negated advance
      if (← peek).isNull then
        advance
        isNullLoop fuel (if negated then .isNotNull lhs else .isNull lhs)
      else fail (.expectedNull negated)
    else pure lhs

def parseExpression : Nat → Nat → Parse Expression
  | 0, _ => lift (.error .diverge)
  | fuel + 1, minBp => do
    let lhs ← parseUnary c (parseExpression fuel) fuel
    let lhs ← infixLoop (parseExpression fuel) minBp fuel lhs
    isNullLoop fuel lhs

end Expressions

end RGraph.Cypher
