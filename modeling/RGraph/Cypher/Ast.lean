import Mathlib
/-!
# Expressions and patterns of Cypher (`cypher/ast.rs`)

The parts of the tree the parser makes that a `CREATE`, `RETURN` or `WITH`
clause has, without the source ranges. The maps of properties in a pattern are
lists of pairs.
-/

namespace RGraph.Cypher

inductive Direction where
  | outgoing
  | incoming
  | both
  deriving DecidableEq, Repr

inductive PathLength where
  | fixed (hops : Nat)
  | range (min : Nat) (max : Option Nat)
  deriving DecidableEq, Repr

inductive BinaryOperator where
  | add
  | sub
  | mul
  | div
  | mod
  | pow
  | concat
  deriving DecidableEq, Repr

inductive ComparisonOperator where
  | eq
  | ne
  | lt
  | le
  | gt
  | ge
  deriving DecidableEq, Repr

inductive UnaryOperator where
  | not
  | neg
  deriving DecidableEq, Repr

inductive QuantifierKind where
  | all
  | any
  | none
  | single
  deriving DecidableEq, Repr

/-- A float is the bits of an IEEE-754 double. -/
inductive Literal where
  | null
  | boolean (b : Bool)
  | integer (v : Int64)
  | float (bits : UInt64)
  | string (s : String)
  | date (s : String)
  | time (s : String)
  | localTime (s : String)
  | dateTime (s : String)
  | localDateTime (s : String)
  | duration (s : String)
  deriving DecidableEq, Repr

/-! ## Expressions -/

/-- The interpreter has no graph at hand: it does not look at the pattern of a
pattern comprehension nor at the subquery of `EXISTS`. -/
inductive Expression where
  | literal (l : Literal)
  | var (name : String)
  | parameter (name : String)
  | propertyAccess (base : Expression) (property : String)
  | dynamicPropertyAccess (base index : Expression)
  | slice (base : Expression) (start stop : Option Expression)
  | binaryOp (op : BinaryOperator) (left right : Expression)
  | comparison (op : ComparisonOperator) (left right : Expression)
  | unaryOp (op : UnaryOperator) (e : Expression)
  | isNull (e : Expression)
  | isNotNull (e : Expression)
  | list (items : List Expression)
  | map (entries : List (String × Expression))
  | functionCall (name : String) (args : List Expression) (distinct : Bool)
  | and (left right : Expression)
  | or (left right : Expression)
  | xor (left right : Expression)
  | not (e : Expression)
  | startsWith (left right : Expression)
  | endsWith (left right : Expression)
  | contains (left right : Expression)
  | «in» (left right : Expression)
  | regex (left right : Expression)
  | wildcard
  | case (subject : Option Expression)
      (alternatives : List (Expression × Expression))
      (default : Option Expression)
  | listComprehension (var : String) (source : Expression)
      (filter projection : Option Expression)
  | patternComprehension
  | reduce (accumulator : String) (init : Expression) (var : String)
      (source body : Expression)
  | quantifier (kind : QuantifierKind) (var : String)
      (source filter : Expression)
  | «exists»

/-! ## Patterns -/

/-- `(var:Label {key: value})` -/
structure NodePattern where
  var : Option String
  labels : List String
  properties : List (String × Expression)

/-- `-[var:TYPE {key: value}]->` -/
structure RelationshipPattern where
  direction : Direction
  types : List String
  var : Option String
  properties : List (String × Expression)
  length : PathLength

inductive PatternElement where
  | node (n : NodePattern)
  | relationship (r : RelationshipPattern)

structure Pattern where
  elements : List PatternElement

structure NamedPattern where
  var : Option String
  pattern : Pattern

/-! ## `RETURN` and `WITH` -/

structure OrderItem where
  expression : Expression
  ascending : Bool

end RGraph.Cypher
