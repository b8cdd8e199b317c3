import RGraph.Cypher.Ast
import RGraph.Graph.Catalog
import RGraph.Graph.Property

/-!
# Values and their evaluation (`cypher/value.rs`, `cypher/interpreter.rs`)

A row of a query maps variables to values. A node or relationship in a row is
a copy: its properties are those that were read when it was put there.

What the operators need of the interpreter is the value of a variable, of a
parameter, of a literal and of a property of these. The other forms of
expression, the arithmetic and comparison of values and the printed form of an
expression are inputs, `Builtins`.
-/

namespace RGraph.Cypher

open RGraph.Graph RGraph.GraphApi

structure NodeValueOf (α : Type) where
  id : Nat
  labels : List String
  properties : List (String × α)

structure RelationshipValueOf (α : Type) where
  id : Nat
  relType : String
  sourceId : Nat
  targetId : Nat
  properties : List (String × α)

/-- Maps are lists of pairs without a key that occurs twice. A float is the
bits of an IEEE-754 double. -/
inductive Value where
  | null
  | boolean (b : Bool)
  | integer (v : Int64)
  | float (bits : UInt64)
  | string (s : String)
  | list (items : List Value)
  | map (entries : List (String × Value))
  | node (n : NodeValueOf Value)
  | relationship (r : RelationshipValueOf Value)
  | path (nodes : List (NodeValueOf Value))
      (relationships : List (RelationshipValueOf Value))
  | point (x y : UInt64) (srid : Option UInt32)

abbrev NodeValue := NodeValueOf Value

namespace Value

def fromProperty : Property → Value
  | .null => .null
  | .boolean b => .boolean b
  | .integer v => .integer v
  | .float bits => .float bits
  | .string s => .string s
  | .other => .null

def typeName : Value → String
  | .null => "Null"
  | .boolean _ => "Boolean"
  | .integer _ => "Integer"
  | .float _ => "Float"
  | .string _ => "String"
  | .list _ => "List"
  | .map _ => "Map"
  | .node _ => "Node"
  | .relationship _ => "Relationship"
  | .path .. => "Path"
  | .point .. => "Point"

end Value

/-- `value_to_property` -/
def valueToProperty : Value → Option Property
  | .null => some .null
  | .boolean b => some (.boolean b)
  | .integer v => some (.integer v)
  | .float bits => some (.float bits)
  | .string s => some (.string s)
  | _ => none

/-! ## Evaluation -/

abbrev Row := Std.ExtTreeMap String Value

structure EvalContext where
  bindings : Row
  parameters : Row

structure EvalError where
  message : String
  deriving DecidableEq, Repr

/-- `Display` of an error. -/
def EvalError.text (e : EvalError) : String := "evaluation error: " ++ e.message

structure Builtins where
  /-- `Display` of an expression. -/
  display : Expression → String
  /-- `evaluate` on the forms that are not spelled out below. -/
  evaluateOther : Expression → EvalContext → Except EvalError Value
  /-- `Value::cypher_compare` -/
  cypherCompare : Value → Value → Option Ordering
  /-- `Value::cypher_eq` -/
  cypherEq : Value → Value → Option Value
  /-- The derived equality of values. -/
  same : Value → Value → Bool
  add : Value → Value → Option Value
  div : Value → Value → Option Value
  asInteger : Value → Option Int64

def evalLiteral : Literal → Value
  | .null => .null
  | .boolean b => .boolean b
  | .integer v => .integer v
  | .float bits => .float bits
  | .string s | .date s | .time s | .localTime s | .dateTime s
  | .localDateTime s | .duration s => .string s

def accessProperty (base : Value) (property : String) : Except EvalError Value :=
  match base with
  | .map entries => .ok ((entries.lookup property).getD .null)
  | .node n => .ok ((n.properties.lookup property).getD .null)
  | .relationship r => .ok ((r.properties.lookup property).getD .null)
  | .null => .ok .null
  | v =>
    let kind := v.typeName
    .error ⟨s!"cannot access property '{property}' on value of type " ++ s!"'{kind}'"⟩

def evaluate (b : Builtins) (ctx : EvalContext) :
    Expression → Except EvalError Value
  | .literal l => .ok (evalLiteral l)
  | .var name =>
    match ctx.bindings[name]? with
    | some v => .ok v
    | none => .error ⟨s!"undefined variable '{name}'"⟩
  | .parameter name =>
    match ctx.parameters[name]? with
    | some v => .ok v
    | none => .error ⟨s!"unbound parameter '${name}'"⟩
  | .propertyAccess base property => do
    accessProperty (← evaluate b ctx base) property
  | .patternComprehension => .ok (.list [])
  | .exists => .ok .null
  | e => b.evaluateOther e ctx

end RGraph.Cypher
