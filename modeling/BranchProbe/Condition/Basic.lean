/-
  Comparisons of an input variable with a literal, `variable operator literal`.

  1. `Operator` is a run of the characters `<>=!`; six of them have a meaning of their own.
  2. `Operator.bound` is the side of the literal on which satisfying values lie; the spelling
     alone decides it.
  3. `Literal.offset` moves a numeric literal; whole numbers stay within 64 signed bits.
-/
import BranchProbe.Assignment.Value

namespace BranchProbe

/-- A comparison operator as written in a condition. -/
inductive Operator where
  | less
  | atMost
  | greater
  | atLeast
  | equal
  | unequal
  /-- any other spelling, kept as it is -/
  | unrecognized (spelling : String)
  deriving Repr, DecidableEq

/-- The side of the literal on which satisfying values lie. -/
inductive Bound where
  | above
  | below
  | exact
  deriving Repr, DecidableEq

namespace Operator

/-- The operator with a given spelling. -/
def parse : String → Operator
  | "<" => .less
  | "<=" => .atMost
  | ">" => .greater
  | ">=" => .atLeast
  | "==" => .equal
  | "!=" => .unequal
  | spelling => .unrecognized spelling

/-- How the operator is written. -/
def spelling : Operator → String
  | .less => "<"
  | .atMost => "<="
  | .greater => ">"
  | .atLeast => ">="
  | .equal => "=="
  | .unequal => "!="
  | .unrecognized spelling => spelling

/-- A spelling with `>` in it points above the literal; any other with `<` points below. -/
def bound (op : Operator) : Bound :=
  if '>' ∈ op.spelling.toList then .above
  else if '<' ∈ op.spelling.toList then .below
  else .exact

/-- The operator as a document holds it. -/
def toJson : Operator → Json
  | .less => .text "Lt"
  | .atMost => .text "Le"
  | .greater => .text "Gt"
  | .atLeast => .text "Ge"
  | .equal => .text "Eq"
  | .unequal => .text "Ne"
  | .unrecognized spelling => .object [("Unrecognized", .text spelling)]

end Operator

/-- The word for a bound in listings. -/
def Bound.name : Bound → String
  | .above => "Above"
  | .below => "Below"
  | .exact => "Exact"

/-- The right-hand side of a comparison. -/
inductive Literal where
  | integer (n : Int64)
  | float (x : Float)
  | text (s : String)
  deriving Repr

namespace Literal

/-- A whole number held to 64 signed bits. -/
def clamp (n : Int) : Int64 := Int64.ofIntClamp n

/-- A numeric literal moved by `delta`; a text stays as it is. -/
def offset (literal : Literal) (delta : Int64) : InputValue :=
  match literal with
  | .integer n => .integer (clamp (n.toInt + delta.toInt))
  | .float x => .float (x + Float.ofInt delta.toInt)
  | .text s => .text s

/-- The value that a literal denotes. -/
def value (literal : Literal) : InputValue := literal.offset 0

/-- The literal as shown to people. -/
def display : Literal → String
  | .integer n => toString n.toInt
  | .float x => Numeral.plainText x
  | .text s => "'" ++ s ++ "'"

/-- The literal as a document holds it. -/
def toJson : Literal → Json
  | .integer n => .ofInt64 n
  | .float x => .ofFloat x
  | .text s => .text s

end Literal

/-- One comparison found in a condition. -/
structure Comparison where
  name : String
  operator : Operator
  literal : Literal
  deriving Repr

namespace Comparison

/-- The comparison as shown to people. -/
def display (c : Comparison) : String :=
  c.name ++ " " ++ c.operator.spelling ++ " " ++ c.literal.display

/-- The comparison as a document holds it. -/
def toJson (c : Comparison) : Json :=
  .object [("variable", .text c.name), ("operator", c.operator.toJson),
    ("literal", c.literal.toJson)]

end Comparison

end BranchProbe
