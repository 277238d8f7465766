/-
  Values bound to input variables.

  1. A value is a flag, a whole number, a float or a text; anything else a document may hold
     (null, a list, an object) is kept as it is.
  2. `InputValue.ofJson` classes a document's value: a whole number beyond 64 signed bits is a
     float.  `InputValue.toJson` is its inverse on what it produces.
  3. `InputValue.display` is the form shown to people.
-/
import BranchProbe.Json.Printer
import BranchProbe.Text.Quoted

namespace BranchProbe

/-- The value of an input variable. -/
inductive InputValue where
  | bool (b : Bool)
  | integer (n : Int64)
  | float (x : Float)
  | text (s : String)
  | other (value : Json)
  deriving Repr, Inhabited

namespace InputValue

/-- Whole numbers and floats are numeric. -/
def isNumeric : InputValue → Bool
  | .integer _ | .float _ => true
  | .bool _ | .text _ | .other _ => false

/-- The class of a number of a document. -/
def ofNumber : Json.Number → InputValue
  | .natural n =>
    if n.toNat < Nat.pow 2 63 then .integer (Int64.ofNat n.toNat)
    else .float (Float.ofNat n.toNat)
  | .negative n _ => .integer n
  | .float x => .float x

/-- The class of a document's value. -/
def ofJson : Json → InputValue
  | .bool b => .bool b
  | .number n => ofNumber n
  | .text s => .text s
  | value => .other value

/-- The value as a document holds it. -/
def toJson : InputValue → Json
  | .bool b => .bool b
  | .integer n => .ofInt64 n
  | .float x => .ofFloat x
  | .text s => .text s
  | .other value => value

/-- The value as shown to people: texts are quoted, all else is written plainly. -/
def display : InputValue → String
  | .bool b => if b then "true" else "false"
  | .integer n => toString n.toInt
  | .float x => Numeral.plainText x
  | .text s => Text.quoted s
  | .other value => value.print

end InputValue

end BranchProbe
