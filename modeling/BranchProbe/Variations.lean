/-
  Variations of an assignment, each in the value of one variable.

  1. `alternatives` gives the other values tried for a value: a number is moved ten up and ten
     down, but not below zero; a text is emptied, or filled if it was empty.
  2. `variations` tries them for one variable after the other, in ascending order of the names.
  3. `coverageSamples` puts the assignment itself in front.
-/
import BranchProbe.Assignment.Basic
import BranchProbe.Condition.Basic

namespace BranchProbe

/-- How far numbers are moved. -/
def numericStep : Int := 10

/-- The text that stands for "not empty". -/
def filledText : String := "alternative"

/-- A float held to zero or more; what is not a number counts as zero. -/
def atLeastZero (x : Float) : Float := if x > 0 then x else 0

/-- The other values tried in place of a value. -/
def InputValue.alternatives : InputValue → List InputValue
  | .integer n =>
    [.integer (Literal.clamp (n.toInt + numericStep)),
      .integer (max (Literal.clamp (n.toInt - numericStep)) 0)]
  | .float x => [.float (x + Float.ofInt numericStep), .float (atLeastZero (x - Float.ofInt numericStep))]
  | .text s => if s.isEmpty then [.text filledText] else [.text ""]
  | .bool _ | .other _ => []

namespace Assignment

/-- The assignment with one variable changed, for every variable and every alternative. -/
def variations (base : Assignment) : List Assignment :=
  base.entries.flatMap fun e => e.2.alternatives.map fun v => base.insert e.1 v

/-- The assignment followed by its variations. -/
def coverageSamples (base : Assignment) : List Assignment := base :: base.variations

end Assignment

end BranchProbe
