/-
  Assignments of values to input variables.

  An assignment holds its variables in ascending order, so listings and documents show them in
  that order.
-/
import BranchProbe.Assignment.Value
import BranchProbe.SortedMap

namespace BranchProbe

/-- Values of input variables, by name. -/
abbrev Assignment := SortedMap String InputValue

namespace Assignment

/-- The assignment as a document holds it. -/
def toJson (a : Assignment) : Json := .object (a.entries.map fun e => (e.1, e.2.toJson))

/-- The assignment in one line, `name = value` between commas. -/
def display (a : Assignment) : String :=
  ", ".intercalate (a.entries.map fun e => e.1 ++ " = " ++ e.2.display)

end Assignment

end BranchProbe
