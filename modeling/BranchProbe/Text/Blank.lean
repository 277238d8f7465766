/-
  White space (Unicode 17): the characters that may stand between the parts of a comparison.
-/
import BranchProbe.Text.Ranges

namespace BranchProbe.Text

/-- Code points with the property White_Space. -/
def blankRanges : List (Nat × Nat) :=
  [(0x9, 0xd), (0x20, 0x20), (0x85, 0x85), (0xa0, 0xa0), (0x1680, 0x1680), (0x2000, 0x200a),
   (0x2028, 0x2029), (0x202f, 0x202f), (0x205f, 0x205f), (0x3000, 0x3000)]

/-- A white space character of any script. -/
def isBlank (c : Char) : Bool := inRanges blankRanges c.toNat

end BranchProbe.Text
