/-
  Sets of code points, given as ascending lists of closed ranges.

  The character classes of this library (`Text.Word`, `Text.Blank`, `Text.Hidden`) are tables of a
  published standard; all of them are read by the one membership test of this module, which stops
  at the first range that lies beyond the code point asked for.
-/

namespace BranchProbe.Text

/-- Is `n` in one of the closed ranges?  The ranges are ascending, so the search ends at the first
    one that starts above `n`. -/
def inRanges : List (Nat × Nat) → Nat → Bool
  | [], _ => false
  | (low, high) :: rest, n => if n < low then false else n ≤ high || inRanges rest n

/-- The ranges follow each other with a gap between any two. -/
def Ascending : List (Nat × Nat) → Bool
  | [] => true
  | [(low, high)] => low ≤ high
  | (low, high) :: (low', high') :: rest =>
    low ≤ high && high < low' && Ascending ((low', high') :: rest)

end BranchProbe.Text
