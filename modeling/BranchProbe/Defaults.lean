/-
  One value for every variable that a tree's conditions compare.

  The conditions are read in pre-order; the first comparison of a variable decides its value, just
  above, just below or at its literal.  The assignment seeds further probing; it satisfies each
  deciding comparison on its own, as far as its kind allows, and not the tree as a whole.
-/
import BranchProbe.Condition.Scanner
import BranchProbe.Tree.Walk
import BranchProbe.Assignment.Basic
import BranchProbe.Warned

namespace BranchProbe

/-- The value that a comparison asks for. -/
def Comparison.seed (c : Comparison) : InputValue :=
  match c.operator.bound with
  | .above => c.literal.offset 1
  | .below => c.literal.offset (-1)
  | .exact => c.literal.value

/-- Adds the variable of a comparison, unless it has a value already. -/
def Assignment.seedWith (a : Assignment) (c : Comparison) : Assignment :=
  if a.contains c.name then a else a.insert c.name c.seed

/-- The values that the conditions of a walk ask for. -/
def TreeNode.Walk.seeds (w : TreeNode.Walk) : Assignment :=
  (w.visited.flatMap fun v => comparisons v.2.condition).foldl Assignment.seedWith .empty

/-- One value for every variable compared at depth `limit` or above. -/
def TreeNode.defaults (root : TreeNode) (limit : Nat) : Warned Assignment :=
  let walk := root.walk limit
  ⟨walk.seeds,
    if walk.complete then []
    else ["tree deeper than " ++ toString limit ++ " levels, deeper conditions ignored"]⟩

/-- One value for every variable of a tree; a tree without root compares none. -/
def DecisionTree.defaults (t : DecisionTree) (limit : Nat) : Warned Assignment :=
  match t.root with
  | none => .quiet .empty
  | some root => root.defaults limit

end BranchProbe
