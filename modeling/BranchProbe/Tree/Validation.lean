/-
  The invariants of a tree, checked on request only.

  1. `IdCheck` is what a check of the ids has come to: which ids it has met, and the first one that
     it met again.
  2. `TreeNode.checkFrom` takes the check through the nodes in pre-order, not below the depth limit,
     and says whether it left anything out.
  3. A valid tree has a root, no two nodes with one id, and no node below the depth limit.  An id
     that repeats among the nodes within the limit is reported before the depth.
-/
import BranchProbe.Tree.Basic
import BranchProbe.Failure

namespace BranchProbe

/-- How far a check of the ids has come. -/
structure IdCheck where
  met : List String
  /-- the first id that was met again -/
  repeated : Option String

namespace IdCheck

/-- The check before the first node. -/
def start : IdCheck := ⟨[], none⟩

/-- The check after one more id. -/
def meet (check : IdCheck) (id : String) : IdCheck :=
  if check.met.contains id then { check with repeated := check.repeated.or (some id) }
  else { check with met := id :: check.met }

end IdCheck

namespace TreeNode

mutual

/-- Checks the ids from a node at `depth` down to `limit`; are these all? -/
def checkFrom (limit depth : Nat) : TreeNode → IdCheck → IdCheck × Bool
  | ⟨id, _, _, children⟩, check =>
    let check := check.meet id
    if children.isEmpty then (check, true)
    else if limit ≤ depth then (check, false)
    else checkAll limit (depth + 1) children check

/-- Checks the ids of some subtrees one after the other. -/
def checkAll (limit depth : Nat) : List TreeNode → IdCheck → IdCheck × Bool
  | [], check => (check, true)
  | n :: rest, check =>
    let (check, first) := checkFrom limit depth n check
    let (check, others) := checkAll limit depth rest check
    (check, first && others)

end

end TreeNode

/-- Checks root, ids and depth. -/
def DecisionTree.validate (t : DecisionTree) (limit : Nat) : Except Failure Unit :=
  match t.root with
  | none => .error .missingRoot
  | some root =>
    let (check, complete) := root.checkFrom limit 0 .start
    match check.repeated with
    | some id => .error (.duplicateId id)
    | none => if complete then .ok () else .error (.depthExceeded limit)

end BranchProbe
