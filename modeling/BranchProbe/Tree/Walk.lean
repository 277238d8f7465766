/-
  Walks through a tree.

  1. `preorder` lists all nodes with their depth, each before the nodes below it.
  2. `walk` is the walk of a caller who does not trust the tree to be shallow: it does not go
     below a given depth, and says whether it left anything out.
-/
import BranchProbe.Tree.Basic

namespace BranchProbe.TreeNode

mutual

/-- All nodes with their depth, in pre-order; the node itself is at `depth`. -/
def preorderFrom (depth : Nat) : TreeNode → List (Nat × TreeNode)
  | ⟨id, text, condition, children⟩ =>
    (depth, ⟨id, text, condition, children⟩) :: preorderAll (depth + 1) children

/-- The nodes of some subtrees one after the other. -/
def preorderAll (depth : Nat) : List TreeNode → List (Nat × TreeNode)
  | [] => []
  | n :: rest => preorderFrom depth n ++ preorderAll depth rest

end

/-- All nodes with their depth, in pre-order; the root is at depth zero. -/
def preorder (n : TreeNode) : List (Nat × TreeNode) := n.preorderFrom 0

/-- What a walk saw, and whether it saw everything. -/
structure Walk where
  visited : List (Nat × TreeNode)
  complete : Bool

mutual

/-- The walk from a node at `depth` that does not go below `limit`. -/
def walkFrom (limit depth : Nat) : TreeNode → Walk
  | ⟨id, text, condition, children⟩ =>
    let here := (depth, (⟨id, text, condition, children⟩ : TreeNode))
    if children.isEmpty then ⟨[here], true⟩
    else if limit ≤ depth then ⟨[here], false⟩
    else
      let below := walkAll limit (depth + 1) children
      ⟨here :: below.visited, below.complete⟩

/-- The walks from some nodes one after the other. -/
def walkAll (limit depth : Nat) : List TreeNode → Walk
  | [] => ⟨[], true⟩
  | n :: rest =>
    let first := walkFrom limit depth n
    let others := walkAll limit depth rest
    ⟨first.visited ++ others.visited, first.complete && others.complete⟩

end

/-- The walk from the root that does not go below depth `limit`. -/
def walk (limit : Nat) (n : TreeNode) : Walk := n.walkFrom limit 0

end BranchProbe.TreeNode
