/-
  Decision trees and the documents around them.

  1. `TreeNode` is a question or an outcome, with the condition under which it is entered.
  2. `DecisionTree` is a tree, possibly without root, with named sample assignments.
  3. `Simulation` is the answer of a traversal: the ids of the nodes on the path, from the root.
     `UnreachableReport` lists the nodes that no sample reached.
-/
import BranchProbe.Assignment.Basic

namespace BranchProbe

/-- A node of a decision tree, with the subtrees below it. -/
structure TreeNode where
  /-- meant to be unique in the tree -/
  id : String
  text : String
  condition : Option String
  children : List TreeNode
  deriving Repr, Inhabited

/-- A named assignment that comes with a tree. -/
structure Sample where
  name : Option String
  values : Assignment

/-- The name shown in listings; samples without a name are numbered from one. -/
def Sample.displayName (s : Sample) (index : Nat) : String :=
  s.name.getD ("Sample " ++ toString (index + 1))

/-- A whole decision tree. -/
structure DecisionTree where
  root : Option TreeNode
  samples : List Sample

/-- A tree without root and samples. -/
def DecisionTree.empty : DecisionTree := ⟨none, []⟩

/-- The result of a traversal. -/
structure Simulation where
  /-- ids of the visited nodes, root first -/
  path : List String
  visited : Option (List TreeNode)
  final : TreeNode

/-- The nodes that were not reached. -/
structure UnreachableReport where
  ids : List String

namespace TreeNode

/-- A node with neither condition nor children. -/
def isLeaf (n : TreeNode) : Bool := n.condition.isNone && n.children.isEmpty

/-- The node as shown to people. -/
def display (n : TreeNode) : String := n.text ++ " (" ++ n.id ++ ")"

mutual

/-- The number of levels from this node down. -/
def depth : TreeNode → Nat
  | ⟨_, _, _, children⟩ => 1 + deepest children

/-- The greatest depth among some nodes. -/
def deepest : List TreeNode → Nat
  | [] => 0
  | n :: rest => max n.depth (deepest rest)

end

mutual

/-- The number of nodes from this one down. -/
def count : TreeNode → Nat
  | ⟨_, _, _, children⟩ => 1 + countAll children

/-- The number of nodes in some subtrees. -/
def countAll : List TreeNode → Nat
  | [] => 0
  | n :: rest => n.count + countAll rest

end

mutual

/-- The first node with an id, in pre-order. -/
def find? (id : String) : TreeNode → Option TreeNode
  | ⟨i, text, condition, children⟩ =>
    if i = id then some ⟨i, text, condition, children⟩ else findIn? id children

/-- The first node with an id in some subtrees. -/
def findIn? (id : String) : List TreeNode → Option TreeNode
  | [] => none
  | n :: rest => (n.find? id).or (findIn? id rest)

end

end TreeNode

end BranchProbe
