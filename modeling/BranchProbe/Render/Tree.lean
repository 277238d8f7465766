/-
  Building the tree that is drawn.

  The builder goes through a decision tree in pre-order.  It notes the parent of every child just
  before it goes on to the child, so of two nodes with one id the later one counts.  It does not
  go below the depth limit; a node that loses its children so gives a warning.
-/
import BranchProbe.Render.Node
import BranchProbe.ActiveLinks
import BranchProbe.Tree.Basic

namespace BranchProbe

/-- What the builder has noted on its way. -/
structure BuildNotes where
  parents : Parents
  warnings : List String

namespace BuildNotes

/-- The notes at the start. -/
def empty : BuildNotes := ⟨.empty, []⟩

/-- The notes with the parent of a child. -/
def withParent (notes : BuildNotes) (child parent : String) : BuildNotes :=
  { notes with parents := notes.parents.insert child parent }

/-- The notes with a warning for a node at the depth limit. -/
def withCut (notes : BuildNotes) (id : String) (depth children : Nat) : BuildNotes :=
  { notes with warnings := notes.warnings ++
      ["node " ++ id ++ " at depth " ++ toString depth ++ " exceeds the depth limit, "
        ++ toString children ++ " children dropped"] }

end BuildNotes

/-- A tree to be drawn, with the parents of its nodes. -/
structure RenderTree where
  root : RenderNode
  parents : Parents
  warnings : List String

/-- What the builder goes by: the ids of the active path, and the depth limit. -/
structure BuildRules where
  active : List String
  limit : Nat

namespace TreeNode

/-- The length of the longer one of a text and a condition. -/
def contentWeight (text : String) (condition : Option String) : Nat :=
  max text.length ((condition.getD "").length)

mutual

/-- Builds a node at `depth` and what is below it. -/
def renderFrom (rules : BuildRules) (depth : Nat) : TreeNode → BuildNotes → RenderNode × BuildNotes
  | ⟨id, text, condition, children⟩, notes =>
    let (below, notes) :=
      if rules.limit ≤ depth && !children.isEmpty then
        ([], notes.withCut id depth children.length)
      else renderAll rules id (depth + 1) children notes
    ({ label := text
       id
       condition := condition.getD RenderNode.noCondition
       isActive := rules.active.contains id
       weight := contentWeight text condition
       children := below }, notes)

/-- Builds the children of the node `parent` one after the other. -/
def renderAll (rules : BuildRules) (parent : String) (depth : Nat) :
    List TreeNode → BuildNotes → List RenderNode × BuildNotes
  | [], notes => ([], notes)
  | child :: rest, notes =>
    let (first, notes) := renderFrom rules depth child (notes.withParent child.id parent)
    let (others, notes) := renderAll rules parent depth rest notes
    (first :: others, notes)

end

/-- The tree to be drawn from a node. -/
def render (rules : BuildRules) (n : TreeNode) : RenderTree :=
  let (root, notes) := n.renderFrom rules 0 .empty
  ⟨root, notes.parents, notes.warnings⟩

end TreeNode

end BranchProbe
