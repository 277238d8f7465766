/-
  Everything that a drawing surface needs at once: the tree, its layout and the active links.

  The model of a decision tree is built from a path of visited nodes, which may be empty and may
  name nodes that the tree no longer has.  A tree without root has no model.
-/
import BranchProbe.Render.Tree
import BranchProbe.Render.Metrics
import BranchProbe.Warned

namespace BranchProbe

/-- A tree to be drawn, with its layout and the links on the active path. -/
structure RenderModel where
  root : RenderNode
  layout : Layout
  activeLinks : List Link

namespace RenderModel

/-- Is the link between two nodes on the active path? -/
def isActiveLink (m : RenderModel) (a b : String) : Bool := m.activeLinks.any (·.connects a b)

/-- The model as a document holds it. -/
def toJson (m : RenderModel) : Json :=
  .object [("root", m.root.toJson), ("layout", m.layout.toJson),
    ("activeLinks", .list (m.activeLinks.map Link.toJson))]

end RenderModel

/-- The model of a tree for a path, with the nodes down to depth `limit`. -/
def TreeNode.renderModel (n : TreeNode) (path : List String) (limit : Nat) : Warned RenderModel :=
  let tree := n.render ⟨path, limit⟩
  ⟨⟨tree.root, .ofNode tree.root, BranchProbe.activeLinks path tree.parents⟩, tree.warnings⟩

/-- The model of a tree for a path, if the tree has a root. -/
def DecisionTree.renderModel (t : DecisionTree) (path : List String) (limit : Nat) :
    Warned (Option RenderModel) :=
  match t.root with
  | none => .quiet none
  | some root => (root.renderModel path limit).map some

end BranchProbe
