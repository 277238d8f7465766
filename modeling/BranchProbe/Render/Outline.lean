/-
  The model of a tree as an outline on a terminal: one line for a node.

  A line shows the label, the id and the condition if there is one.  A mark stands before the
  nodes that an active link leads to, and before the root if it is active.  Nodes that were not
  reached say so at the end of the line.  With colors, active nodes are green and bold, other
  nodes that were not reached red.
-/
import BranchProbe.Render.Model
import BranchProbe.Terminal.LineTree
import BranchProbe.Terminal.Style

namespace BranchProbe

/-- Choices for an outline. -/
structure OutlineOptions where
  color : Bool
  /-- ids of the nodes that were not reached -/
  unreachable : List String

namespace RenderModel

/-- The mark of the active path. -/
def activeMark : String := "* "

/-- Does the line of a node below `parent` get the mark? -/
def isMarked (m : RenderModel) (parent : Option String) (n : RenderNode) : Bool :=
  match parent with
  | none => n.isActive
  | some p => m.isActiveLink p n.id

/-- The line of a node, without colors. -/
def plainLine (m : RenderModel) (options : OutlineOptions) (parent : Option String)
    (n : RenderNode) : String :=
  (if m.isMarked parent n then activeMark else "")
    ++ n.label ++ " [" ++ n.id ++ "]"
    ++ (if n.hasCondition then " if " ++ n.condition else "")
    ++ (if options.unreachable.contains n.id then " (unreachable)" else "")

/-- How the line of a node is colored. -/
def styleOf? (options : OutlineOptions) (n : RenderNode) : Option Style :=
  if !options.color then none
  else if n.isActive then some ⟨.green, true⟩
  else if options.unreachable.contains n.id then some ⟨.red, false⟩
  else none

/-- The line of a node. -/
def nodeLine (m : RenderModel) (options : OutlineOptions) (parent : Option String)
    (n : RenderNode) : String :=
  let line := m.plainLine options parent n
  match styleOf? options n with
  | none => line
  | some style => style.paint line

mutual

/-- The lines of a node and of what is below it. -/
def outlineFrom (m : RenderModel) (options : OutlineOptions) (parent : Option String) :
    RenderNode → LineTree
  | ⟨label, id, condition, isActive, weight, children⟩ =>
    .node (m.nodeLine options parent ⟨label, id, condition, isActive, weight, children⟩)
      (outlineAll m options id children)

/-- The lines of the children of the node `parent`. -/
def outlineAll (m : RenderModel) (options : OutlineOptions) (parent : String) :
    List RenderNode → List LineTree
  | [] => []
  | n :: rest => outlineFrom m options (some parent) n :: outlineAll m options parent rest

end

/-- The outline of a model. -/
def outline (m : RenderModel) (options : OutlineOptions) : LineTree :=
  m.outlineFrom options none m.root

end RenderModel

end BranchProbe
