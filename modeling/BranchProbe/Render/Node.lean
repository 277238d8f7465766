/-
  Nodes as they are drawn.

  1. `RenderNode` has what is shown of a node of a decision tree: its text as a label, its
     condition, whether it lies on the active path, and its weight for sizing.
  2. A condition is shown as a text.  A node without condition shows `noCondition`, and a node
     shows a condition if it shows anything else.
  3. `RenderNode.toJson` is the form that a drawing surface reads.
-/
import BranchProbe.Json.Basic

namespace BranchProbe

/-- A node to be drawn, with the nodes below it. -/
structure RenderNode where
  label : String
  id : String
  /-- the condition as shown -/
  condition : String
  isActive : Bool
  /-- length of the longest text -/
  weight : Nat
  children : List RenderNode
  deriving Repr, Inhabited

namespace RenderNode

/-- What a node without condition shows. -/
def noCondition : String := "No condition"

/-- Does the node show a condition? -/
def hasCondition (n : RenderNode) : Bool := n.condition != noCondition

mutual

/-- The number of nodes from this one down. -/
def count : RenderNode → Nat
  | ⟨_, _, _, _, _, children⟩ => 1 + countAll children

/-- The number of nodes in some subtrees. -/
def countAll : List RenderNode → Nat
  | [] => 0
  | n :: rest => n.count + countAll rest

end

mutual

/-- A node as a document holds it; one without children says nothing of them. -/
def toJson : RenderNode → Json
  | ⟨label, id, condition, isActive, weight, children⟩ =>
    .object ([("label", .text label),
      ("attributes", .object [("id", .text id), ("condition", .text condition)]),
      ("displayProps", .object [("isActive", .bool isActive), ("contentWeight", .ofNat weight)])]
      ++ if children.isEmpty then [] else [("children", .list (allToJson children))])

/-- Some nodes as a document holds them. -/
def allToJson : List RenderNode → List Json
  | [] => []
  | n :: rest => n.toJson :: allToJson rest

end

end RenderNode

end BranchProbe
