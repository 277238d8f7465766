/-
  The JSON form of trees, samples and traversal results.

  Fields stand in a fixed order.  An absent root, sample name or list of visited nodes is left
  out, as is an empty list of samples; a node always writes its condition and its children.
-/
import BranchProbe.Tree.Basic

namespace BranchProbe

/-- A text or null. -/
def Json.ofText? : Option String → Json
  | none => .null
  | some s => .text s

/-- A list of texts. -/
def Json.ofTexts (l : List String) : Json := .list (l.map .text)

/-- A member that is left out if it has no value. -/
def Json.optionalMember (key : String) (value : Option Json) : List (String × Json) :=
  match value with
  | none => []
  | some v => [(key, v)]

mutual

/-- A node as a document holds it. -/
def TreeNode.toJson : TreeNode → Json
  | ⟨id, text, condition, children⟩ =>
    .object [("node_id", .text id), ("text", .text text),
      ("condition", .ofText? condition), ("children", .list (TreeNode.allToJson children))]

/-- Some nodes as a document holds them. -/
def TreeNode.allToJson : List TreeNode → List Json
  | [] => []
  | n :: rest => TreeNode.toJson n :: TreeNode.allToJson rest

end

/-- A sample as a document holds it. -/
def Sample.toJson (s : Sample) : Json :=
  .object (Json.optionalMember "name" (s.name.map .text) ++ [("input_values", s.values.toJson)])

/-- A tree as a document holds it. -/
def DecisionTree.toJson (t : DecisionTree) : Json :=
  .object (Json.optionalMember "root" (t.root.map TreeNode.toJson)
    ++ Json.optionalMember "sample_inputs"
        (if t.samples.isEmpty then none else some (.list (t.samples.map Sample.toJson))))

/-- The result of a traversal as a document holds it. -/
def Simulation.toJson (s : Simulation) : Json :=
  .object ([("path", .ofTexts s.path)]
    ++ Json.optionalMember "visited_nodes" (s.visited.map fun l => .list (TreeNode.allToJson l))
    ++ [("final_node", s.final.toJson)])

/-- The unreached nodes as a document holds them. -/
def UnreachableReport.toJson (r : UnreachableReport) : Json :=
  .object [("unreachable_nodes", .ofTexts r.ids)]

end BranchProbe
