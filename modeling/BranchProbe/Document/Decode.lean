/-
  Reading trees, samples and traversal results from documents.

  A node takes up two levels of nesting with its list of children, so the depth limit of documents
  bounds the depth of every tree that is read.  Fields may come in any order; the ones that have
  a meaning when absent (condition, children, root, samples, name, values, visited nodes) may be
  left out.
-/
import BranchProbe.Tree.Basic
import BranchProbe.Json.Decoder

namespace BranchProbe

open Json (Syntax Fault RecordField field textValue optional listOf mapOf anyValue record)

/-- A value of an input variable. -/
def InputValue.decode (room : Nat) (s : Syntax) : Except Fault InputValue :=
  (anyValue room s).map InputValue.ofJson

/-- An assignment. -/
def Assignment.decode (room : Nat) (s : Syntax) : Except Fault Assignment :=
  mapOf room (InputValue.decode (room - 1)) s

namespace TreeNode

/-- The fields of a node, given how its children are read. -/
def fields (children : Syntax → Except Fault (List TreeNode)) : List (RecordField TreeNode) :=
  [field "node_id" true textValue fun x n => { n with id := x },
   field "text" true textValue fun x n => { n with text := x },
   field "condition" false (optional textValue) fun x n => { n with condition := x },
   field "children" false children fun x n => { n with children := x }]

/-- The node without texts, condition and children. -/
def blank : TreeNode := ⟨"", "", none, []⟩

/-- A node with the nodes below it. -/
def decode : (room : Nat) → Syntax → Except Fault TreeNode
  | 0, s => record 0 "TreeNode" blank (fields fun _ => .ok []) s
  | 1, s => record 1 "TreeNode" blank (fields (listOf 0 fun _ => .ok blank)) s
  | room + 2, s =>
    record (room + 2) "TreeNode" blank (fields (listOf (room + 1) fun s => decode room s)) s

end TreeNode

/-- A sample. -/
def Sample.decode (room : Nat) : Syntax → Except Fault Sample :=
  record room "SampleInput" ⟨none, .empty⟩
    [field "name" false (optional textValue) fun x s => { s with name := x },
     field "input_values" false (Assignment.decode (room - 1)) fun x s => { s with values := x }]

/-- A list of samples. -/
def Sample.decodeList (room : Nat) : Syntax → Except Fault (List Sample) :=
  listOf room (Sample.decode (room - 1))

/-- A tree. -/
def DecisionTree.decode (room : Nat) : Syntax → Except Fault DecisionTree :=
  record room "DecisionTree" .empty
    [field "root" false (optional (TreeNode.decode (room - 1))) fun x t => { t with root := x },
     field "sample_inputs" false (Sample.decodeList (room - 1)) fun x t => { t with samples := x }]

/-- The result of a traversal. -/
def Simulation.decode (room : Nat) : Syntax → Except Fault Simulation :=
  record room "SimulationResult" ⟨[], none, .blank⟩
    [field "path" true (listOf (room - 1) textValue) fun x s => { s with path := x },
     field "visited_nodes" false (optional (listOf (room - 1) (TreeNode.decode (room - 2))))
       fun x s => { s with visited := x },
     field "final_node" true (TreeNode.decode (room - 1)) fun x s => { s with final := x }]

/-- A report of unreached nodes. -/
def UnreachableReport.decode (room : Nat) : Syntax → Except Fault UnreachableReport :=
  record room "UnreachableReport" ⟨[]⟩
    [field "unreachable_nodes" true (listOf (room - 1) textValue) fun x r => { r with ids := x }]

end BranchProbe
