/-
  Requests to the service that evaluates trees.

  1. A simulation is asked for with a tree and one assignment.
  2. The nodes that cannot be reached are asked for with a tree and the samples to try: an
     assignment, given or derived from the tree, followed by its variations.
-/
import BranchProbe.Document.Encode
import BranchProbe.Defaults
import BranchProbe.Variations
import BranchProbe.Json.Printer

namespace BranchProbe

/-- The samples to try on a tree: a base assignment and its variations.  Without a base the
    defaults of the tree down to depth `limit` are taken. -/
def DecisionTree.samplesFrom (t : DecisionTree) (limit : Nat) (base : Option Assignment) :
    Warned (List Assignment) :=
  match base with
  | some base => .quiet base.coverageSamples
  | none => (t.defaults limit).map Assignment.coverageSamples

namespace Payload

/-- The request for a simulation. -/
def simulation (t : DecisionTree) (inputs : Assignment) : Json :=
  .object [("tree", t.toJson), ("input_values", inputs.toJson)]

/-- The request for the nodes that no sample reaches. -/
def unreachable (t : DecisionTree) (samples : List Assignment) : Json :=
  .object [("tree", t.toJson), ("sample_inputs", .list (samples.map Assignment.toJson))]

end Payload

end BranchProbe
