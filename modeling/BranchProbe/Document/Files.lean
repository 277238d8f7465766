/-
  Documents in files.

  1. `loadDocument` reads a file and decodes it.  What goes wrong is told with the kind of the
     document and the path.
  2. A tree is named by a path, or by `example:` and a name of the catalog.
  3. `Simulation.exportTo` writes the result of a traversal, one item a line, and makes the
     directories above the file.
-/
import BranchProbe.Catalog.Basic
import BranchProbe.Document.Encode
import BranchProbe.Json.Printer

namespace BranchProbe

/-- The document in a file. -/
def loadDocument {α : Type} (decode : Nat → Json.Syntax → Except Json.Fault α) (kind : String)
    (p : Path) : FileTask (Except Failure α) :=
  .read p fun
    | .error f => .done (.error (f.failure ("read " ++ kind) p))
    | .ok text =>
      match Json.decode decode text with
      | .error f => .done (.error (.invalidDocument kind (p.text ++ ": " ++ f.message)))
      | .ok x => .done (.ok x)

/-- What the name of an example starts with. -/
def exampleMark : List Char := "example:".toList

/-- A tree from a file or from the catalog. -/
def DecisionTree.load (source : String) (catalog : Catalog) :
    FileTask (Except Failure DecisionTree) :=
  let cs := source.toList
  if exampleMark.isPrefixOf cs then
    .done (catalog.tree (String.ofList (cs.drop exampleMark.length)))
  else loadDocument DecisionTree.decode "tree" ⟨source⟩

/-- An assignment from a file. -/
def Assignment.load : Path → FileTask (Except Failure Assignment) :=
  loadDocument Assignment.decode "input"

/-- The result of a traversal from a file. -/
def Simulation.load : Path → FileTask (Except Failure Simulation) :=
  loadDocument Simulation.decode "simulation result"

/-- A report of unreached nodes from a file. -/
def UnreachableReport.load : Path → FileTask (Except Failure UnreachableReport) :=
  loadDocument UnreachableReport.decode "unreachable report"

/-- Writes the result of a traversal to a file; nothing is added. -/
def Simulation.exportTo (s : Simulation) (target : Path) : FileTask (Except Failure Unit) :=
  .ensureParent target fun
    | .error f => .done (.error (f.failure "create directory for" target))
    | .ok () =>
      .write target s.toJson.pretty fun
        | .error f => .done (.error (f.failure "write export" target))
        | .ok () => .done (.ok ())

end BranchProbe
