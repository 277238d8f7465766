/-
  Sizes and distances for drawing a tree.

  Nodes grow with their longest text, rows with the number of nodes on a level, and siblings move
  together as the tree gets deeper.  The numbers depend on three figures of the tree only.
-/
import BranchProbe.Json.Printer

namespace BranchProbe

/-- The figures of a tree on which its layout depends. -/
structure TreeMetrics where
  /-- length of the longest text -/
  weight : Nat
  /-- the root is at depth zero -/
  depth : Nat
  nodes : Nat
  deriving Repr, DecidableEq

/-- Sizes and distances for drawing a tree. -/
structure Layout where
  nodeWidth : Float
  nodeHeight : Float
  siblingSeparation : Float
  nonSiblingSeparation : Float
  deriving Repr

namespace Layout

/-- The greater of two floats. -/
def larger (x y : Float) : Float := if x > y then x else y

/-- The layout of a tree with given figures; a single level counts as one for the height. -/
def ofMetrics (m : TreeMetrics) : Layout :=
  let separation := larger (2.2 - Float.ofNat m.depth / 10.0) 1.5
  { nodeWidth := 250.0 * larger (Float.ofNat m.weight / 20.0) 1.0
    nodeHeight := 80.0 * larger (Float.ofNat m.nodes / (Float.ofNat (max m.depth 1) * 4.0)) 1.0
    siblingSeparation := separation
    nonSiblingSeparation := separation * 1.3 }

/-- The layout as a document holds it. -/
def toJson (l : Layout) : Json :=
  .object [("nodeWidth", .ofFloat l.nodeWidth), ("nodeHeight", .ofFloat l.nodeHeight),
    ("siblingSeparation", .ofFloat l.siblingSeparation),
    ("nonSiblingSeparation", .ofFloat l.nonSiblingSeparation)]

/-- The layout in one line. -/
def summary (l : Layout) : String :=
  "node size " ++ Numeral.fixed 1 l.nodeWidth ++ " x " ++ Numeral.fixed 1 l.nodeHeight
    ++ ", separation " ++ Numeral.fixed 2 l.siblingSeparation ++ " (siblings) / "
    ++ Numeral.fixed 2 l.nonSiblingSeparation ++ " (non-siblings)"

end Layout

end BranchProbe
