/-
  The links of a tree that lie on the path of a traversal.

  Every node of the path after the first contributes the link to its parent.  A node whose parent
  is not known, because the path is stale or the tree was cut, contributes none.
-/
import BranchProbe.Document.Encode
import BranchProbe.Document.Decode

namespace BranchProbe

/-- A link from a parent to a child. -/
structure Link where
  source : String
  target : String
  deriving Repr, DecidableEq

namespace Link

/-- Does the link join two nodes, whichever is the parent? -/
def connects (l : Link) (a b : String) : Bool :=
  (l.source == a && l.target == b) || (l.source == b && l.target == a)

/-- The link as a document holds it. -/
def toJson (l : Link) : Json := .object [("source", .text l.source), ("target", .text l.target)]

/-- A link of a document. -/
def decode (room : Nat) : Json.Syntax → Except Json.Fault Link :=
  Json.record room "ActiveLinkPair" ⟨"", ""⟩
    [Json.field "source" true Json.textValue fun x l => { l with source := x },
     Json.field "target" true Json.textValue fun x l => { l with target := x }]

end Link

/-- The id of each node's parent. -/
abbrev Parents := SortedMap String String

/-- The links on a path. -/
def activeLinks (path : List String) (parents : Parents) : List Link :=
  (path.drop 1).filterMap fun child => (parents.find? child).map fun parent => ⟨parent, child⟩

end BranchProbe
