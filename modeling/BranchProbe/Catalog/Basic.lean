/-
  The catalog of example trees.

  1. The catalog starts with the trees that come with the program.
  2. A directory may add trees: one for every file with the extension `json`, named by the stem of
     the file.  They replace trees of the same name.
  3. A file that cannot be read, or holds no tree, is passed over with a warning; so is a
     directory that is not there.
-/
import BranchProbe.Catalog.Bundled
import BranchProbe.Document.Decode
import BranchProbe.Files.Task
import BranchProbe.Failure
import BranchProbe.Warned

namespace BranchProbe

/-- Where an example comes from. -/
inductive Origin where
  | bundled
  | user (file : Path)
  deriving Repr, DecidableEq

/-- The origin as shown in listings. -/
def Origin.display : Origin → String
  | .bundled => "bundled"
  | .user file => file.text

/-- An example tree. -/
structure Example where
  tree : DecisionTree
  origin : Origin

/-- Example trees by name. -/
abbrev Catalog := SortedMap String Example

/-- The failure of an operation on a file, in which `action` says what was tried. -/
def FileFault.failure (f : FileFault) (action : String) (p : Path) : Failure :=
  match f with
  | .notFound => .fileNotFound p.text
  | _ => .operationFailed (action ++ ": " ++ p.text)

namespace Catalog

/-- The catalog of the trees that come with the program. -/
def bundled : Catalog := .ofList (Bundled.trees.map fun e => (e.1, ⟨e.2, .bundled⟩))

/-- The catalog with the tree of a file, whose text or fault is given. -/
def withFile (catalog : Warned Catalog) (file : Path) (content : Except FileFault String) :
    Warned Catalog :=
  match file.stem? with
  | none => catalog
  | some name =>
    let skip (why : String) : Warned Catalog :=
      { catalog with warnings := catalog.warnings ++ ["skipping " ++ file.text ++ ": " ++ why] }
    match content with
    | .error f => skip f.message
    | .ok text =>
      match Json.decode DecisionTree.decode text with
      | .error f => skip f.message
      | .ok tree => { catalog with value := catalog.value.insert name ⟨tree, .user file⟩ }

/-- The catalog with the trees of some files, one after the other. -/
def addFiles (catalog : Warned Catalog) : List Path → FileTask (Warned Catalog)
  | [] => .done catalog
  | file :: rest => .read file fun content => addFiles (withFile catalog file content) rest

/-- The catalog of the bundled trees and those of a directory. -/
def load (dir : Option Path) : FileTask (Except Failure (Warned Catalog)) :=
  match dir with
  | none => .done (.ok (.quiet bundled))
  | some dir =>
    .isDirectory dir fun isThere =>
      if isThere then
        .list dir "json" fun
          | .error f => .done (.error (f.failure "list examples" dir))
          | .ok files => (addFiles (.quiet bundled) files).bind fun catalog => .done (.ok catalog)
      else
        .done (.ok ⟨bundled,
          ["examples directory " ++ dir.text ++ " not found, using bundled examples"]⟩)

/-- The tree with a name. -/
def tree (catalog : Catalog) (name : String) : Except Failure DecisionTree :=
  match catalog.find? name with
  | none => .error (.unknownExample name)
  | some e => .ok e.tree

end Catalog

end BranchProbe
