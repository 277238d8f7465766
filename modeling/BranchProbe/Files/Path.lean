/-
  Paths of files.

  1. `Path.components` takes a path apart at the slashes.  Empty parts and parts `.` do not count,
     but a path may start with `.`; so `a//b`, `a/./b` and `a/b/` have the components of `a/b`,
     and `./a` has not those of `a`.
  2. Paths are compared by their components: the root, `.` and `..` come before names, and names
     are compared character by character.
  3. The stem and the extension of a file's name are split at its last point; a name with no point
     but at its start has no extension.
-/

namespace BranchProbe

/-- A part of a path. -/
inductive Component where
  | root
  | here
  | up
  | name (s : String)
  deriving Repr, DecidableEq

namespace Component

/-- The place of the kinds of parts in the order. -/
def rank : Component → Nat
  | .root => 0
  | .here => 1
  | .up => 2
  | .name _ => 3

/-- How a part is written. -/
def text : Component → String
  | .root => ""
  | .here => "."
  | .up => ".."
  | .name s => s

instance : Ord Component where
  compare := compareLex (compareOn rank) (compareOn text)

instance : Std.TransOrd Component :=
  inferInstanceAs (Std.TransCmp (compareLex (compareOn rank) (compareOn text)))

end Component

/-- A path as written. -/
structure Path where
  text : String
  deriving Repr, DecidableEq, Inhabited

namespace Path

/-- The parts between the slashes of a text. -/
def parts : List Char → List (List Char)
  | [] => [[]]
  | c :: cs =>
    if c = '/' then [] :: parts cs
    else
      match parts cs with
      | [] => [[c]]
      | p :: ps => (c :: p) :: ps

/-- The component of a part that is neither empty nor `.`. -/
def component (part : List Char) : Component :=
  if part = ['.', '.'] then .up else .name (String.ofList part)

/-- The components of parts after the first. -/
def innerComponents (parts : List (List Char)) : List Component :=
  (parts.filter fun p => p ≠ [] && p ≠ ['.']).map component

/-- The components of a path. -/
def components (p : Path) : List Component :=
  match p.text.toList with
  | [] => []
  | '/' :: cs => .root :: innerComponents (parts cs)
  | cs =>
    match parts cs with
    | ['.'] :: rest => .here :: innerComponents rest
    | all => innerComponents all

/-- Paths are compared by their components. -/
instance : Ord Path where
  compare := compareOn components

instance : Std.TransOrd Path := inferInstanceAs (Std.TransCmp (compareOn components))

/-- Do two paths have the same components? -/
def same (p q : Path) : Bool := p.components == q.components

/-- The path with given components. -/
def ofComponents : List Component → Path
  | [] => ⟨""⟩
  | .root :: rest => ⟨"/" ++ "/".intercalate (rest.map Component.text)⟩
  | all => ⟨"/".intercalate (all.map Component.text)⟩

/-- The path without its last component; the root and the empty path have none. -/
def parent? (p : Path) : Option Path :=
  match p.components.getLast? with
  | none | some .root => none
  | some _ => some (ofComponents p.components.dropLast)

/-- The name of the file that a path leads to. -/
def fileName? (p : Path) : Option String :=
  match p.components.getLast? with
  | some (.name s) => some s
  | _ => none

/-- A name split at its last point: the stem, and the extension if there is one. -/
def splitName (name : List Char) : List Char × Option (List Char) :=
  let tail := (name.reverse.takeWhile (· ≠ '.')).reverse
  let head := name.take (name.length - tail.length - 1)
  if tail.length = name.length || head = [] then (name, none) else (head, some tail)

/-- The name of the file without its extension. -/
def stem? (p : Path) : Option String :=
  p.fileName?.map fun name => String.ofList (splitName name.toList).1

/-- The extension of the file's name. -/
def extension? (p : Path) : Option String :=
  p.fileName?.bind fun name => (splitName name.toList).2.map String.ofList

/-- The path of a name inside a directory. -/
def join (dir : Path) (name : String) : Path :=
  if dir.text = "" || dir.text.endsWith "/" then ⟨dir.text ++ name⟩
  else ⟨dir.text ++ "/" ++ name⟩

end Path

end BranchProbe
