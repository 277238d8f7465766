/-
  Files in a tree of directories, with a working directory.

  1. `Disk` lists what there is, by the names on the way from the root.
  2. `locate` follows a path.  Each step is taken from a directory that is there; `..` goes up, and
     a slash at the end asks for a directory.
  3. Files are read and written, directories listed and made, at the place that a path leads to.
-/
import BranchProbe.Files.Store
import BranchProbe.SortedMap

namespace BranchProbe

/-- What a file holds: a text, or bytes that are none. -/
inductive Content where
  | text (s : String)
  | binary
  deriving Repr, DecidableEq

/-- What is at a place. -/
inductive Entry where
  | directory
  | file (content : Content)
  deriving Repr, DecidableEq

/-- A place: the names on the way from the root. -/
abbrev Place := List String

/-- A tree of directories and a working directory in it. -/
structure Disk where
  entries : SortedMap Place Entry
  workingDirectory : Place

namespace Disk

/-- What is at a place; the root is always there. -/
def entry? (d : Disk) (place : Place) : Option Entry :=
  match place with
  | [] => some .directory
  | place => d.entries.find? place

/-- The tree with something put at a place. -/
def put (d : Disk) (place : Place) (entry : Entry) : Disk :=
  { d with entries := d.entries.insert place entry }

/-- The longest name of a file, in bytes. -/
def nameLimit : Nat := 255

/-- The longest path, in bytes. -/
def pathLimit : Nat := 4095

/-- Follows the parts of a path from a place. -/
def follow (d : Disk) : (place : Place) → List (List Char) → Except FileFault Place
  | place, [] => .ok place
  | place, part :: rest =>
    if part = [] then follow d place rest
    else
      match d.entry? place with
      | none => .error .notFound
      | some (.file _) => .error .notDirectory
      | some .directory =>
        if part = ['.'] then follow d place rest
        else if part = ['.', '.'] then follow d place.dropLast rest
        else
          let name := String.ofList part
          if name.utf8ByteSize > nameLimit then .error .nameTooLong
          else follow d (place ++ [name]) rest

/-- The place that a path leads to, which may be empty. -/
def locate (d : Disk) (p : Path) : Except FileFault Place :=
  if p.text = "" then .error .notFound
  else if p.text.toList.contains '\x00' then .error .invalidName
  else if p.text.utf8ByteSize > pathLimit then .error .nameTooLong
  else
    let start := if p.text.startsWith "/" then [] else d.workingDirectory
    d.follow start (Path.parts p.text.toList)

/-- Does a path ask for a directory by a slash at its end? -/
def asksDirectory (p : Path) : Bool := p.text.endsWith "/"

/-- What a path leads to. -/
def at? (d : Disk) (p : Path) : Except FileFault Entry :=
  match d.locate p with
  | .error f => .error f
  | .ok place =>
    match d.entry? place with
    | none => .error .notFound
    | some .directory => .ok .directory
    | some (.file content) => if asksDirectory p then .error .notDirectory else .ok (.file content)

/-- The text of a file. -/
def read (d : Disk) (p : Path) : Except FileFault String :=
  match d.at? p with
  | .error f => .error f
  | .ok .directory => .error .isDirectory
  | .ok (.file .binary) => .error .notText
  | .ok (.file (.text s)) => .ok s

/-- The tree with another text for a file. -/
def write (d : Disk) (p : Path) (text : String) : Except FileFault Disk :=
  match d.locate p with
  | .error f => .error f
  | .ok place =>
    match d.entry? place with
    | some .directory => .error .isDirectory
    | some (.file _) =>
      if asksDirectory p then .error .notDirectory else .ok (d.put place (.file (.text text)))
    | none =>
      if asksDirectory p then .error .isDirectory else .ok (d.put place (.file (.text text)))

/-- Is anything at the end of a path? -/
def fileExists (d : Disk) (p : Path) : Bool :=
  match d.at? p with
  | .ok _ => true
  | .error _ => false

/-- Does a path lead to a directory? -/
def isDirectory (d : Disk) (p : Path) : Bool :=
  match d.at? p with
  | .ok .directory => true
  | _ => false

/-- The names of the files directly at a place. -/
def fileNames (d : Disk) (place : Place) : List String :=
  d.entries.entries.filterMap fun (at', entry) =>
    match entry, at'.getLast? with
    | .file _, some name => if at'.dropLast = place then some name else none
    | _, _ => none

/-- The files directly in a directory with a given extension; a file has none in it. -/
def list (d : Disk) (dir : Path) (extension : String) : Except FileFault (List Path) :=
  match d.at? dir, d.locate dir with
  | .ok .directory, .ok place =>
    .ok (((d.fileNames place).map dir.join).filter fun p => p.extension? == some extension)
  | .ok (.file _), _ => .ok []
  | _, _ => .error .unlistable

/-- Makes one directory. -/
def makeDirectory (d : Disk) (p : Path) : Except FileFault Disk :=
  match d.locate p with
  | .error f => .error f
  | .ok place =>
    match d.entry? place with
    | some _ => .error .alreadyExists
    | none => .ok (d.put place .directory)

/-- Makes a directory and those above it.  What was made stays also if a later step fails. -/
def makeDirectories : (fuel : Nat) → Disk → Path → Except FileFault Unit × Disk
  | 0, d, _ => (.ok (), d)
  | fuel + 1, d, p =>
    if p.text = "" then (.ok (), d)
    else
      match d.makeDirectory p with
      | .ok d => (.ok (), d)
      | .error .notFound =>
        match p.parent? with
        | none => (.error .notFound, d)
        | some parent =>
          match makeDirectories fuel d parent with
          | (.error f, d) => (.error f, d)
          | (.ok (), d) =>
            match d.makeDirectory p with
            | .ok d => (.ok (), d)
            | .error f => (if d.isDirectory p then .ok () else .error f, d)
      | .error f => (if d.isDirectory p then .ok () else .error f, d)

/-- Makes the directories above a file. -/
def ensureParent (d : Disk) (p : Path) : Except FileFault Unit × Disk :=
  match p.parent? with
  | none => (.ok (), d)
  | some parent => makeDirectories (parent.components.length + 1) d parent

instance : FileStore Disk where
  read := read
  write := write
  fileExists := fileExists
  isDirectory := isDirectory
  list := list
  ensureParent := ensureParent

/-! ## Setting up a tree -/

/-- The directories on the way to a place. -/
def above : Place → List Place
  | [] => []
  | name :: rest => [name] :: (above rest).map (name :: ·)

/-- A tree with nothing but a working directory. -/
def empty (workingDirectory : Place) : Disk :=
  (above workingDirectory).foldl (fun d place => d.put place .directory) ⟨.empty, workingDirectory⟩

/-- The tree with a directory below the working directory, and those above it. -/
def withDirectory (d : Disk) (p : Path) : Disk :=
  (makeDirectories (p.components.length + 1) d p).2

/-- The tree with a file below the working directory, and the directories above it. -/
def withFile (d : Disk) (p : Path) (content : Content) : Disk :=
  let d := (d.ensureParent p).2
  match d.locate p with
  | .ok place => d.put place (.file content)
  | .error _ => d

end Disk

end BranchProbe
