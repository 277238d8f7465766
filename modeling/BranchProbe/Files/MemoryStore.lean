/-
  Files held in memory.

  The store is a table from paths to texts.  Paths with the same components name one file, whose
  first spelling is kept.  A directory is there as long as a file is directly in it.
-/
import BranchProbe.Files.Store
import BranchProbe.SortedMap

namespace BranchProbe

/-- A table of texts by path. -/
structure MemoryStore where
  files : SortedMap Path String

namespace MemoryStore

/-- The store without files. -/
def empty : MemoryStore := ⟨.empty⟩

/-- The text of a file. -/
def content? (m : MemoryStore) (p : Path) : Option String := m.files.find? p

/-- The store with another text for a file. -/
def write (m : MemoryStore) (p : Path) (text : String) : MemoryStore := ⟨m.files.insert p text⟩

/-- Is a file directly inside a directory? -/
def inside (dir file : Path) : Bool := file.parent?.any (·.same dir)

/-- Is any file directly inside a directory? -/
def isDirectory (m : MemoryStore) (dir : Path) : Bool := m.files.keys.any (inside dir)

/-- The files directly inside a directory with a given extension. -/
def list (m : MemoryStore) (dir : Path) (extension : String) : List Path :=
  m.files.keys.filter fun p => inside dir p && p.extension? == some extension

instance : FileStore MemoryStore where
  read m p :=
    match m.content? p with
    | none => .error .notFound
    | some text => .ok text
  write m p text := .ok (m.write p text)
  fileExists m p := m.files.contains p || m.isDirectory p
  isDirectory := isDirectory
  list m dir extension := .ok (m.list dir extension)
  ensureParent m _ := (.ok (), m)

end MemoryStore

end BranchProbe
