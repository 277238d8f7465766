/-
  What can be done with files, and what can go wrong.

  `FileStore σ` says that a value of type `σ` holds files.  `MemoryStore` and `Disk` are such
  types: the first is a table of texts, the second a tree of directories.
-/
import BranchProbe.Files.Path

namespace BranchProbe

/-- Why an operation on files failed. -/
inductive FileFault where
  | notFound
  | isDirectory
  | notDirectory
  | alreadyExists
  | notText
  | unlistable
  | invalidName
  | nameTooLong
  deriving Repr, DecidableEq

/-- The wording of a fault. -/
def FileFault.message : FileFault → String
  | .notFound => "No such file or directory (os error 2)"
  | .isDirectory => "Is a directory (os error 21)"
  | .notDirectory => "Not a directory (os error 20)"
  | .alreadyExists => "File exists (os error 17)"
  | .notText => "stream did not contain valid UTF-8"
  | .unlistable => "directory cannot be listed"
  | .invalidName => "file name contained an unexpected NUL byte"
  | .nameTooLong => "File name too long (os error 36)"

/-- Values that hold files. -/
class FileStore (σ : Type) where
  /-- the text of a file -/
  read : σ → Path → Except FileFault String
  /-- the store with another text for a file -/
  write : σ → Path → String → Except FileFault σ
  fileExists : σ → Path → Bool
  isDirectory : σ → Path → Bool
  /-- the files directly in a directory with a given extension, in order -/
  list : σ → Path → (extension : String) → Except FileFault (List Path)
  /-- makes the directories above a file, as far as it can -/
  ensureParent : σ → Path → Except FileFault Unit × σ

end BranchProbe
