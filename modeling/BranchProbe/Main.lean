/-
  The program: it reads the command line, carries it out on the files of the machine, and writes
  what comes of it.
-/
import BranchProbe.Command.Run

namespace BranchProbe

/-- The fault that an error of the machine stands for. -/
def FileFault.ofError : IO.Error → FileFault
  | .noFileOrDirectory _ _ _ => .notFound
  | .alreadyExists _ _ _ => .alreadyExists
  | .inappropriateType _ code _ => if code = 20 then .notDirectory else .isDirectory
  | .invalidArgument _ code _ => if code = 36 then .nameTooLong else .invalidName
  | _ => .unlistable

namespace FileTask

/-- An operation on files, or its fault. -/
def attempt {α : Type} (operation : IO α) : IO (Except FileFault α) := do
  match ← operation.toBaseIO with
  | .ok x => return .ok x
  | .error e => return .error (.ofError e)

/-- The text of a file. -/
def fileText (p : Path) : IO (Except FileFault String) := do
  match ← attempt (IO.FS.readBinFile p.text) with
  | .error f => return .error f
  | .ok bytes =>
    match String.fromUTF8? bytes with
    | some text => return .ok text
    | none => return .error .notText

/-- The files directly in a directory with a given extension, in order. -/
def filesIn (dir : Path) (extension : String) : IO (List Path) := do
  let entries ← (← IO.FS.realPath dir.text).readDir
  let files ← entries.toList.filterM fun e => do return !(← e.path.isDir)
  let names := (files.map (·.fileName)).mergeSort fun a b => a ≤ b
  return (names.map dir.join).filter fun p => p.extension? == some extension

/-- Makes the directories above a file. -/
def makeParent (p : Path) : IO Unit :=
  match p.parent? with
  | some parent => if parent.text = "" then pure () else IO.FS.createDirAll parent.text
  | none => pure ()

/-- Is there anything at the end of a path? -/
def isThere (p : Path) : IO Bool := do
  match ← attempt (IO.FS.realPath p.text) with
  | .ok _ => return true
  | .error _ => return false

/-- Does a path lead to a directory? -/
def isDirectoryThere (p : Path) : IO Bool := do
  match ← attempt (IO.FS.realPath p.text) with
  | .ok place => place.isDir
  | .error _ => return false

/-- Carries out a computation on the files of the machine. -/
def perform {α : Type} : FileTask α → IO α
  | .done x => pure x
  | .read p next => do (next (← fileText p)).perform
  | .write p text next => do (next (← attempt (IO.FS.writeFile p.text text))).perform
  | .fileExists p next => do (next (← isThere p)).perform
  | .isDirectory p next => do (next (← isDirectoryThere p)).perform
  | .list dir extension next => do (next (← attempt (filesIn dir extension))).perform
  | .ensureParent p next => do (next (← attempt (makeParent p))).perform

end FileTask

/-- The environment of the program. -/
def Environment.get : IO Environment := do
  match ← FileTask.fileText ⟨"/proc/self/environ"⟩ with
  | .ok text => return .ofText text
  | .error _ => return .empty

/-- Carries out the words of a command line and gives the exit status. -/
def runProgram (words : List String) : IO UInt32 := do
  let env ← Environment.get
  let color := env.wantsStyles (← (← IO.getStdout).isTty)
  let outcome : Outcome ←
    match Invocation.ofWords words with
    | .error u => pure ⟨u.exitCode, Help.answer u color, []⟩
    | .ok i => (i.run env color).perform
  for warning in outcome.warnings do
    IO.eprintln warning
  IO.print outcome.output.out
  IO.eprint outcome.output.err
  return UInt32.ofNat outcome.exitCode

end BranchProbe

/-- The program. -/
def main (words : List String) : IO UInt32 := BranchProbe.runProgram words
