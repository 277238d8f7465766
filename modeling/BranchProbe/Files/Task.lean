/-
  Computations that use files.

  1. `FileTask α` is the tree of what a computation asks of the files, and of what it goes on with
     after each answer.
  2. `FileTask.run` carries it out on any store of files and gives the result and the new store.
-/
import BranchProbe.Files.Store

namespace BranchProbe

/-- A computation that asks for operations on files and ends with an `α`. -/
inductive FileTask (α : Type) where
  | done (x : α)
  | read (p : Path) (next : Except FileFault String → FileTask α)
  | write (p : Path) (text : String) (next : Except FileFault Unit → FileTask α)
  | fileExists (p : Path) (next : Bool → FileTask α)
  | isDirectory (p : Path) (next : Bool → FileTask α)
  | list (dir : Path) (extension : String) (next : Except FileFault (List Path) → FileTask α)
  | ensureParent (p : Path) (next : Except FileFault Unit → FileTask α)

namespace FileTask

/-- One computation after another. -/
def bind {α β : Type} (t : FileTask α) (f : α → FileTask β) : FileTask β :=
  match t with
  | .done x => f x
  | .read p next => .read p fun r => (next r).bind f
  | .write p text next => .write p text fun r => (next r).bind f
  | .fileExists p next => .fileExists p fun r => (next r).bind f
  | .isDirectory p next => .isDirectory p fun r => (next r).bind f
  | .list dir extension next => .list dir extension fun r => (next r).bind f
  | .ensureParent p next => .ensureParent p fun r => (next r).bind f

instance : Monad FileTask where
  pure := .done
  bind := bind

/-- The text of a file. -/
def readText (p : Path) : FileTask (Except FileFault String) := .read p .done

/-- Carries out a computation on a store of files. -/
def run {α σ : Type} [FileStore σ] (t : FileTask α) (s : σ) : α × σ :=
  match t with
  | .done x => (x, s)
  | .read p next => (next (FileStore.read s p)).run s
  | .write p text next =>
    match FileStore.write s p text with
    | .ok s => (next (.ok ())).run s
    | .error f => (next (.error f)).run s
  | .fileExists p next => (next (FileStore.fileExists s p)).run s
  | .isDirectory p next => (next (FileStore.isDirectory s p)).run s
  | .list dir extension next => (next (FileStore.list s dir extension)).run s
  | .ensureParent p next =>
    match FileStore.ensureParent s p with
    | (r, s) => (next r).run s

/-- One computation after another is carried out one after the other. -/
theorem run_bind {α β σ : Type} [FileStore σ] (t : FileTask α) (f : α → FileTask β) (s : σ) :
    (t.bind f).run s = (f (t.run s).1).run (t.run s).2 := by
  induction t generalizing s with
  | done x => rfl
  | read p next ih => exact ih _ s
  | write p text next ih =>
    simp only [bind, run]
    cases FileStore.write s p text <;> exact ih _ _
  | fileExists p next ih => exact ih _ s
  | isDirectory p next ih => exact ih _ s
  | list dir extension next ih => exact ih _ s
  | ensureParent p next ih => exact ih _ _

end FileTask

end BranchProbe
