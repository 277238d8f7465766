/-
  Computations on files that may fail and may warn.

  A job that fails keeps the warnings that it gave before.  One job after another gives the
  warnings of the first one first, and does not start the second if the first one fails.
-/
import BranchProbe.Files.Task
import BranchProbe.Failure
import BranchProbe.Warned

namespace BranchProbe

/-- A computation on files that ends with an `α` or a failure, and with warnings either way. -/
structure Job (α : Type) where
  task : FileTask (Warned (Except Failure α))

namespace Job

/-- A job that does nothing but end with a result, if it is one. -/
def ofExcept {α : Type} (r : Except Failure α) : Job α := ⟨.done (.quiet r)⟩

/-- A computation on files that does not warn. -/
def ofTask {α : Type} (t : FileTask (Except Failure α)) : Job α :=
  ⟨t.bind fun r => .done (.quiet r)⟩

/-- A result with its warnings. -/
def ofWarned {α : Type} (w : Warned α) : Job α := ⟨.done (w.map .ok)⟩

/-- A computation on files that warns, if it does not fail. -/
def ofWarnedTask {α : Type} (t : FileTask (Except Failure (Warned α))) : Job α :=
  ⟨t.bind fun
    | .error f => .done (.quiet (.error f))
    | .ok w => .done (w.map .ok)⟩

/-- A question to the files that has an answer in any case. -/
def ask {α : Type} (t : FileTask α) : Job α := ⟨t.bind fun x => .done (.quiet (.ok x))⟩

/-- One job after another. -/
def bind {α β : Type} (j : Job α) (f : α → Job β) : Job β :=
  ⟨j.task.bind fun
    | ⟨.error e, warnings⟩ => .done ⟨.error e, warnings⟩
    | ⟨.ok x, warnings⟩ =>
      (f x).task.bind fun r => .done ⟨r.value, warnings ++ r.warnings⟩⟩

instance : Monad Job where
  pure x := .ofExcept (.ok x)
  bind := bind

end Job

end BranchProbe
