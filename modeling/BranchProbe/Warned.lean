/-
  Results that come with warnings.

  A warning does not keep a computation from its result.  Warnings stand in the order in which
  they arose.
-/

namespace BranchProbe

/-- A result, and what there is to warn of. -/
structure Warned (α : Type) where
  value : α
  warnings : List String

namespace Warned

/-- A result without warnings. -/
def quiet {α : Type} (x : α) : Warned α := ⟨x, []⟩

/-- The result put through a function. -/
def map {α β : Type} (f : α → β) (w : Warned α) : Warned β := ⟨f w.value, w.warnings⟩

end Warned

end BranchProbe
