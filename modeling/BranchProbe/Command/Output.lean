/-
  What commands write on the terminal.

  Results go to the standard output, warnings and errors to the standard error.  Every line is
  ended.  The marks in front of messages, and headers, are styled if styles are wanted at all.
-/
import BranchProbe.Terminal.Style

namespace BranchProbe

/-- What was written to the standard output and to the standard error. -/
structure Output where
  out : String
  err : String
  deriving Repr, DecidableEq

namespace Output

/-- Nothing written. -/
def nothing : Output := ⟨"", ""⟩

/-- One output after another. -/
instance : Append Output where
  append a b := ⟨a.out ++ b.out, a.err ++ b.err⟩

/-- Several outputs one after the other. -/
def all (l : List Output) : Output := l.foldr (· ++ ·) nothing

/-- A line. -/
def line (s : String) : Output := ⟨s ++ "\n", ""⟩

/-- An indented line. -/
def detail (s : String) : Output := line ("  " ++ s)

/-- A text in a style, if styles are wanted. -/
def styled (color : Bool) (style : Style) (s : String) : String :=
  if color then style.paint s else s

/-- A header. -/
def header (color : Bool) (s : String) : Output := line (styled color ⟨.cyan, true⟩ s)

/-- A check that succeeded. -/
def success (color : Bool) (s : String) : Output :=
  line (styled color ⟨.green, false⟩ "✓" ++ " " ++ s)

/-- A fact under a label. -/
def labelled (color : Bool) (label s : String) : Output :=
  line (styled color ⟨.green, false⟩ label ++ ": " ++ s)

/-- A warning. -/
def warning (color : Bool) (s : String) : Output :=
  ⟨"", styled color ⟨.yellow, false⟩ "Warning" ++ ": " ++ s ++ "\n"⟩

/-- An error. -/
def error (color : Bool) (s : String) : Output :=
  ⟨"", styled color ⟨.red, true⟩ "error" ++ ": " ++ s ++ "\n"⟩

end Output

end BranchProbe
