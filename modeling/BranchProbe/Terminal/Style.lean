/-
  Styles of text on a terminal.

  A styled text is written as the sequence that opens the style, the text, and the sequence that
  resets all styles.  A reset inside the text would end the style early, so the style is opened
  anew after it.
-/

namespace BranchProbe

/-- A color of letters. -/
inductive Color where
  | red
  | green
  | yellow
  | cyan
  deriving Repr, DecidableEq

/-- The number of a color in a control sequence. -/
def Color.code : Color → String
  | .red => "31"
  | .green => "32"
  | .yellow => "33"
  | .cyan => "36"

/-- How letters look. -/
structure Style where
  color : Color
  bold : Bool
  deriving Repr, DecidableEq

namespace Style

/-- The sequence that opens a style. -/
def opening (s : Style) : List Char :=
  '\x1b' :: '[' :: ((if s.bold then "1;" else "") ++ s.color.code ++ "m").toList

/-- The sequence that resets all styles. -/
def reset : List Char := ['\x1b', '[', '0', 'm']

/-- A text in which `again` follows every reset. -/
def reopen (again : List Char) : List Char → List Char
  | '\x1b' :: '[' :: '0' :: 'm' :: cs => reset ++ again ++ reopen again cs
  | c :: cs => c :: reopen again cs
  | [] => []

/-- A styled text. -/
def paint (s : Style) (text : String) : String :=
  String.ofList (s.opening ++ reopen s.opening text.toList ++ reset)

end Style

end BranchProbe
