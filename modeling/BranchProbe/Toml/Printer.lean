/-
  Writing TOML texts and settings lines.

  A text is written in the plainest style that can hold it: basic quotes if nothing needs an
  escape, literal quotes if only double quotes or backslashes stand in the way, and the styles for
  several lines if there are line ends or quotes of both kinds.

  `writeText` is read back by `Toml.text?`.
-/
import BranchProbe.Toml.Lexeme

namespace BranchProbe.Toml

/-- How a text is quoted. -/
inductive Style where
  | basic
  | literal
  | basicLines
  | literalLines
  deriving Repr, DecidableEq

/-- The length of the longest run of a character; `run` is the run just before. -/
def longestRun (x : Char) : (run : Nat) → List Char → Nat
  | run, [] => run
  | run, c :: cs => if c = x then longestRun x (run + 1) cs else max run (longestRun x 0 cs)

/-- A control character other than a line end. -/
def isCode (c : Char) : Bool := (c.toNat ≤ 0x1f && c ≠ '\n') || c = '\x7f'

/-- The plainest style that can hold a text. -/
def styleOf (cs : List Char) : Style :=
  let codes := cs.any isCode
  let backslash := cs.any (· = '\\')
  let lines := cs.any (· = '\n')
  let double := longestRun '"' 0 cs
  let single := longestRun '\x27' 0 cs
  if !codes && !backslash && double = 0 && !lines then .basic
  else if !codes && single = 0 && !lines then .literal
  else if !codes && !backslash && double ≤ 2 then .basicLines
  else if !codes && single ≤ 2 then .literalLines
  else if lines then .basicLines
  else .basic

/-- The escape of a code point, four digits wide. -/
def codeEscape (c : Char) : List Char :=
  let hex := (Nat.toDigits 16 c.toNat).map Char.toUpper
  ['\\', 'u'] ++ List.replicate (4 - hex.length) '0' ++ hex

/-- One character of a basic text other than a double quote. -/
def escapeChar (lines : Bool) (c : Char) : List Char :=
  match c with
  | '\x08' => ['\\', 'b']
  | '\t' => ['\\', 't']
  | '\n' => if lines then ['\n'] else ['\\', 'n']
  | '\x0c' => ['\\', 'f']
  | '\r' => ['\\', 'r']
  | '\\' => ['\\', '\\']
  | c => if isCode c then codeEscape c else [c]

/-- The inside of a basic text.  `run` double quotes stand just before; two in a row may stand in
    a text of several lines, none in a text on one line. -/
def escapeAll (lines : Bool) : (run : Nat) → List Char → List Char
  | _, [] => []
  | run, c :: cs =>
    if c = '"' then
      if run + 1 > (if lines then 2 else 0) then '\\' :: '"' :: escapeAll lines 0 cs
      else '"' :: escapeAll lines (run + 1) cs
    else escapeChar lines c ++ escapeAll lines 0 cs

/-- A text of several lines starts on a line of its own. -/
def firstLineEnd (cs : List Char) : List Char := if cs.any (· = '\n') then ['\n'] else []

/-- A text in the plainest style that can hold it. -/
def writeText (s : String) : List Char :=
  let cs := s.toList
  match styleOf cs with
  | .basic => '"' :: escapeAll false 0 cs ++ ['"']
  | .literal => '\x27' :: cs ++ ['\x27']
  | .basicLines => ['"', '"', '"'] ++ firstLineEnd cs ++ escapeAll true 0 cs ++ ['"', '"', '"']
  | .literalLines =>
    ['\x27', '\x27', '\x27'] ++ firstLineEnd cs ++ cs ++ ['\x27', '\x27', '\x27']

/-- A `key = value` line. -/
def writeLine (key : String) (value : List Char) : List Char :=
  key.toList ++ [' ', '=', ' '] ++ value ++ ['\n']

/-- A flag. -/
def writeBool (b : Bool) : List Char :=
  if b then ['t', 'r', 'u', 'e'] else ['f', 'a', 'l', 's', 'e']

end BranchProbe.Toml
