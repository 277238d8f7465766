/-
  Writing JSON text.

  1. `Layout` holds what the compact and the indented form do differently: what stands before an
     item at a nesting level, and what follows a colon.
  2. `escape` writes a text: a quote, a backslash and the controls are escaped, all else stands
     for itself.
  3. `Json.write` is the printer; empty lists and objects have no inner line in either form.
-/
import BranchProbe.Json.Basic
import BranchProbe.Numeral.Text

namespace BranchProbe.Json

/-- The spacing of a written document. -/
structure Layout where
  /-- written before an item, or before a closing bracket, at this nesting level -/
  lineStart : Nat → List Char
  afterColon : List Char

/-- No spacing at all. -/
def compact : Layout := ⟨fun _ => [], []⟩

/-- One item a line, indented by two blanks a level. -/
def indented : Layout := ⟨fun level => '\n' :: List.replicate (2 * level) ' ', [' ']⟩

/-- A control character without a short escape, as `\u00xx`. -/
def controlEscape (c : Char) : List Char :=
  let hex := Nat.toDigits 16 c.toNat
  ['\\', 'u'] ++ List.replicate (4 - hex.length) '0' ++ hex

/-- One character inside a written text. -/
def escapeChar (c : Char) : List Char :=
  match c with
  | '"' => ['\\', '"']
  | '\\' => ['\\', '\\']
  | '\x08' => ['\\', 'b']
  | '\x0c' => ['\\', 'f']
  | '\n' => ['\\', 'n']
  | '\r' => ['\\', 'r']
  | '\t' => ['\\', 't']
  | c => if c.toNat < 0x20 then controlEscape c else [c]

/-- A text between quotes. -/
def escape (s : String) : List Char := '"' :: s.toList.flatMap escapeChar ++ ['"']

/-- A number of a document. -/
def Number.write : Number → List Char
  | .natural n => Numeral.digitsOf n.toNat
  | .negative n _ => '-' :: Numeral.digitsOf n.toInt.natAbs
  | .float x => (Numeral.documentText? x).getD ['n', 'u', 'l', 'l']

mutual

/-- The text of a value whose brackets stand at nesting level `level`. -/
def write (l : Layout) (level : Nat) : Json → List Char
  | .null => ['n', 'u', 'l', 'l']
  | .bool true => ['t', 'r', 'u', 'e']
  | .bool false => ['f', 'a', 'l', 's', 'e']
  | .number n => n.write
  | .text s => escape s
  | .list [] => ['[', ']']
  | .list (item :: rest) =>
    '[' :: l.lineStart (level + 1) ++ write l (level + 1) item ++ writeItems l (level + 1) rest
      ++ l.lineStart level ++ [']']
  | .object [] => ['\x7b', '\x7d']
  | .object (member :: rest) =>
    '\x7b' :: writeMember l (level + 1) member ++ writeMembers l (level + 1) rest
      ++ l.lineStart level ++ ['\x7d']

/-- The items after the first one, each after a comma. -/
def writeItems (l : Layout) (level : Nat) : List Json → List Char
  | [] => []
  | item :: rest =>
    ',' :: l.lineStart level ++ write l level item ++ writeItems l level rest

/-- A key and its value on a line of their own. -/
def writeMember (l : Layout) (level : Nat) : String × Json → List Char
  | (key, value) =>
    l.lineStart level ++ escape key ++ ':' :: l.afterColon ++ write l level value

/-- The members after the first one, each after a comma. -/
def writeMembers (l : Layout) (level : Nat) : List (String × Json) → List Char
  | [] => []
  | member :: rest => ',' :: writeMember l level member ++ writeMembers l level rest

end

/-- The text of a document without spacing. -/
def print (j : Json) : String := String.ofList (j.write compact 0)

/-- The text of a document, one item a line. -/
def pretty (j : Json) : String := String.ofList (j.write indented 0)

end BranchProbe.Json
