/-
  What can be wrong with the text of a document, and where.

  1. `Mark` is a place in a text: a line, and the number of bytes since its start.
  2. `Cause` lists the faults of JSON text and the faults of a well-formed value that is not what
     was asked for; `Found` names what stood there instead.
  3. `Fault.message` is the wording: cause, line, column.
-/
import BranchProbe.Numeral.Text
import BranchProbe.Text.Quoted

namespace BranchProbe.Json

/-- A place in a text: lines count from one, columns are the bytes since the start of the line. -/
structure Mark where
  line : Nat
  column : Nat
  deriving Repr, DecidableEq

namespace Mark

/-- The start of a text. -/
def start : Mark := ⟨1, 0⟩

/-- The place after a character. -/
def past (m : Mark) (c : Char) : Mark :=
  if c = '\n' then ⟨m.line + 1, 0⟩ else ⟨m.line, m.column + c.utf8Size⟩

/-- The place after the first byte of a character. -/
def into (m : Mark) (c : Char) : Mark :=
  if c = '\n' then ⟨m.line + 1, 0⟩ else ⟨m.line, m.column + 1⟩

/-- The place after a text. -/
def pastAll (m : Mark) (cs : List Char) : Mark := cs.foldl past m

/-- The place after the first byte of what follows, if anything does. -/
def peek (m : Mark) : List Char → Mark
  | [] => m
  | c :: _ => m.into c

/-- The place after some bytes of a text, also in the middle of a character. -/
def afterBytes (m : Mark) : Nat → List Char → Mark
  | _, [] => m
  | n, c :: cs =>
    if c.utf8Size ≤ n then (m.past c).afterBytes (n - c.utf8Size) cs
    else ⟨m.line, m.column + n⟩

end Mark

/-- What stands where something else was asked for. -/
inductive Found where
  | null
  | flag (b : Bool)
  | whole (n : Int)
  | float (x : Float)
  | text (s : String)
  | list
  | object
  deriving Repr

/-- The words for what was found. -/
def Found.describe : Found → String
  | .null => "null"
  | .flag b => "boolean `" ++ (if b then "true" else "false") ++ "`"
  | .whole n => "integer `" ++ toString n ++ "`"
  | .float x =>
    "floating point `" ++ ((Numeral.documentText? x).elim (Numeral.plainText x) String.ofList) ++ "`"
  | .text s => "string " ++ Text.quoted s
  | .list => "sequence"
  | .object => "map"

/-- What a fault is about. -/
inductive Cause where
  | endInList
  | endInObject
  | endInText
  | endInValue
  | expectedColon
  | expectedCommaOrBracket
  | expectedCommaOrBrace
  | misspelledWord
  | expectedValue
  | invalidEscape
  | invalidNumber
  | numberOutOfRange
  | controlInText
  | keyNotText
  | loneSurrogate
  | brokenSurrogatePair
  | trailingComma
  | trailingCharacters
  | tooDeep
  | wrongType (found : Found) (expected : String)
  | duplicateField (name : String)
  | missingField (name : String)
  | wrongLength (found : Nat) (expected : String)
  deriving Repr

/-- The wording of a cause. -/
def Cause.message : Cause → String
  | .endInList => "EOF while parsing a list"
  | .endInObject => "EOF while parsing an object"
  | .endInText => "EOF while parsing a string"
  | .endInValue => "EOF while parsing a value"
  | .expectedColon => "expected `:`"
  | .expectedCommaOrBracket => "expected `,` or `]`"
  | .expectedCommaOrBrace => "expected `,` or `\x7d`"
  | .misspelledWord => "expected ident"
  | .expectedValue => "expected value"
  | .invalidEscape => "invalid escape"
  | .invalidNumber => "invalid number"
  | .numberOutOfRange => "number out of range"
  | .controlInText => "control character (\\u0000-\\u001F) found while parsing a string"
  | .keyNotText => "key must be a string"
  | .loneSurrogate => "lone leading surrogate in hex escape"
  | .brokenSurrogatePair => "unexpected end of hex escape"
  | .trailingComma => "trailing comma"
  | .trailingCharacters => "trailing characters"
  | .tooDeep => "recursion limit exceeded"
  | .wrongType found expected => "invalid type: " ++ found.describe ++ ", expected " ++ expected
  | .duplicateField name => "duplicate field `" ++ name ++ "`"
  | .missingField name => "missing field `" ++ name ++ "`"
  | .wrongLength found expected =>
    "invalid length " ++ toString found ++ ", expected " ++ expected

/-- A cause and its place. -/
structure Fault where
  cause : Cause
  mark : Mark
  deriving Repr

/-- The wording of a fault. -/
def Fault.message (f : Fault) : String :=
  f.cause.message ++ " at line " ++ toString f.mark.line ++ " column " ++ toString f.mark.column

end BranchProbe.Json
