/-
  Finding comparisons in the text of a condition.

  A comparison is written `input.`, a word, an operator and a literal, with white space allowed
  before the operator and before the literal.  Everything else in a condition is passed over.

  1. `Literal.Spelling` is a literal as written: a decimal, a run of digits, or a quoted text.
  2. `Match.at?` is the match at the head of a text.  Every part runs as far as it can; as the
     characters that may end a part never continue it, nothing is gained by stopping earlier.
  3. `matches` collects the matches of a text from left to right; a match starts after the end of
     the one before.
  4. `comparisons` keeps the matches whose literal has a value: a number is written in basic
     digits, and a whole number fits 64 signed bits.
-/
import BranchProbe.Condition.Basic
import BranchProbe.Numeral.Read
import BranchProbe.Text.Word
import BranchProbe.Text.Blank

namespace BranchProbe

open Text (isWord isDigit isBlank)

/-- A literal as written in a condition. -/
inductive Literal.Spelling where
  | decimal (whole fraction : List Char)
  | digits (ds : List Char)
  | quoted (quote : Char) (content : List Char)
  deriving Repr, DecidableEq

namespace Literal.Spelling

/-- The characters of the literal. -/
def chars : Literal.Spelling → List Char
  | .decimal whole fraction => whole ++ '.' :: fraction
  | .digits ds => ds
  | .quoted quote content => quote :: content ++ [quote]

/-- A text up to the closing quote. -/
def quoted? (quote : Char) (cs : List Char) : Option (Literal.Spelling × List Char) :=
  match cs.span (· ≠ quote) with
  | (_, []) => none
  | (content, _ :: rest) => some (.quoted quote content, rest)

/-- A run of digits, with a fraction if a point and at least one digit follow. -/
def number? (cs : List Char) : Option (Literal.Spelling × List Char) :=
  match cs.span isDigit with
  | ([], _) => none
  | (whole, '.' :: rest) =>
    match rest.span isDigit with
    | ([], _) => some (.digits whole, '.' :: rest)
    | (fraction, rest) => some (.decimal whole fraction, rest)
  | (whole, rest) => some (.digits whole, rest)

/-- The literal at the head of a text. -/
def at? : List Char → Option (Literal.Spelling × List Char)
  | '\x27' :: cs => quoted? '\x27' cs
  | '"' :: cs => quoted? '"' cs
  | cs => number? cs

/-- The literal that is meant, if there is one. -/
def value? : Literal.Spelling → Option Literal
  | .decimal whole fraction =>
    if whole.all Numeral.isDecimal && fraction.all Numeral.isDecimal then
      some (.float (Numeral.nearest whole fraction 0))
    else none
  | .digits ds =>
    if ds.all Numeral.isDecimal && Numeral.naturalOf ds < Nat.pow 2 63 then
      some (.integer (Int64.ofNat (Numeral.naturalOf ds)))
    else none
  | .quoted _ content => some (.text (String.ofList content))

end Literal.Spelling

/-- A character of an operator. -/
def isOperator (c : Char) : Bool := c = '<' || c = '>' || c = '=' || c = '!'

/-- What every comparison starts with. -/
def inputMark : List Char := ['i', 'n', 'p', 'u', 't', '.']

/-- A comparison as written: its parts and what lies between them. -/
structure Match where
  name : List Char
  gap : List Char
  operator : List Char
  gap' : List Char
  literal : Literal.Spelling
  deriving Repr, DecidableEq

namespace Match

/-- The characters of the match. -/
def chars (m : Match) : List Char :=
  inputMark ++ m.name ++ m.gap ++ m.operator ++ m.gap' ++ m.literal.chars

/-- The match at the head of a text. -/
def at? (cs : List Char) : Option Match :=
  if inputMark.isPrefixOf cs then
    let (name, cs) := (cs.drop inputMark.length).span isWord
    let (gap, cs) := cs.span isBlank
    let (operator, cs) := cs.span isOperator
    let (gap', cs) := cs.span isBlank
    if name.isEmpty || operator.isEmpty then none
    else (Literal.Spelling.at? cs).map fun (literal, _) => ⟨name, gap, operator, gap', literal⟩
  else none

/-- The comparison that is meant, if the literal has a value. -/
def comparison? (m : Match) : Option Comparison :=
  m.literal.value?.map fun literal =>
    ⟨String.ofList m.name, Operator.parse (String.ofList m.operator), literal⟩

end Match

/-- The matches of a text from left to right.  The first `inside` characters belong to the match
    before and start none. -/
def matchesFrom : (inside : Nat) → List Char → List Match
  | _, [] => []
  | inside + 1, _ :: cs => matchesFrom inside cs
  | 0, c :: cs =>
    match Match.at? (c :: cs) with
    | none => matchesFrom 0 cs
    | some m => m :: matchesFrom (m.chars.length - 1) cs

/-- The comparisons of a condition from left to right; no condition has none. -/
def comparisons : Option String → List Comparison
  | none => []
  | some condition => (matchesFrom 0 condition.toList).filterMap Match.comparison?

end BranchProbe
