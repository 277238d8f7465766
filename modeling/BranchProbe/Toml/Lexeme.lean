/-
  Texts, numbers and dates of a TOML document.

  Every reader takes the head of a text and gives what it denotes and what follows; none means
  that no such thing stands there.

  1. Texts come in four styles: basic or literal, on one line or on several.
  2. Numbers may have underscores between digits; whole numbers fit 64 signed bits, floats do not
     overflow upwards.
  3. Dates and times are checked against the calendar and then forgotten.
-/
import BranchProbe.Numeral.Read

namespace BranchProbe.Toml

open Numeral (isDecimal naturalOf)

/-- A reader of the head of a text. -/
abbrev Reader (α : Type) := List Char → Option (α × List Char)

/-- Blanks within a line. -/
def isBlank (c : Char) : Bool := c = ' ' || c = '\t'

/-- Past the blanks of a line. -/
def skipBlanks (cs : List Char) : List Char := cs.dropWhile isBlank

/-- Past a line end. -/
def lineEnd? : List Char → Option (List Char)
  | '\n' :: cs => some cs
  | '\r' :: '\n' :: cs => some cs
  | _ => none

/-- A character that stands for itself in a text. -/
def isPlain (c : Char) : Bool := c = '\t' || (' ' ≤ c && c ≠ '\x7f')

/-- Past a comment, if one starts here. -/
def skipComment : List Char → List Char
  | '#' :: cs => cs.dropWhile fun c => c = '\t' || ' ' ≤ c
  | cs => cs

/-- Past the blanks and the comment at the end of a line, and its line end. -/
def endOfLine? (cs : List Char) : Option (List Char) :=
  match skipComment (skipBlanks cs) with
  | [] => some []
  | rest => lineEnd? rest

/-- Past blanks, line ends and comments. -/
def skipLines : (fuel : Nat) → List Char → List Char
  | 0, cs => cs
  | fuel + 1, cs =>
    let rest := skipComment (skipBlanks cs)
    match lineEnd? rest with
    | some rest => skipLines fuel rest
    | none => rest

/-! ## Texts -/

/-- The value of a hexadecimal digit. -/
def hexDigit? (c : Char) : Option Nat :=
  if '0' ≤ c && c ≤ '9' then some (c.toNat - '0'.toNat)
  else if 'a' ≤ c && c ≤ 'f' then some (c.toNat - 'a'.toNat + 10)
  else if 'A' ≤ c && c ≤ 'F' then some (c.toNat - 'A'.toNat + 10)
  else none

/-- A number of exactly `count` hexadecimal digits. -/
def hexNumber? : (count : Nat) → Nat → Reader Nat
  | 0, n, cs => some (n, cs)
  | _ + 1, _, [] => none
  | count + 1, n, c :: cs => (hexDigit? c).bind fun d => hexNumber? count (16 * n + d) cs

/-- The character of a given code point, if there is one. -/
def charOf? (n : Nat) : Option Char := if n.isValidChar then some (Char.ofNat n) else none

/-- The character of an escape, after its backslash. -/
def escape? : Reader Char
  | 'b' :: cs => some ('\x08', cs)
  | 't' :: cs => some ('\t', cs)
  | 'n' :: cs => some ('\n', cs)
  | 'f' :: cs => some ('\x0c', cs)
  | 'r' :: cs => some ('\r', cs)
  | '"' :: cs => some ('"', cs)
  | '\\' :: cs => some ('\\', cs)
  | 'u' :: cs => (hexNumber? 4 0 cs).bind fun (n, rest) => (charOf? n).map (·, rest)
  | 'U' :: cs => (hexNumber? 8 0 cs).bind fun (n, rest) => (charOf? n).map (·, rest)
  | _ => none

/-- The rest of a basic text on one line, after its opening quote. -/
def basicText? : (fuel : Nat) → Reader (List Char)
  | 0, _ => none
  | _, [] => none
  | fuel + 1, c :: cs =>
    if c = '"' then some ([], cs)
    else if c = '\\' then
      (escape? cs).bind fun (c, rest) => (basicText? fuel rest).map fun (s, rest) => (c :: s, rest)
    else if isPlain c then (basicText? fuel cs).map fun (s, rest) => (c :: s, rest)
    else none

/-- The rest of a literal text on one line, after its opening quote. -/
def literalText? (cs : List Char) : Option (List Char × List Char) :=
  match cs.span fun c => c ≠ '\x27' && isPlain c with
  | (s, '\x27' :: rest) => some (s, rest)
  | _ => none

/-- The quotes at a place in a text of several lines: fewer than three belong to the text, three
    to five end it and all but the last three belong to it. -/
def quoteRun (quote : Char) (cs : List Char) : Nat × List Char :=
  let run := cs.takeWhile (· = quote)
  (run.length, cs.drop run.length)

/-- Past an escaped line end: the blanks before it, the line end, and all blanks and line ends
    after it. -/
def escapedLineEnd? (cs : List Char) : Option (List Char) :=
  (lineEnd? (skipBlanks cs)).map fun rest => go rest.length rest
where
  /-- past blanks and line ends -/
  go : Nat → List Char → List Char
    | 0, cs => cs
    | fuel + 1, cs =>
      match lineEnd? (skipBlanks cs) with
      | some rest => go fuel rest
      | none => skipBlanks cs

/-- The rest of a text of several lines; only a basic one has escapes. -/
def linesText? (quote : Char) (basic : Bool) : (fuel : Nat) → Reader (List Char)
  | 0, _ => none
  | _, [] => none
  | fuel + 1, c :: cs =>
    if c = quote then
      let (run, rest) := quoteRun quote (c :: cs)
      if run < 3 then
        (linesText? quote basic fuel rest).map fun (s, rest) =>
          (List.replicate run quote ++ s, rest)
      else if run ≤ 5 then some (List.replicate (run - 3) quote, rest)
      else none
    else if basic && c = '\\' then
      match escapedLineEnd? cs with
      | some rest => linesText? quote basic fuel rest
      | none =>
        (escape? cs).bind fun (c, rest) =>
          (linesText? quote basic fuel rest).map fun (s, rest) => (c :: s, rest)
    else
      match lineEnd? (c :: cs) with
      | some rest => (linesText? quote basic fuel rest).map fun (s, rest) => ('\n' :: s, rest)
      | none =>
        if isPlain c then (linesText? quote basic fuel cs).map fun (s, rest) => (c :: s, rest)
        else none

/-- The line end right after the opening quotes does not belong to the text. -/
def dropFirstLineEnd (cs : List Char) : List Char := (lineEnd? cs).getD cs

/-- A text on one line. -/
def simpleText? : Reader (List Char)
  | '"' :: cs => basicText? (cs.length + 1) cs
  | '\x27' :: cs => literalText? cs
  | _ => none

/-- A text in any style. -/
def text? : Reader (List Char)
  | '"' :: '"' :: '"' :: cs => linesText? '"' true (cs.length + 1) (dropFirstLineEnd cs)
  | '\x27' :: '\x27' :: '\x27' :: cs => linesText? '\x27' false (cs.length + 1) (dropFirstLineEnd cs)
  | cs => simpleText? cs

/-! ## Numbers -/

/-- A run of digits with single underscores between them, without the underscores. -/
def digits? (isDigit : Char → Bool) : (fuel : Nat) → Reader (List Char)
  | 0, _ => none
  | _, [] => none
  | fuel + 1, c :: cs =>
    if !isDigit c then none
    else
      match cs with
      | '_' :: rest => (digits? isDigit fuel rest).map fun (ds, rest) => (c :: ds, rest)
      | d :: rest =>
        if isDigit d then (digits? isDigit fuel (d :: rest)).map fun (ds, rest) => (c :: ds, rest)
        else some ([c], d :: rest)
      | [] => some ([c], [])

/-- A run of decimal digits. -/
def decimals? (cs : List Char) : Option (List Char × List Char) := digits? isDecimal cs.length cs

/-- Decimal digits without a leading zero, or a zero alone. -/
def wholeDigits? : Reader (List Char)
  | '0' :: cs => some (['0'], cs)
  | cs => decimals? cs

/-- A number in a notation with a base of its own. -/
def based? (base : Nat) (cs : List Char) : Option (Int × List Char) :=
  let isDigit (c : Char) : Bool := (hexDigit? c).any fun d => d < base
  (digits? isDigit cs.length cs).bind fun (ds, rest) =>
    let n := ds.foldl (fun n c => base * n + (hexDigit? c).getD 0) 0
    if n < Nat.pow 2 63 then some ((n : Int), rest) else none

/-- An optional sign: is it a minus? -/
def sign : List Char → Bool × List Char
  | '-' :: cs => (true, cs)
  | '+' :: cs => (false, cs)
  | cs => (false, cs)

/-- A whole number of 64 signed bits. -/
def integer? : Reader Int
  | '0' :: 'x' :: cs => based? 16 cs
  | '0' :: 'o' :: cs => based? 8 cs
  | '0' :: 'b' :: cs => based? 2 cs
  | cs =>
    let (negative, rest) := sign cs
    (wholeDigits? rest).bind fun (ds, rest) =>
      let n : Int := if negative then -naturalOf ds else naturalOf ds
      let limit : Int := Nat.pow 2 63
      if -limit ≤ n && n < limit then some (n, rest) else none

/-- The exponent of a float, with its mark. -/
def exponent? : Reader (List Char)
  | c :: cs =>
    if c = 'e' || c = 'E' then
      match cs with
      | '-' :: rest => (decimals? rest).map fun (ds, rest) => ('e' :: '-' :: ds, rest)
      | '+' :: rest => (decimals? rest).map fun (ds, rest) => ('e' :: ds, rest)
      | rest => (decimals? rest).map fun (ds, rest) => ('e' :: ds, rest)
    else none
  | [] => none

/-- The fraction of a float, with its point. -/
def fraction? : Reader (List Char)
  | '.' :: cs => (decimals? cs).map fun (ds, rest) => ('.' :: ds, rest)
  | _ => none

/-- Past a float; it must not be positive infinity by overflow. -/
def float? (cs : List Char) : Option (List Char) :=
  let (negative, rest) := sign cs
  match rest with
  | 'i' :: 'n' :: 'f' :: rest => some rest
  | 'n' :: 'a' :: 'n' :: rest => some rest
  | rest =>
    (wholeDigits? rest).bind fun (whole, rest) =>
      let parts := match fraction? rest with
        | some (fraction, rest) =>
          match exponent? rest with
          | some (exponent, rest) => some (fraction ++ exponent, rest)
          | none => some (fraction, rest)
        | none => exponent? rest
      parts.bind fun (tail, rest) =>
        match Numeral.unsigned? (whole ++ tail) with
        | some x => if x.isInf && !negative then none else some rest
        | none => none

/-! ## Dates -/

/-- A number of exactly `count` decimal digits. -/
def fixedNumber? (count : Nat) (cs : List Char) : Option (Nat × List Char) :=
  let ds := cs.take count
  if ds.length = count && ds.all isDecimal then some (naturalOf ds, cs.drop count) else none

/-- A number of two digits within bounds. -/
def bounded? (low high : Nat) (cs : List Char) : Option (Nat × List Char) :=
  (fixedNumber? 2 cs).bind fun (n, rest) => if low ≤ n && n ≤ high then some (n, rest) else none

/-- One expected character. -/
def mark? (expected : Char) : List Char → Option (List Char)
  | [] => none
  | c :: cs => if c = expected then some cs else none

/-- The days of a month. -/
def daysOf (year month : Nat) : Nat :=
  if month = 2 then
    if year % 4 = 0 && (year % 100 ≠ 0 || year % 400 = 0) then 29 else 28
  else if month = 4 || month = 6 || month = 9 || month = 11 then 30
  else 31

/-- Past a calendar day. -/
def day? (cs : List Char) : Option (List Char) := do
  let (year, cs) ← fixedNumber? 4 cs
  let cs ← mark? '-' cs
  let (month, cs) ← bounded? 1 12 cs
  let cs ← mark? '-' cs
  let (_, cs) ← bounded? 1 (daysOf year month) cs
  return cs

/-- Past a fraction of a second, if one stands here. -/
def secondFraction (cs : List Char) : List Char :=
  match cs with
  | '.' :: rest =>
    if (rest.takeWhile isDecimal).isEmpty then cs else rest.dropWhile isDecimal
  | cs => cs

/-- Past a time of day. -/
def time? (cs : List Char) : Option (List Char) := do
  let (_, cs) ← bounded? 0 23 cs
  let cs ← mark? ':' cs
  let (_, cs) ← bounded? 0 59 cs
  let cs ← mark? ':' cs
  let (_, cs) ← bounded? 0 60 cs
  return secondFraction cs

/-- Past an offset from universal time, if one stands here. -/
def offset (cs : List Char) : List Char :=
  match cs with
  | 'Z' :: rest => rest
  | 'z' :: rest => rest
  | c :: rest =>
    if c = '+' || c = '-' then
      match (do
        let (_, rest) ← bounded? 0 23 rest
        let rest ← mark? ':' rest
        let (_, rest) ← bounded? 0 59 rest
        return rest : Option (List Char)) with
      | some rest => rest
      | none => cs
    else cs
  | [] => []

/-- Past a date, a time, or both. -/
def date? (cs : List Char) : Option (List Char) :=
  match day? cs with
  | none => time? cs
  | some rest =>
    match rest with
    | c :: after =>
      if c = 'T' || c = 't' || c = ' ' then
        match time? after with
        | some rest => some (offset rest)
        | none => some rest
      else some rest
    | [] => some []

end BranchProbe.Toml
