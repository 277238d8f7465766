/-
  Words, texts and numbers of JSON text.

  A text or a number can be read in two ways: for its value, or only to get past it.  Passing over
  is the more lenient way; whatever is read for its value can also be passed over, to the same
  place.

  1. `readText` and `passText` take a text from after its opening quote.
  2. `NumberText.at?` splits a number into its parts, `NumberText.value` gives the number meant.
     A float is computed from at most 64 bits of leading digits by one multiplication or division
     with a power of ten, so its last bit may differ from that of the nearest float.
-/
import BranchProbe.Json.Basic
import BranchProbe.Json.Fault
import BranchProbe.Numeral.Read

namespace BranchProbe.Json

/-- A result with what follows it. -/
abbrev Reading (α : Type) := Except Fault (α × List Char × Mark)

/-- The characters that may stand between the parts of a document. -/
def isSpace (c : Char) : Bool := c = ' ' || c = '\n' || c = '\t' || c = '\r'

/-- Past the leading spaces. -/
def skipSpace : List Char → Mark → List Char × Mark
  | [], m => ([], m)
  | c :: cs, m => if isSpace c then skipSpace cs (m.past c) else (c :: cs, m)

/-- The rest of a word such as `true` after its first letter. -/
def readWord : (expected : List Char) → List Char → Mark → Reading Unit
  | [], cs, m => .ok ((), cs, m)
  | _ :: _, [], m => .error ⟨.endInValue, m⟩
  | e :: es, c :: cs, m =>
    if c = e then readWord es cs (m.past c) else .error ⟨.misspelledWord, m.into c⟩

/-! ## Texts -/

/-- The value of a hexadecimal digit. -/
def hexValue? (c : Char) : Option Nat :=
  if '0' ≤ c && c ≤ '9' then some (c.toNat - '0'.toNat)
  else if 'a' ≤ c && c ≤ 'f' then some (c.toNat - 'a'.toNat + 10)
  else if 'A' ≤ c && c ≤ 'F' then some (c.toNat - 'A'.toNat + 10)
  else none

/-- The number of bytes of a text. -/
def byteCount (cs : List Char) : Nat := cs.foldl (fun n c => n + c.utf8Size) 0

/-- The four digits of a hexadecimal escape; four bytes are taken before they are looked at. -/
def readHex (cs : List Char) (m : Mark) : Reading Nat :=
  match cs with
  | a :: b :: c :: d :: rest =>
    match hexValue? a, hexValue? b, hexValue? c, hexValue? d with
    | some a', some b', some c', some d' =>
      .ok (((a' * 16 + b') * 16 + c') * 16 + d', rest, m.pastAll [a, b, c, d])
    | _, _, _, _ => .error ⟨.invalidEscape, m.afterBytes 4 cs⟩
  | cs =>
    if byteCount cs < 4 then .error ⟨.endInText, m.pastAll cs⟩
    else .error ⟨.invalidEscape, m.afterBytes 4 cs⟩

/-- The character of an escape with one letter. -/
def shortEscape? (c : Char) : Option Char :=
  match c with
  | '"' => some '"'
  | '\\' => some '\\'
  | '/' => some '/'
  | 'b' => some '\x08'
  | 'f' => some '\x0c'
  | 'n' => some '\n'
  | 'r' => some '\r'
  | 't' => some '\t'
  | _ => none

/-- One expected character between the two halves of a surrogate pair. -/
def readPairMark (expected : Char) (cs : List Char) (m : Mark) : Reading Unit :=
  match cs with
  | [] => .error ⟨.endInText, m⟩
  | c :: rest =>
    if c = expected then .ok ((), rest, m.past c) else .error ⟨.brokenSurrogatePair, m.into c⟩

/-- The character of a hexadecimal escape, after its `\u`; a character beyond 16 bits is written
    as two escapes. -/
def readUnicodeEscape (cs : List Char) (m : Mark) : Reading Char :=
  match readHex cs m with
  | .error f => .error f
  | .ok (n, cs, m) =>
    if 0xDC00 ≤ n && n ≤ 0xDFFF then .error ⟨.loneSurrogate, m⟩
    else if n < 0xD800 || 0xDBFF < n then .ok (Char.ofNat n, cs, m)
    else
      match readPairMark '\\' cs m with
      | .error f => .error f
      | .ok (_, cs, m) =>
        match readPairMark 'u' cs m with
        | .error f => .error f
        | .ok (_, cs, m) =>
          match readHex cs m with
          | .error f => .error f
          | .ok (n', cs, m) =>
            if n' < 0xDC00 || 0xDFFF < n' then .error ⟨.loneSurrogate, m⟩
            else .ok (Char.ofNat (0x10000 + (n - 0xD800) * 0x400 + (n' - 0xDC00)), cs, m)

/-- The character of an escape, after its backslash. -/
def readEscape (cs : List Char) (m : Mark) : Reading Char :=
  match cs with
  | [] => .error ⟨.endInText, m⟩
  | c :: rest =>
    match shortEscape? c with
    | some c' => .ok (c', rest, m.past c)
    | none =>
      if c = 'u' then readUnicodeEscape rest (m.past c) else .error ⟨.invalidEscape, m.into c⟩

/-- Past an escape, after its backslash. -/
def passEscape (cs : List Char) (m : Mark) : Reading Unit :=
  match cs with
  | [] => .error ⟨.endInText, m⟩
  | c :: rest =>
    if (shortEscape? c).isSome then .ok ((), rest, m.past c)
    else if c = 'u' then (readHex rest (m.past c)).map fun (_, cs, m) => ((), cs, m)
    else .error ⟨.invalidEscape, m.into c⟩

/-- The characters of a text up to its closing quote. -/
def readText : (fuel : Nat) → List Char → Mark → Reading (List Char)
  | 0, _, m => .error ⟨.endInText, m⟩
  | _, [], m => .error ⟨.endInText, m⟩
  | fuel + 1, c :: cs, m =>
    if c = '"' then .ok ([], cs, m.past c)
    else if c = '\\' then
      match readEscape cs (m.past c) with
      | .error f => .error f
      | .ok (c', cs, m) =>
        match readText fuel cs m with
        | .error f => .error f
        | .ok (tail, rest) => .ok (c' :: tail, rest)
    else if c.toNat < 0x20 then .error ⟨.controlInText, m.into c⟩
    else
      match readText fuel cs (m.past c) with
      | .error f => .error f
      | .ok (tail, rest) => .ok (c :: tail, rest)

/-- Past a text and its closing quote. -/
def passText : (fuel : Nat) → List Char → Mark → Reading Unit
  | 0, _, m => .error ⟨.endInText, m⟩
  | _, [], m => .error ⟨.endInText, m⟩
  | fuel + 1, c :: cs, m =>
    if c = '"' then .ok ((), cs, m.past c)
    else if c = '\\' then
      match passEscape cs (m.past c) with
      | .error f => .error f
      | .ok (_, cs, m) => passText fuel cs m
    else if c.toNat < 0x20 then .error ⟨.controlInText, m⟩
    else passText fuel cs (m.past c)

/-! ## Numbers -/

/-- The parts of a number as written. -/
structure NumberText where
  negative : Bool
  whole : List Char
  fraction : Option (List Char)
  /-- sign (is it a minus?) and digits -/
  exponent : Option (Bool × List Char)
  deriving Repr, DecidableEq

/-- A number that is not finished: is it at the end of the text, and where? -/
structure Unfinished where
  atEnd : Bool
  mark : Mark
  deriving Repr, DecidableEq

/-- The fault of an unfinished number that is read for its value. -/
def Unfinished.readFault (u : Unfinished) : Fault :=
  ⟨if u.atEnd then .endInValue else .invalidNumber, u.mark⟩

/-- The fault of an unfinished number that is passed over. -/
def Unfinished.passFault (u : Unfinished) : Fault := ⟨.invalidNumber, u.mark⟩

/-- What is wrong when a digit has to follow and none does. -/
def unfinishedAt (cs : List Char) (m : Mark) : Unfinished := ⟨cs.isEmpty, m.peek cs⟩

namespace NumberText

open Numeral (digitRun isDecimal)

/-- The exponent at the head of a text, if one starts there. -/
def exponentAt? (cs : List Char) (m : Mark) :
    Except Unfinished (Option (Bool × List Char) × List Char × Mark) :=
  match cs with
  | [] => .ok (none, [], m)
  | e :: rest =>
    if e ≠ 'e' ∧ e ≠ 'E' then .ok (none, e :: rest, m)
    else
      let m := m.past e
      let (negative, rest, m) := match rest with
        | '-' :: rest => (true, rest, m.past '-')
        | '+' :: rest => (false, rest, m.past '+')
        | rest => (false, rest, m)
      let (ds, rest') := digitRun rest
      if ds.isEmpty then .error (unfinishedAt rest m)
      else .ok (some (negative, ds), rest', m.pastAll ds)

/-- The fraction at the head of a text, if one starts there. -/
def fractionAt? (cs : List Char) (m : Mark) :
    Except Unfinished (Option (List Char) × List Char × Mark) :=
  match cs with
  | '.' :: rest =>
    let m := m.past '.'
    let (ds, rest') := digitRun rest
    if ds.isEmpty then .error (unfinishedAt rest m) else .ok (some ds, rest', m.pastAll ds)
  | cs => .ok (none, cs, m)

/-- The digits before the point: a zero alone, or a run that does not start with zero. -/
def wholeAt? (cs : List Char) (m : Mark) : Except Unfinished (List Char × List Char × Mark) :=
  match cs with
  | '0' :: rest =>
    let m := m.past '0'
    match rest with
    | c :: _ => if isDecimal c then .error ⟨false, m.into c⟩ else .ok (['0'], rest, m)
    | [] => .ok (['0'], [], m)
  | cs =>
    let (ds, rest) := digitRun cs
    if ds.isEmpty then .error (unfinishedAt cs m) else .ok (ds, rest, m.pastAll ds)

/-- The number at the head of a text. -/
def at? (cs : List Char) (m : Mark) : Except Unfinished (NumberText × List Char × Mark) := do
  let (negative, cs, m) := match cs with
    | '-' :: rest => (true, rest, m.past '-')
    | cs => (false, cs, m)
  let (whole, cs, m) ← wholeAt? cs m
  let (fraction, cs, m) ← fractionAt? cs m
  let (exponent, cs, m) ← exponentAt? cs m
  return (⟨negative, whole, fraction, exponent⟩, cs, m)

/-- The digits that fit 64 bits, taken from the left, and the digits left over. -/
def leadingDigits : Nat → List Char → Nat × List Char
  | n, [] => (n, [])
  | n, c :: cs =>
    let n' := 10 * n + Numeral.digitValue c
    if n' < Nat.pow 2 64 then leadingDigits n' cs else (n, c :: cs)

/-- `10 ^ k` as a float. -/
def floatPower (k : Nat) : Float := Float.ofScientific 1 false k

/-- `x · 10 ^ exponent` by one multiplication or division; none if that is infinite.  Exponents
    below -308 take further divisions, until nothing is left of `x`. -/
def scale : (fuel : Nat) → Float → Int → Option Float
  | 0, x, _ => some x
  | fuel + 1, x, exponent =>
    if exponent.natAbs ≤ 308 then
      if exponent ≥ 0 then
        let y := x * floatPower exponent.toNat
        if y.isInf then none else some y
      else some (x / floatPower exponent.natAbs)
    else if x == 0 then some x
    else if exponent ≥ 0 then none
    else scale fuel (x / floatPower 308) (exponent + 308)

/-- The exponent held to 32 signed bits. -/
def clampExponent (e : Int) : Int := max (-2147483648) (min 2147483647 e)

/-- The place at which the digits of an exponent leave 31 bits, counted in digits. -/
def exponentOverflow? : Nat → Nat → List Char → Option Nat
  | _, _, [] => none
  | n, count, c :: cs =>
    let n' := 10 * n + Numeral.digitValue c
    if n' > 2147483647 then some (count + 1) else exponentOverflow? n' (count + 1) cs

/-- A number with a fraction or an exponent, or with more digits than 64 bits hold.  `before` is
    the place of the exponent's digits and `stop` the end of the number. -/
def floatValue (n : NumberText) (before stop : Mark) : Except Fault Float :=
  let (significand, more) := leadingDigits 0 n.whole
  let (significand, used) :=
    match n.fraction with
    | none => (significand, 0)
    | some ds =>
      let (s, unused) := leadingDigits significand ds
      (s, ds.length - unused.length)
  let shift : Int := (more.length : Int) - used
  let signed (x : Float) : Float := if n.negative then -x else x
  let scaled (e : Int) : Except Fault Float :=
    match scale 5 (Float.ofNat significand) e with
    | some x => .ok (signed x)
    | none => .error ⟨.numberOutOfRange, stop⟩
  match n.exponent with
  | none => scaled shift
  | some (negative, ds) =>
    match exponentOverflow? 0 0 ds with
    | some count =>
      if significand ≠ 0 && !negative then
        .error ⟨.numberOutOfRange, ⟨before.line, before.column + count⟩⟩
      else .ok (signed 0)
    | none =>
      let e : Int := Numeral.naturalOf ds
      scaled (clampExponent (if negative then shift - e else shift + e))

/-- The number that is meant: a whole number of 64 bits if it is written and fits as one, else a
    float.  `stop` is the end of the number. -/
def value (n : NumberText) (stop : Mark) : Except Fault Number :=
  let digits := (n.exponent.map fun e => e.2.length).getD 0
  let before : Mark := ⟨stop.line, stop.column - digits⟩
  if n.fraction.isSome || n.exponent.isSome then (floatValue n before stop).map .float
  else
    let k := Numeral.naturalOf n.whole
    if !n.negative then
      if k < Nat.pow 2 64 then .ok (.natural (UInt64.ofNat k))
      else (floatValue n before stop).map .float
    else
      let i := Int64.ofInt (-(k : Int))
      if h : i < 0 ∧ k ≤ Nat.pow 2 63 then .ok (.negative i h.1)
      else (floatValue n before stop).map .float

end NumberText

end BranchProbe.Json
