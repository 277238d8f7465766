/-
  Reading decimal texts.

  1. `naturalOf` and `digitRun` read runs of decimal digits.
  2. `float?` reads a signed decimal with an optional fraction and exponent, correctly rounded.
  3. `size?` reads an unsigned machine word.
-/

namespace BranchProbe.Numeral

/-- A decimal digit of the basic Latin range. -/
def isDecimal (c : Char) : Bool := '0' ≤ c && c ≤ '9'

/-- The value of a decimal digit. -/
def digitValue (c : Char) : Nat := c.toNat - '0'.toNat

/-- The number written by a run of decimal digits. -/
def naturalOf (ds : List Char) : Nat := ds.foldl (fun n c => 10 * n + digitValue c) 0

/-- The leading run of decimal digits, and what follows it. -/
def digitRun (cs : List Char) : List Char × List Char := cs.span isDecimal

/-- The float nearest to `whole.fraction · 10 ^ exponent`. -/
def nearest (whole fraction : List Char) (exponent : Int) : Float :=
  let e := exponent - fraction.length
  let m := naturalOf (whole ++ fraction)
  if m = 0 then 0
  -- beyond these exponents the result is zero or infinite whatever the digits are
  else if e < -400 - (whole.length + fraction.length : Nat) then 0
  else if e > 400 then 1.0 / 0.0
  else Float.ofScientific m (e < 0) e.natAbs

/-- An optional exponent `e±digits` at the end of a text. -/
def exponent? : List Char → Option Int
  | [] => some 0
  | c :: rest =>
    if c ≠ 'e' ∧ c ≠ 'E' then none
    else
      let (negative, ds) := match rest with
        | '-' :: ds => (true, ds)
        | '+' :: ds => (false, ds)
        | ds => (false, ds)
      if ds.isEmpty || !ds.all isDecimal then none
      else
        let n : Int := naturalOf ds
        some (if negative then -n else n)

/-- An unsigned decimal: digits with an optional point among them, and an optional exponent. -/
def unsigned? (cs : List Char) : Option Float :=
  let (whole, rest) := digitRun cs
  let (fraction, rest) := match rest with
    | '.' :: rest => digitRun rest
    | rest => ([], rest)
  if whole.isEmpty && fraction.isEmpty then none
  else (exponent? rest).map (nearest whole fraction)

/-- A float written in decimal, or one of the words `inf`, `infinity` and `nan` in any case. -/
def float? (s : String) : Option Float :=
  let (negative, cs) := match s.toList with
    | '-' :: cs => (true, cs)
    | '+' :: cs => (false, cs)
    | cs => (false, cs)
  let word := String.ofList (cs.map Char.toLower)
  let magnitude :=
    if word = "inf" || word = "infinity" then some (1.0 / 0.0)
    else if word = "nan" then some (0.0 / 0.0)
    else unsigned? cs
  magnitude.map fun x => if negative then -x else x

/-- Why a text is not an unsigned word. -/
inductive SizeFault where
  | empty
  | invalidDigit
  | tooLarge
  deriving Repr, DecidableEq

/-- The wording of a `SizeFault`. -/
def SizeFault.message : SizeFault → String
  | .empty => "cannot parse integer from empty string"
  | .invalidDigit => "invalid digit found in string"
  | .tooLarge => "number too large to fit in target type"

/-- An unsigned 64-bit number in decimal, with an optional plus sign. -/
def size? (s : String) : Except SizeFault Nat :=
  match s.toList with
  | [] => .error .empty
  | cs =>
    let ds := match cs with
      | '+' :: c :: rest => c :: rest
      | cs => cs
    let (run, rest) := digitRun ds
    let n := naturalOf run
    if n ≥ Nat.pow 2 64 then .error .tooLarge
    else if rest.isEmpty then .ok n
    else .error .invalidDigit

end BranchProbe.Numeral
