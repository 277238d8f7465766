/-
  Decimal text of floats.

  1. `Style` holds the decisions of one notation: where positional notation ends, what marks a
     whole number, how ties go.
  2. `Style.text` prints a magnitude; `plain` and `document` are the two notations in use.
  3. `fixed` prints a given number of places, a half going to the even neighbour.
-/
import BranchProbe.Numeral.Shortest

namespace BranchProbe.Numeral

/-- The decisions of a notation for floats. -/
structure Style where
  /-- is a number whose leading digit has this exponent written without one? -/
  positional : Int → Bool
  /-- written after a whole number in positional notation -/
  wholeMark : List Char
  tie : Tie

/-- Notation for people: always positional, whole numbers unmarked. -/
def plain : Style := ⟨fun _ => true, [], .upward⟩

/-- Notation of documents: positional from 0.00001 up to sixteen whole digits, whole numbers
    marked by `.0`. -/
def document : Style := ⟨fun e => -5 ≤ e && e < 16, ['.', '0'], .toEven⟩

/-- The decimal digits of a number. -/
def digitsOf (n : Nat) : List Char := Nat.toDigits 10 n

/-- `digits · 10 ^ exponent` without an exponent. -/
def positionalText (wholeMark : List Char) (d : Decimal) : List Char :=
  let ds := digitsOf d.digits
  if d.exponent ≥ 0 then ds ++ List.replicate d.exponent.toNat '0' ++ wholeMark
  else
    let places := (-d.exponent).toNat
    if places < ds.length then
      ds.take (ds.length - places) ++ '.' :: ds.drop (ds.length - places)
    else '0' :: '.' :: List.replicate (places - ds.length) '0' ++ ds

/-- `digits · 10 ^ exponent` with one digit before the point and the exponent signed. -/
def scientificText (leading : Int) (d : Decimal) : List Char :=
  let mantissa := match digitsOf d.digits with
    | [] => []
    | [x] => [x]
    | x :: rest => x :: '.' :: rest
  mantissa ++ 'e' :: (if leading < 0 then '-' else '+') :: digitsOf leading.natAbs

/-- A magnitude in a notation. -/
def Style.magnitude (style : Style) (m : Magnitude) : List Char :=
  let d := m.shortest style.tie
  let leading := d.exponent + ((digitsOf d.digits).length - 1 : Nat)
  if d.digits = 0 || style.positional leading then positionalText style.wholeMark d
  else scientificText leading d

/-- A sign and a magnitude in a notation. -/
def Style.signed (style : Style) (negative : Bool) (m : Magnitude) : List Char :=
  if negative then '-' :: style.magnitude m else style.magnitude m

/-- A float as people read it. -/
def plainText (x : Float) : String :=
  match shape x with
  | .finite negative m => String.ofList (plain.signed negative m)
  | .infinite negative => if negative then "-inf" else "inf"
  | .notANumber => "NaN"

/-- A float as a document holds it; a document has no word for the infinities and NaN. -/
def documentText? (x : Float) : Option (List Char) :=
  match shape x with
  | .finite negative m => some (document.signed negative m)
  | .infinite _ | .notANumber => none

/-- The quotient `n / d` rounded to the nearest whole number, a half to the even neighbour. -/
def roundDiv (n d : Nat) : Nat :=
  let floor := n / d
  let rest := n % d
  if 2 * rest < d then floor
  else if 2 * rest > d then floor + 1
  else if floor % 2 = 0 then floor else floor + 1

/-- A float with `places` digits after the point. -/
def fixed (places : Nat) (x : Float) : String :=
  match shape x with
  | .finite negative m =>
    let units := roundDiv (m.num * Nat.pow 10 places) m.den
    let ds := digitsOf units
    let padded := List.replicate (places + 1 - ds.length) '0' ++ ds
    let whole := padded.take (padded.length - places)
    let fraction := padded.drop (padded.length - places)
    String.ofList ((if negative then ['-'] else []) ++ whole
      ++ (if places = 0 then [] else '.' :: fraction))
  | _ => plainText x

end BranchProbe.Numeral
