/-
  The fewest decimal digits that read back as a given binary number.

  1. `Gap` is the set of reals that round to the number: up to half a step on either side, ends
     included when the significand is even.
  2. `onGrid` tests the two neighbours of the number among the multiples of a power of ten.
  3. `shortest` goes from coarse grids to fine ones and keeps the first hit; of two hits the
     nearer wins, and a `Tie` decides between equally near ones.

  All comparisons are between natural numbers over one common denominator.
-/
import BranchProbe.Numeral.Binary

namespace BranchProbe.Numeral

/-- Which of two equally near decimals is taken. -/
inductive Tie where
  | upward
  | toEven
  deriving Repr, DecidableEq

/-- The number `digits · 10 ^ exponent`. -/
structure Decimal where
  digits : Nat
  exponent : Int
  deriving Repr, DecidableEq

/-- A magnitude and the ends of the interval that rounds to it, over one denominator. -/
structure Gap where
  low : Nat
  value : Nat
  high : Nat
  den : Nat
  inclusive : Bool
  deriving Repr, DecidableEq

/-- The interval around a magnitude.  Below a power of two the step is half as wide. -/
def Magnitude.gap (m : Magnitude) : Gap :=
  let scale := Nat.pow 2 m.exponent.toNat
  { low := (4 * m.significand - (if m.isPower then 1 else 2)) * scale
    value := 4 * m.significand * scale
    high := (4 * m.significand + 2) * scale
    den := 4 * m.den
    inclusive := m.significand % 2 == 0 }

/-- Does `n / d` round to the value of the gap? -/
def Gap.covers (g : Gap) (n d : Nat) : Bool :=
  let below := g.low * d
  let above := g.high * d
  let here := n * g.den
  if g.inclusive then below ≤ here && here ≤ above else below < here && here < above

/-- The numerator and denominator of `10 ^ k`. -/
def powerOfTen (k : Int) : Nat × Nat := (Nat.pow 10 k.toNat, Nat.pow 10 (-k).toNat)

/-- The multiple of `10 ^ k` that stands for the value of the gap, if one does. -/
def Gap.onGrid (tie : Tie) (g : Gap) (k : Int) : Option Nat :=
  let (p, q) := powerOfTen k
  -- the value in units of the grid is `g.value * q / (g.den * p)`
  let floor := g.value * q / (g.den * p)
  let rest := g.value * q % (g.den * p)
  let low := g.covers (floor * p) q
  let high := g.covers ((floor + 1) * p) q
  if low && high then
    if 2 * rest < g.den * p then some floor
    else if 2 * rest > g.den * p then some (floor + 1)
    else match tie with
      | .upward => some (floor + 1)
      | .toEven => some (if floor % 2 = 0 then floor else floor + 1)
  else if low then some floor
  else if high then some (floor + 1)
  else none

/-- The least `j` up to `fuel` with `n · 10 ^ j ≥ d`. -/
def scaleSteps : Nat → Nat → Nat → Nat
  | 0, _, _ => 0
  | fuel + 1, n, d => if n ≥ d then 0 else scaleSteps fuel (n * 10) d + 1

/-- The exponent of the leading decimal digit of `n / d`, for `n > 0`. -/
def leadingExponent (n d : Nat) : Int :=
  if n ≥ d then ((Nat.toDigits 10 (n / d)).length : Int) - 1 else -(scaleSteps 400 n d : Int)

/-- The first hit on the grids of `count`, `count + 1`, … digits.  Seventeen digits always
    suffice; when the grids run out the number itself is spelled to that many digits. -/
def Gap.firstHit (tie : Tie) (g : Gap) (leading : Int) : Nat → Nat → Decimal
  | 0, count =>
    let k := leading - count + 1
    let (p, q) := powerOfTen k
    ⟨g.value * q / (g.den * p), k⟩
  | fuel + 1, count =>
    let k := leading - count + 1
    match g.onGrid tie k with
    | some digits => ⟨digits, k⟩
    | none => g.firstHit tie leading fuel (count + 1)

/-- Trailing zeros moved into the exponent. -/
def Decimal.trimZeros : Nat → Decimal → Decimal
  | 0, d => d
  | fuel + 1, d =>
    if d.digits ≠ 0 ∧ d.digits % 10 = 0 then trimZeros fuel ⟨d.digits / 10, d.exponent + 1⟩ else d

/-- The shortest decimal that reads back as the magnitude. -/
def Magnitude.shortest (tie : Tie) (m : Magnitude) : Decimal :=
  if m.significand = 0 then ⟨0, 0⟩
  else
    let g := m.gap
    (g.firstHit tie (leadingExponent g.value g.den) 17 1).trimZeros 20

end BranchProbe.Numeral
