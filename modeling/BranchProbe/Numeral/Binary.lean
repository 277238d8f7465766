/-
  The exact value of a floating-point number.

  1. `Magnitude` is `significand · 2 ^ exponent`, a non-negative binary fraction.
  2. `shape` reads sign, magnitude and the two special kinds off the 64 bits of a `Float`.

  Everything that prints a `Float` starts here and goes on in `Nat` arithmetic, so no rounding of
  the processor takes part in a decimal text.
-/

namespace BranchProbe.Numeral

/-- The number `significand · 2 ^ exponent`.  `isPower` says that the significand is the least one
    of its exponent, so that the next smaller float is only half a step away. -/
structure Magnitude where
  significand : Nat
  exponent : Int
  isPower : Bool
  deriving Repr, DecidableEq

/-- What a `Float` stands for. -/
inductive Shape where
  | finite (negative : Bool) (magnitude : Magnitude)
  | infinite (negative : Bool)
  | notANumber
  deriving Repr, DecidableEq

/-- The shape encoded by 64 bits: one sign bit, eleven exponent bits and 52 fraction bits. -/
def shapeOfBits (bits : Nat) : Shape :=
  let negative := bits / Nat.pow 2 63 == 1
  let exponent : Nat := bits / Nat.pow 2 52 % 2048
  let fraction : Nat := bits % Nat.pow 2 52
  if exponent = 2047 then
    if fraction = 0 then .infinite negative else .notANumber
  else if exponent = 0 then .finite negative ⟨fraction, -1074, false⟩
  else
    .finite negative
      ⟨fraction + Nat.pow 2 52, (exponent : Int) - 1075, fraction == 0 && exponent > 1⟩

/-- The shape of a float. -/
def shape (x : Float) : Shape := shapeOfBits x.toBits.toNat

namespace Magnitude

/-- The numerator of the magnitude, over `den`. -/
def num (m : Magnitude) : Nat := m.significand * Nat.pow 2 m.exponent.toNat

/-- The denominator of the magnitude, a power of two. -/
def den (m : Magnitude) : Nat := Nat.pow 2 (-m.exponent).toNat

end Magnitude

end BranchProbe.Numeral
