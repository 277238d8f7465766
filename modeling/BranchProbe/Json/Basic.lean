/-
  Values of a JSON document.

  1. `Json.Number` keeps whole numbers apart from floats, and a negative whole number apart from a
     natural one, so each number has one form.
  2. `Json` keeps the members of an object in the order in which they are written; an object that
     was read has its members in ascending order of their keys, each key once.
-/

namespace BranchProbe

/-- A number of a document: a whole number of 64 bits, or a float. -/
inductive Json.Number where
  | natural (n : UInt64)
  | negative (n : Int64) (isNegative : n < 0)
  | float (x : Float)
  deriving Repr

/-- A JSON value. -/
inductive Json where
  | null
  | bool (b : Bool)
  | number (n : Json.Number)
  | text (s : String)
  | list (items : List Json)
  | object (members : List (String × Json))
  deriving Repr, Inhabited

namespace Json

/-- A signed whole number of 64 bits as a number of a document. -/
def Number.ofInt64 (n : Int64) : Number :=
  if h : n < 0 then .negative n h else .natural (UInt64.ofNat n.toInt.toNat)

/-- The number of a document nearest to `x` is `x` itself, but the infinities and NaN are no
    numbers of a document: they are written `null`. -/
def ofFloat (x : Float) : Json := .number (.float x)

/-- A signed whole number as a value. -/
def ofInt64 (n : Int64) : Json := .number (.ofInt64 n)

/-- A count as a value. -/
def ofNat (n : Nat) : Json := .number (.natural (UInt64.ofNat n))

end Json

end BranchProbe
