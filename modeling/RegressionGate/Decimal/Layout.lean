import RegressionGate.Decimal.Shortest

/-! Decimal texts of binary64 numbers: the plain notation, which writes every place out, and a
fixed number of places. -/

namespace RegressionGate

namespace Decimal

/-- The decimal digits of a natural number, without leading zeros. -/
def digitsOf (n : Nat) : List Char := Nat.toDigits 10 n

def zeros (n : Nat) : List Char := List.replicate n '0'

/-- The digits of `n` with a point before the last `places` of them; at least one digit stands
before the point. -/
def pointed (n places : Nat) : List Char :=
  let ds := digitsOf n
  let padded := zeros (places + 1 - ds.length) ++ ds
  if places = 0 then padded
  else padded.take (padded.length - places) ++ '.' :: padded.drop (padded.length - places)

/-- A decimal written out in full, without an exponent and without a fraction that is zero. -/
def Scientific.plain (x : Scientific) : List Char :=
  if 0 ≤ x.exponent then
    if x.digits = 0 then ['0'] else digitsOf x.digits ++ zeros x.exponent.toNat
  else pointed x.digits (-x.exponent).toNat

end Decimal

namespace Binary64

open Decimal

def sign (x : Binary64) : List Char := if x.negative then ['-'] else []

/-- The text of a number as it stands in messages: shortest digits, the greater of two equally near
ones, never an exponent, and no fraction for a whole number. -/
def plain (x : Binary64) : String :=
  if x.IsNaN then "NaN"
  else if x.IsInfinite then String.ofList (x.sign ++ "inf".toList)
  else String.ofList (x.sign ++ (shortest .up x.magnitude).plain)

/-- The text of a finite absolute value with `places` digits after the point, the exact value
rounded to nearest and a tie to even. -/
def fixedAbs (magnitude places : Nat) : List Char :=
  pointed (roundHalfEven (unitsOf magnitude * tenTo places) oneUnits) places

def fixed (x : Binary64) (places : Nat) : String :=
  if x.IsNaN then "NaN"
  else if x.IsInfinite then String.ofList (x.sign ++ "inf".toList)
  else String.ofList (x.sign ++ fixedAbs x.magnitude places)

end Binary64

end RegressionGate
