import RegressionGate.Binary64.Basic
import RegressionGate.Decimal.Power

/-! Arithmetic on binary64 numbers: each operation takes the exact result on the integers behind
its operands and rounds it once. -/

namespace RegressionGate.Binary64

protected def neg (x : Binary64) : Binary64 := { x with negative := !x.negative }

instance : Neg Binary64 := ⟨Binary64.neg⟩

def ofNat (n : Nat) : Binary64 := ofRatio false (n * oneUnits) 1

instance (n : Nat) : OfNat Binary64 n := ⟨ofNat n⟩

/-- The number nearest to `digits * 10 ^ exponent`, of the given sign. Exponents so far out that
the value must overflow or vanish are settled without computing the power. -/
def ofDecimal (negative : Bool) (digits : Nat) (exponent : Int) : Binary64 :=
  if digits = 0 then zero negative
  else if 400 < exponent then infinity negative
  else if exponent < -(400 + digits.log2 : Int) then zero negative
  else
    ofRatio negative (digits * Decimal.tenTo exponent.toNat * oneUnits)
      (Decimal.tenTo (-exponent).toNat)

/-- The difference; two equal operands give +0, except that −0 − +0 is −0. -/
protected def sub (x y : Binary64) : Binary64 :=
  if x.IsNaN ∨ y.IsNaN then nan
  else if x.IsInfinite then
    if y.IsInfinite ∧ x.negative = y.negative then nan else x
  else if y.IsInfinite then -y
  else
    let d := x.units - y.units
    if d = 0 then zero (x.negative && !y.negative)
    else ofRatio (decide (d < 0)) d.natAbs 1

instance : Sub Binary64 := ⟨Binary64.sub⟩

protected def mul (x y : Binary64) : Binary64 :=
  let negative := x.negative ^^ y.negative
  if x.IsNaN ∨ y.IsNaN then nan
  else if x.IsInfinite ∨ y.IsInfinite then
    if x.IsZero ∨ y.IsZero then nan else infinity negative
  else ofRatio negative (unitsOf x.magnitude * unitsOf y.magnitude) oneUnits

instance : Mul Binary64 := ⟨Binary64.mul⟩

protected def div (x y : Binary64) : Binary64 :=
  let negative := x.negative ^^ y.negative
  if x.IsNaN ∨ y.IsNaN then nan
  else if x.IsInfinite then
    if y.IsInfinite then nan else infinity negative
  else if y.IsInfinite then zero negative
  else if y.IsZero then
    if x.IsZero then nan else infinity negative
  else ofRatio negative (unitsOf x.magnitude * oneUnits) (unitsOf y.magnitude)

instance : Div Binary64 := ⟨Binary64.div⟩

end RegressionGate.Binary64
