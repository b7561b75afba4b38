import RegressionGate.Binary64.Basic
import RegressionGate.Decimal.Power

/-! The shortest decimal that reads back as a given binary64 magnitude: the coarsest decimal grid
with a point in the interval that rounds to the magnitude, and on it the point nearest to the exact
value, a tie going as asked for. -/

namespace RegressionGate.Decimal

/-- The number `digits * 10 ^ exponent`. -/
structure Scientific where
  digits : Nat
  exponent : Int
deriving DecidableEq, Repr

/-- Twice the ends of the interval of values that round to a positive finite magnitude, in
multiples of 2^-1074. The ends themselves belong to it when the magnitude is even. -/
def roundingInterval (magnitude : Nat) : Nat × Nat :=
  let u := Binary64.unitsOf magnitude
  (Binary64.unitsOf (magnitude - 1) + u, u + Binary64.unitsOf (magnitude + 1))

/-- Two integers in the ratio of `10 ^ exponent` to 2^-1075, the unit of `roundingInterval`. -/
def gridScale (exponent : Int) : Nat × Nat :=
  (2 * Binary64.oneUnits * tenTo exponent.toNat, tenTo (-exponent).toNat)

/-- Whether `digits * 10 ^ exponent` rounds to `magnitude`. -/
def ReadsBack (magnitude digits : Nat) (exponent : Int) : Prop :=
  let (lo, hi) := roundingInterval magnitude
  let (p, q) := gridScale exponent
  if magnitude % 2 = 0 then lo * q ≤ digits * p ∧ digits * p ≤ hi * q
  else lo * q < digits * p ∧ digits * p < hi * q

instance (magnitude digits : Nat) (exponent : Int) :
    Decidable (ReadsBack magnitude digits exponent) := by
  unfold ReadsBack; infer_instance

/-- The point of the grid of `10 ^ exponent` nearest to the value of `magnitude` among those that
read back. Only the two neighbours of the value need to be tried. -/
def onGrid? (tie : Tie) (magnitude : Nat) (exponent : Int) : Option Nat :=
  let (p, q) := gridScale exponent
  let v := 2 * Binary64.unitsOf magnitude * q
  let below := v / p
  let nearest := tie.round v p
  if ReadsBack magnitude nearest exponent then some nearest
  else if ReadsBack magnitude below exponent then some below
  else if ReadsBack magnitude (below + 1) exponent then some (below + 1)
  else none

/-- The first grid with a hit, from `10 ^ exponent` to finer ones. -/
def coarsest (tie : Tie) (magnitude : Nat) : (steps : Nat) → (exponent : Int) → Scientific
  | 0, exponent => ⟨0, exponent⟩
  | steps + 1, exponent =>
    match onGrid? tie magnitude exponent with
    | some digits => ⟨digits, exponent⟩
    | none => coarsest tie magnitude steps (exponent - 1)

/-- An exponent of ten above which no power of ten is as small as the value of `magnitude`. -/
def leadingBound (magnitude : Nat) : Int :=
  ((Binary64.unitsOf magnitude).log2 - 1073 : Int) * 30103 / 100000 + 1

/-- The shortest decimal that rounds to `magnitude`, the nearest one to its exact value. Seventeen
significant digits always suffice. -/
def shortest (tie : Tie) (magnitude : Nat) : Scientific :=
  if magnitude = 0 then ⟨0, 0⟩ else coarsest tie magnitude 24 (leadingBound magnitude)

end RegressionGate.Decimal
