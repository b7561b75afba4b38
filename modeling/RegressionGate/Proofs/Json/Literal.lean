import Mathlib.Algebra.Order.Field.Power
import RegressionGate.Proofs.Binary64.Rational
import RegressionGate.Proofs.Json.Grammar

/-! The rational number that a literal denotes, and the number nearest to it. -/

namespace RegressionGate.Json

/-- The natural number that digits spell. -/
def numeral (ds : Bytes) : Nat := ds.foldl (fun n d => n * 10 + digitValue d) 0

theorem foldl_digits (n : Nat) (ds : Bytes) :
    ds.foldl (fun n d => n * 10 + digitValue d) n = n * 10 ^ ds.length + numeral ds := by
  induction ds generalizing n with
  | nil => simp [numeral]
  | cons d ds ih =>
    rw [numeral, List.foldl_cons, List.foldl_cons, ih, ih (0 * 10 + digitValue d), List.length_cons]
    ring

theorem numeral_append (ds es : Bytes) :
    numeral (ds ++ es) = numeral ds * 10 ^ es.length + numeral es := by
  rw [numeral, List.foldl_append, ← numeral, foldl_digits]

theorem numeral_cons (d : UInt8) (ds : Bytes) :
    numeral (d :: ds) = digitValue d * 10 ^ ds.length + numeral ds := by
  rw [← List.singleton_append, numeral_append]
  simp [numeral]

/-- The exponent that is written behind a literal. -/
def Literal.writtenExponent (l : Literal) : Int :=
  match l.exponent with
  | none => 0
  | some (negative, ds) => if negative then -numeral ds else numeral ds

/-- The number that a literal denotes. -/
def Literal.value (l : Literal) : ℚ :=
  (if l.negative then -1 else 1) * numeral (l.whole ++ l.fraction) *
    10 ^ (l.writtenExponent - l.fraction.length)

/-- The number nearest to the one that a literal denotes. A zero has the sign that is written. -/
def Literal.nearest (l : Literal) : Binary64 := Binary64.nearest l.negative l.value

theorem Literal.abs_value (l : Literal) :
    |l.value| =
      numeral (l.whole ++ l.fraction) * 10 ^ (l.writtenExponent - l.fraction.length) := by
  have hnonneg : (0 : ℚ) ≤
      numeral (l.whole ++ l.fraction) * 10 ^ (l.writtenExponent - l.fraction.length) := by
    positivity
  rw [Literal.value, mul_assoc, abs_mul, abs_of_nonneg hnonneg]
  split <;> simp

/-- The sign that is written. -/
def Literal.sign (l : Literal) : ℚ := if l.negative then -1 else 1

theorem Literal.abs_sign_mul (l : Literal) (q : ℚ) : |l.sign * q| = |q| := by
  rw [Literal.sign, abs_mul]
  split <;> simp

theorem Literal.value_eq (l : Literal) : l.value = l.sign * |l.value| := by
  rw [Literal.abs_value, ← mul_assoc]
  rfl

theorem Literal.value_nonneg_iff (l : Literal) :
    0 ≤ l.value ↔ l.negative = false ∨ |l.value| = 0 := by
  rw [Literal.value_eq, Literal.abs_sign_mul, abs_abs, Literal.sign]
  have habs := abs_nonneg l.value
  cases l.negative with
  | false => simp
  | true =>
    simp only [if_true, neg_mul, one_mul, Bool.true_eq_false, false_or, Left.nonneg_neg_iff]
    exact ⟨fun h => le_antisymm h habs, fun h => h.le⟩

end RegressionGate.Json
