import Mathlib.Algebra.Order.Field.Basic
import Mathlib.Algebra.Order.Field.Rat
import Mathlib.Tactic.FieldSimp
import Mathlib.Tactic.Linarith
import RegressionGate.Binary64.Arithmetic
import RegressionGate.Proofs.Binary64.Nearest

/-! The numbers that encodings stand for, and where arithmetic on encodings is arithmetic on
numbers: each operation rounds an exact result, and a difference of numbers that are close to each
other needs no rounding. -/

namespace RegressionGate.Binary64

variable {x y : Binary64}

theorem IsFinite.not_isNaN (h : x.IsFinite) : ¬x.IsNaN := Nat.lt_asymm h

theorem IsFinite.not_isInfinite (h : x.IsFinite) : ¬x.IsInfinite := Nat.ne_of_lt h

/-! ### Absolute values -/

protected def abs (x : Binary64) : Binary64 := { x with negative := false }

@[simp] theorem magnitude_abs (x : Binary64) : x.abs.magnitude = x.magnitude := rfl

protected theorem abs_div (x y : Binary64) : (x / y).abs = x.abs / y.abs := by
  show (Binary64.div x y).abs = Binary64.div x.abs y.abs
  unfold Binary64.div
  simp only [apply_ite Binary64.abs]
  rfl

protected theorem abs_mul (x y : Binary64) : (x * y).abs = x.abs * y.abs := by
  show (Binary64.mul x y).abs = Binary64.mul x.abs y.abs
  unfold Binary64.mul
  simp only [apply_ite Binary64.abs]
  rfl

/-! ### Exact values -/

theorem oneUnits_pos : 0 < oneUnits := by decide

/-- The number that a finite encoding stands for. -/
def value (x : Binary64) : ℚ := x.units / oneUnits

theorem natAbs_units (x : Binary64) : x.units.natAbs = unitsOf x.magnitude := by
  rw [units]
  split <;> simp

theorem unitsOf_eq_zero_iff {m : Nat} : unitsOf m = 0 ↔ m = 0 := by
  rw [unitsOf]
  split
  · exact Iff.rfl
  · rename_i hm
    have hne : m ≠ 0 := by
      rintro rfl
      exact hm (by decide)
    rw [Nat.shiftLeft_eq_zero_iff]
    simp [hne, binade]

theorem value_lt_value : x.value < y.value ↔ x.units < y.units := by
  have hpos : (0 : ℚ) < oneUnits := Nat.cast_pos.mpr oneUnits_pos
  rw [value, value, div_lt_div_iff_of_pos_right hpos, Int.cast_lt]

theorem value_le_two_mul : x.value ≤ 2 * y.value ↔ x.units ≤ 2 * y.units := by
  have hpos : (0 : ℚ) < oneUnits := Nat.cast_pos.mpr oneUnits_pos
  rw [value, value, ← mul_div_assoc, div_le_div_iff_of_pos_right hpos]
  exact_mod_cast Iff.rfl

theorem value_pos : 0 < x.value ↔ 0 < x.units := by
  have hpos : (0 : ℚ) < oneUnits := Nat.cast_pos.mpr oneUnits_pos
  rw [value, lt_div_iff₀ hpos, zero_mul, Int.cast_pos]

theorem value_nonneg : 0 ≤ x.value ↔ 0 ≤ x.units := by
  have hpos : (0 : ℚ) < oneUnits := Nat.cast_pos.mpr oneUnits_pos
  rw [value, le_div_iff₀ hpos, zero_mul, Int.cast_nonneg_iff]

theorem negative_of_nonneg (h : 0 ≤ x.value) (hx : x.magnitude ≠ 0) : x.negative = false := by
  rw [value_nonneg, units] at h
  have hpos : 0 < unitsOf x.magnitude := Nat.pos_of_ne_zero (mt unitsOf_eq_zero_iff.mp hx)
  cases hneg : x.negative with
  | false => rfl
  | true =>
    rw [hneg, if_pos rfl] at h
    omega

theorem units_of_nonneg (h : 0 ≤ x.value) : x.units = unitsOf x.magnitude := by
  rw [← natAbs_units, Int.natAbs_of_nonneg (value_nonneg.mp h)]

theorem rank_of_nonneg (h : 0 ≤ x.value) : x.rank = x.magnitude := by
  rw [rank]
  by_cases hx : x.magnitude = 0
  · simp [hx]
  · simp [negative_of_nonneg h hx]

theorem rank_neg (x : Binary64) : (-x).rank = -x.rank := by
  show Binary64.rank { x with negative := !x.negative } = _
  cases h : x.negative <;> simp [rank, h]

/-! ### Operations on finite numbers -/

theorem sub_of_isFinite (hx : x.IsFinite) (hy : y.IsFinite) :
    x - y = if x.units = y.units then zero (x.negative && !y.negative)
      else ofRatio (decide (x.units < y.units)) (x.units - y.units).natAbs 1 := by
  show Binary64.sub x y = _
  rw [Binary64.sub, if_neg (not_or.mpr ⟨hx.not_isNaN, hy.not_isNaN⟩), if_neg hx.not_isInfinite,
    if_neg hy.not_isInfinite]
  simp only [sub_eq_zero, sub_neg]

theorem magnitude_sub (hx : x.IsFinite) (hy : y.IsFinite) :
    (x - y).magnitude = nearestMagnitude (x.units - y.units).natAbs 1 := by
  rw [sub_of_isFinite hx hy]
  split
  · rename_i h
    rw [h, Int.sub_self]
    rfl
  · rfl

theorem units_ofRatio (negative : Bool) (n d : Nat) :
    (ofRatio negative n d).units = if negative then -(unitsOf (nearestMagnitude n d) : Int)
      else unitsOf (nearestMagnitude n d) := rfl

theorem ofRatio_congr {s s' : Bool} {n d n' d' : Nat} (hs : s = s') (hd : 0 < d) (hd' : 0 < d')
    (h : n * d' = n' * d) : ofRatio s n d = ofRatio s' n' d' := by
  simp only [ofRatio, hs, nearestMagnitude_congr hd hd' h]

theorem not_isNaN_ofRatio (negative : Bool) (n d : Nat) : ¬(ofRatio negative n d).IsNaN :=
  Nat.not_lt.mpr (nearestMagnitude_le n d)

/-- The difference of numbers not below zero is in range. -/
theorem isFinite_sub_of_nonneg (hx : x.IsFinite) (hy : y.IsFinite) (hx0 : 0 ≤ x.value)
    (hy0 : 0 ≤ y.value) : (x - y).IsFinite := by
  have hxu := units_of_nonneg hx0
  have hyu := units_of_nonneg hy0
  rw [IsFinite, magnitude_sub hx hy]
  rcases Int.le_total x.units y.units with h | h
  · refine Nat.lt_of_le_of_lt (nearestMagnitude_le_of_le (by decide) (Nat.le_of_lt hy) ?_) hy
    omega
  · refine Nat.lt_of_le_of_lt (nearestMagnitude_le_of_le (by decide) (Nat.le_of_lt hx) ?_) hx
    omega

/-- Numbers at most a factor of two apart have a difference that needs no rounding. -/
theorem units_sub_of_close (hx : x.IsFinite) (hy : y.IsFinite) (h : x.value ≤ 2 * y.value)
    (h' : y.value ≤ 2 * x.value) : (x - y).units = x.units - y.units := by
  have hxu := units_of_nonneg (x := x) (by linarith)
  have hyu := units_of_nonneg (x := y) (by linarith)
  rw [value_le_two_mul] at h h'
  rw [sub_of_isFinite hx hy]
  rcases Int.lt_trichotomy x.units y.units with hlt | heq | hgt
  · have hdiff : (x.units - y.units).natAbs = unitsOf y.magnitude - unitsOf x.magnitude := by omega
    have hexact := unitsOf_nearestMagnitude_sub (m := y.magnitude) hx (by omega) (by omega)
    rw [if_neg (Int.ne_of_lt hlt), decide_eq_true hlt, units_ofRatio, hdiff, hexact]
    simp only [if_true]
    omega
  · rw [if_pos heq, heq, Int.sub_self]
    simp [units, zero, unitsOf, binade]
  · have hdiff : (x.units - y.units).natAbs = unitsOf x.magnitude - unitsOf y.magnitude := by omega
    have hexact := unitsOf_nearestMagnitude_sub (m := x.magnitude) hy (by omega) (by omega)
    rw [if_neg (Int.ne_of_gt hgt), decide_eq_false (Int.lt_asymm hgt), units_ofRatio, hdiff, hexact]
    simp only [Bool.false_eq_true, if_false]
    omega

theorem div_of_isFinite (hx : x.IsFinite) (hy : y.IsFinite) (h : ¬y.IsZero) :
    x / y = ofRatio (x.negative ^^ y.negative) (unitsOf x.magnitude * oneUnits)
      (unitsOf y.magnitude) := by
  show Binary64.div x y = _
  rw [Binary64.div, if_neg (not_or.mpr ⟨hx.not_isNaN, hy.not_isNaN⟩), if_neg hx.not_isInfinite,
    if_neg hy.not_isInfinite, if_neg h]

/-- A product with a finite number that is no zero has the sign of a product. -/
theorem mul_of_isFinite (hx : ¬x.IsNaN) (hy : y.IsFinite) (h : ¬y.IsZero) :
    ¬(x * y).IsNaN ∧ (x * y).negative = (x.negative ^^ y.negative) := by
  show ¬(Binary64.mul x y).IsNaN ∧ (Binary64.mul x y).negative = _
  rw [Binary64.mul, if_neg (not_or.mpr ⟨hx, hy.not_isNaN⟩)]
  by_cases hinf : x.IsInfinite
  · have hzero : ¬x.IsZero := fun hzero => absurd (hzero.symm.trans hinf) (by decide)
    rw [if_pos (.inl hinf), if_neg (not_or.mpr ⟨hzero, h⟩)]
    exact ⟨Nat.lt_irrefl _, rfl⟩
  · rw [if_neg (not_or.mpr ⟨hinf, hy.not_isInfinite⟩)]
    exact ⟨not_isNaN_ofRatio _ _ _, rfl⟩

end RegressionGate.Binary64
