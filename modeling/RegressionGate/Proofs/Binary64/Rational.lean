import RegressionGate.Proofs.Binary64.Closest

/-! The numbers nearest to rational ones: which of them are in range, that none is closer, and how
far off they are. -/

namespace RegressionGate.Binary64

/-- The number of the given sign whose absolute value is nearest to that of `q`. -/
def nearest (negative : Bool) (q : ℚ) : Binary64 :=
  ofRatio negative (q.num.natAbs * oneUnits) q.den

variable {negative : Bool} {q : ℚ}

theorem oneUnits_cast_pos : (0 : ℚ) < oneUnits := Nat.cast_pos.mpr oneUnits_pos

theorem oneUnits_eq : (oneUnits : ℚ) = 2 ^ 1074 := by
  simp only [oneUnits, Nat.one_shiftLeft, Nat.cast_pow, Nat.cast_ofNat]

theorem value_abs (x : Binary64) : x.abs.value = unitsOf x.magnitude / oneUnits := rfl

/-- The quotient that is rounded, in multiples of 2^-1074. -/
theorem quotient_eq (q : ℚ) : ((q.num.natAbs * oneUnits : Nat) : ℚ) / q.den = |q| * oneUnits := by
  have habs : |q| = q.num.natAbs / q.den := by
    conv_lhs => rw [← Rat.num_div_den q]
    rw [abs_div, Nat.abs_cast, Nat.cast_natAbs, Int.cast_abs]
  rw [habs, Nat.cast_mul, div_mul_eq_mul_div]

theorem ofRatio_eq_nearest {n d : Nat} (hd : 0 < d) (h : (n : ℚ) / d = |q| * oneUnits) :
    ofRatio negative n d = nearest negative q := by
  refine ofRatio_congr rfl hd q.den_pos ?_
  rw [← quotient_eq, div_eq_div_iff (Nat.cast_pos.mpr hd).ne' (Nat.cast_pos.mpr q.den_pos).ne'] at h
  exact_mod_cast h

theorem nearest_congr {q' : ℚ} (h : |q'| = |q|) : nearest negative q' = nearest negative q :=
  ofRatio_eq_nearest q'.den_pos ((quotient_eq q').trans (by rw [h]))

/-! ### Range -/

/-- From here on a number overflows: halfway between the greatest finite number and the next power
of two. -/
def overflow : ℚ := 2 ^ 1024 - 2 ^ 970

theorem overflowUnits_eq : (overflowUnits : ℚ) = 2 * (overflow * oneUnits) := by
  have h : overflowUnits = 2 * ((2 ^ 1024 - 2 ^ 970) * oneUnits) := by decide +kernel
  have hle : 2 ^ 970 ≤ 2 ^ 1024 := by decide +kernel
  rw [h, overflow, Nat.cast_mul, Nat.cast_mul, Nat.cast_sub hle, Nat.cast_pow, Nat.cast_pow,
    Nat.cast_ofNat]

theorem isFinite_nearest_iff : (nearest negative q).IsFinite ↔ |q| < overflow := by
  rw [IsFinite, nearest, ofRatio, nearestMagnitude_lt_iff q.den_pos,
    ← mul_lt_mul_iff_of_pos_right oneUnits_cast_pos, ← quotient_eq,
    div_lt_iff₀ (Nat.cast_pos.mpr q.den_pos), ← Nat.cast_lt (α := ℚ), Nat.cast_mul 2,
    Nat.cast_mul overflowUnits, overflowUnits_eq, Nat.cast_ofNat, mul_assoc 2,
    mul_lt_mul_iff_of_pos_left two_pos]

/-! ### Distance -/

theorem magnitude_nearest (h : (nearest negative q).IsFinite) :
    (nearest negative q).magnitude = place (q.num.natAbs * oneUnits) q.den := by
  have hmin := nearestMagnitude_eq_min (q.num.natAbs * oneUnits) q.den
  rw [IsFinite] at h
  show nearestMagnitude _ _ = _
  replace h : nearestMagnitude (q.num.natAbs * oneUnits) q.den < infinityMagnitude := h
  omega

/-- How far the absolute values of a number and of `q` are apart. -/
def distance (x : Binary64) (q : ℚ) : ℚ := abs (x.abs.value - |q|)

/-- Distances in multiples of 2^-1074. -/
theorem distance_mul_oneUnits (x : Binary64) (q : ℚ) :
    distance x q * oneUnits =
      |(unitsOf x.magnitude : ℚ) - (q.num.natAbs * oneUnits : Nat) / (q.den : ℚ)| := by
  have hone := oneUnits_cast_pos
  rw [distance, quotient_eq, value_abs, ← abs_of_pos hone, ← abs_mul, abs_of_pos hone, sub_mul,
    div_mul_cancel₀ _ hone.ne']

/-- Whether a number in range is as close to `q` as any other is, and even where another is as
close. -/
structure IsNearest (x : Binary64) (q : ℚ) : Prop where
  isFinite : x.IsFinite
  closest (y : Binary64) : distance x q ≤ distance y q
  even (y : Binary64) (h : y.magnitude ≠ x.magnitude) (tie : distance y q = distance x q) :
    x.magnitude % 2 = 0

theorem distance_le_iff {x y : Binary64} : distance x q ≤ distance y q ↔
    |(unitsOf x.magnitude : ℚ) - (q.num.natAbs * oneUnits : Nat) / (q.den : ℚ)| ≤
      |(unitsOf y.magnitude : ℚ) - (q.num.natAbs * oneUnits : Nat) / (q.den : ℚ)| := by
  rw [← mul_le_mul_iff_of_pos_right oneUnits_cast_pos, distance_mul_oneUnits,
    distance_mul_oneUnits]

theorem distance_eq_iff {x y : Binary64} : distance x q = distance y q ↔
    |(unitsOf x.magnitude : ℚ) - (q.num.natAbs * oneUnits : Nat) / (q.den : ℚ)| =
      |(unitsOf y.magnitude : ℚ) - (q.num.natAbs * oneUnits : Nat) / (q.den : ℚ)| := by
  rw [le_antisymm_iff, le_antisymm_iff, distance_le_iff, distance_le_iff]

/-- The nearest number of a sign is the one that is closest, an even one in a tie. -/
theorem isNearest_iff {x : Binary64} :
    x.negative = negative ∧ x.IsNearest q ↔ x = nearest negative q ∧ x.IsFinite := by
  constructor
  · rintro ⟨rfl, h⟩
    refine ⟨?_, h.isFinite⟩
    have hinfinity := distance_le_iff.mp (h.closest (infinity false))
    simp only [infinity] at hinfinity
    have hle := place_le_of_closest q.den_pos h.isFinite hinfinity
    obtain ⟨y, hy⟩ : ∃ y : Binary64, y.magnitude = place (q.num.natAbs * oneUnits) q.den :=
      ⟨⟨false, _, Nat.lt_of_le_of_lt hle infinityMagnitude_lt⟩, rfl⟩
    have hclosest := distance_le_iff.mp (h.closest y)
    have heven := h.even y
    rw [distance_eq_iff] at heven
    rw [hy] at hclosest heven
    have hplace := eq_place q.den_pos hclosest heven
    obtain ⟨s, m, hm⟩ := x
    obtain rfl : m = _ := hplace
    simp only [nearest, ofRatio, nearestMagnitude_eq_min, Nat.min_eq_left hle]
  · rintro ⟨rfl, h⟩
    have hmagnitude := magnitude_nearest h
    refine ⟨rfl, h, fun y => ?_, fun y hne htie => ?_⟩
    · rw [distance_le_iff, hmagnitude]
      exact place_closest q.den_pos _
    · rw [distance_eq_iff] at htie
      rw [hmagnitude] at hne htie ⊢
      exact place_even_of_tie q.den_pos hne htie

/-- The distance to the nearest number. The first bound is for numbers close to zero. -/
theorem distance_nearest_le (h : (nearest negative q).IsFinite) :
    distance (nearest negative q) q ≤ max (1 / 2 ^ 1075) (|q| / 2 ^ 53) := by
  have hone := oneUnits_cast_pos
  have hle := abs_unitsOf_place_sub_le (n := q.num.natAbs * oneUnits) q.den_pos
  rw [← magnitude_nearest h, ← distance_mul_oneUnits, quotient_eq, ← le_div_iff₀ hone] at hle
  refine hle.trans_eq ?_
  rw [← max_div_div_right hone.le, oneUnits_eq, div_div, ← pow_succ', div_right_comm,
    mul_div_cancel_right₀ _ (by positivity)]

end RegressionGate.Binary64
