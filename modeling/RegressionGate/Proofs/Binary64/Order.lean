import RegressionGate.Proofs.Binary64.Within

/-! The order of numbers: rounding keeps it, and so do a difference, a quotient and a product with
one operand fixed, each of them being the exact result rounded. -/

namespace RegressionGate.Binary64

variable {x y z : Binary64} {negative negative' : Bool} {q q' : ℚ}

/-- `x ≤ y` as numbers: false when either is not-a-number. -/
instance : LE Binary64 := ⟨fun x y => ¬x.IsNaN ∧ ¬y.IsNaN ∧ x.rank ≤ y.rank⟩

instance (x y : Binary64) : Decidable (x ≤ y) := inferInstanceAs (Decidable (_ ∧ _ ∧ _))

theorem le_def : x ≤ y ↔ ¬x.IsNaN ∧ ¬y.IsNaN ∧ x.rank ≤ y.rank := Iff.rfl

protected theorem le_trans (h : x ≤ y) (h' : y ≤ z) : x ≤ z :=
  ⟨h.1, h'.2.1, Int.le_trans h.2.2 h'.2.2⟩

protected theorem lt_irrefl (x : Binary64) : ¬x < x := fun h => Int.lt_irrefl _ h.2.2

protected theorem lt_asymm (h : x < y) : ¬y < x := fun h' => Int.lt_asymm h.2.2 h'.2.2

protected theorem ne_of_lt (h : x < y) : x ≠ y := by
  rintro rfl
  exact Binary64.lt_irrefl x h

protected theorem lt_of_lt_of_le (h : x < y) (h' : y ≤ z) : x < z :=
  ⟨h.1, h'.2.1, Int.lt_of_lt_of_le h.2.2 h'.2.2⟩

protected theorem lt_of_le_of_lt (h : x ≤ y) (h' : y < z) : x < z :=
  ⟨h.1, h'.2.1, Int.lt_of_le_of_lt h.2.2 h'.2.2⟩

protected theorem not_lt (hx : ¬x.IsNaN) (hy : ¬y.IsNaN) : ¬x < y ↔ y ≤ x := by
  rw [lt_def, le_def]
  simp only [hx, hy, not_false_eq_true, true_and, Int.not_lt]

theorem rank_of_negative (h : x.negative = true) : x.rank = -x.magnitude := by
  rw [rank, if_pos h]

theorem rank_of_positive (h : x.negative = false) : x.rank = x.magnitude := by
  rw [rank, h, if_neg Bool.false_ne_true]

theorem rank_of_isZero (h : x.IsZero) : x.rank = 0 := by
  rw [rank, h]
  split <;> rfl

theorem eq_of_rank_eq (h : x.rank = y.rank) (hx : ¬x.IsZero) : x = y := by
  obtain ⟨s, m, hm⟩ := x
  obtain ⟨s', m', hm'⟩ := y
  rw [IsZero] at hx
  cases s <;> cases s' <;> simp [rank] at h hx ⊢ <;> omega

/-! ### Exact values -/

theorem value_le_value : x.value ≤ y.value ↔ x.units ≤ y.units := by
  rw [← not_lt, value_lt_value, Int.not_lt]

/-- Ranks are in the order of the values. -/
theorem rank_le_rank_iff : x.rank ≤ y.rank ↔ x.value ≤ y.value := by
  have hle := unitsOf_strictMono.le_iff_le (a := x.magnitude) (b := y.magnitude)
  have hge := unitsOf_strictMono.le_iff_le (a := y.magnitude) (b := x.magnitude)
  have hx := unitsOf_eq_zero_iff (m := x.magnitude)
  have hy := unitsOf_eq_zero_iff (m := y.magnitude)
  rw [value_le_value, rank, rank, units, units]
  cases x.negative <;> cases y.negative <;> simp only [if_true, Bool.false_eq_true, if_false] <;>
    omega

theorem rank_lt_rank_iff : x.rank < y.rank ↔ x.value < y.value := by
  rw [← Int.not_le, rank_le_rank_iff, not_le]

theorem le_iff_value_le (hx : x.IsFinite) (hy : y.IsFinite) : x ≤ y ↔ x.value ≤ y.value := by
  rw [← rank_le_rank_iff]
  exact ⟨fun h => h.2.2, fun h => ⟨hx.not_isNaN, hy.not_isNaN, h⟩⟩

theorem lt_iff_value_lt (hx : x.IsFinite) (hy : y.IsFinite) : x < y ↔ x.value < y.value := by
  rw [← rank_lt_rank_iff]
  exact ⟨fun h => h.2.2, fun h => ⟨hx.not_isNaN, hy.not_isNaN, h⟩⟩

theorem rank_zero : (0 : Binary64).rank = 0 := by decide +kernel

theorem isFinite_zero : (0 : Binary64).IsFinite := by decide +kernel

theorem value_zero : (0 : Binary64).value = 0 := by decide +kernel

theorem IsZero.lt_iff (h : z.IsZero) : (z < x ↔ 0 < x) ∧ (x < z ↔ x < 0) := by
  have hnan : ¬z.IsNaN := by
    rw [IsNaN, h]
    exact Nat.not_lt_zero _
  simp only [lt_def, rank_of_isZero h, rank_zero, hnan, isFinite_zero.not_isNaN, and_self]

theorem IsZero.not_pos (h : x.IsZero) : ¬0 < x := fun hpos =>
  Binary64.lt_irrefl _ (h.lt_iff.1.mpr hpos)

theorem IsZero.not_neg (h : x.IsZero) : ¬x < 0 := fun hneg =>
  Binary64.lt_irrefl _ (h.lt_iff.2.mpr hneg)

theorem not_isZero_of_lt (h : 0 < x) : ¬x.IsZero := fun hzero => hzero.not_pos h

theorem isZero_of_rank (h : x.rank = 0) : x.IsZero := by
  rw [rank] at h
  rw [IsZero]
  split at h <;> omega

theorem isZero_iff (hx : ¬x.IsNaN) : x.IsZero ↔ ¬0 < x ∧ ¬x < 0 := by
  refine ⟨fun h => ⟨h.not_pos, h.not_neg⟩, fun ⟨hpos, hneg⟩ => isZero_of_rank ?_⟩
  have hnonneg := (Binary64.not_lt hx isFinite_zero.not_isNaN).mp hneg
  have hnonpos := (Binary64.not_lt isFinite_zero.not_isNaN hx).mp hpos
  exact Int.le_antisymm (hnonpos.2.2.trans_eq rank_zero) (rank_zero.symm.trans_le hnonneg.2.2)

theorem nonneg_of_not_lt (hx : x.IsFinite) (h : ¬x < zero false) : 0 ≤ x := by
  have hzero : (0 : Binary64) = zero false := by decide +kernel
  rw [← hzero] at h
  exact (Binary64.not_lt hx.not_isNaN isFinite_zero.not_isNaN).mp h

theorem pos_of_nonneg (h : 0 ≤ x) (hx : ¬x.IsZero) : 0 < x := by
  by_contra hpos
  have hneg : ¬x < 0 := fun hneg => Binary64.lt_irrefl _ (Binary64.lt_of_le_of_lt h hneg)
  exact hx ((isZero_iff h.2.1).mpr ⟨hpos, hneg⟩)

theorem nonneg_iff (hx : x.IsFinite) : 0 ≤ x ↔ 0 ≤ x.value := by
  rw [le_iff_value_le isFinite_zero hx, value_zero]

theorem pos_iff (hx : x.IsFinite) : 0 < x ↔ 0 < x.value := by
  rw [lt_iff_value_lt isFinite_zero hx, value_zero]

theorem value_eq_ite (x : Binary64) :
    x.value = if x.negative then -x.abs.value else x.abs.value := by
  rw [value_abs, value, units]
  split
  · rw [Int.cast_neg, Int.cast_natCast, neg_div]
  · rw [Int.cast_natCast]

theorem value_neg (x : Binary64) : (-x).value = -x.value := by
  rw [value_eq_ite, value_eq_ite x]
  show (if !x.negative then -x.abs.value else x.abs.value) = _
  cases x.negative <;> simp

/-! ### Rounding -/

/-- The number nearest to `q`. -/
def round (q : ℚ) : Binary64 := nearest (decide (q < 0)) q

theorem magnitude_nearest_le (h : |q| ≤ |q'|) :
    (nearest negative q).magnitude ≤ (nearest negative' q').magnitude := by
  have hunits := mul_le_mul_of_nonneg_right h oneUnits_cast_pos.le
  rw [← quotient_eq, ← quotient_eq,
    div_le_div_iff₀ (Nat.cast_pos.mpr q.den_pos) (Nat.cast_pos.mpr q'.den_pos)] at hunits
  exact nearestMagnitude_mono q.den_pos q'.den_pos (by exact_mod_cast hunits)

theorem rank_round_of_neg (h : q < 0) : (round q).rank = -((round q).magnitude : Int) :=
  rank_of_negative (decide_eq_true h)

theorem rank_round_of_nonneg (h : 0 ≤ q) : (round q).rank = (round q).magnitude :=
  rank_of_positive (decide_eq_false (not_lt.mpr h))

theorem rank_round_mono (h : q ≤ q') : (round q).rank ≤ (round q').rank := by
  rcases lt_or_ge q 0 with hq | hq
  · rw [rank_round_of_neg hq]
    rcases lt_or_ge q' 0 with hq' | hq'
    · have habs : |q'| ≤ |q| := by
        rw [abs_of_neg hq', abs_of_neg hq]
        exact neg_le_neg h
      rw [rank_round_of_neg hq']
      exact Int.neg_le_neg (Int.ofNat_le.mpr (magnitude_nearest_le habs))
    · rw [rank_round_of_nonneg hq']
      omega
  · have hq' := le_trans hq h
    rw [rank_round_of_nonneg hq, rank_round_of_nonneg hq', Int.ofNat_le]
    apply magnitude_nearest_le
    rwa [abs_of_nonneg hq, abs_of_nonneg hq']

theorem rank_zero_of_negative (negative : Bool) : (zero negative).rank = 0 := by
  cases negative <;> rfl

/-- The sign of a result that is rounded is that of the exact one; a zero has the same rank with
either sign. -/
theorem rank_nearest (h : 0 ≤ q) :
    (nearest negative q).rank = (round (if negative then -q else q)).rank := by
  rcases h.eq_or_lt with rfl | hpos
  · have hzero (s : Bool) : (nearest s 0).rank = 0 := by
      rw [nearest_eq_zero (by simp), rank_zero_of_negative]
    simp only [neg_zero, ite_self, round, hzero]
  · cases negative with
    | true =>
      rw [if_pos rfl, round, decide_eq_true (neg_lt_zero.mpr hpos), nearest_congr (abs_neg q)]
    | false => rw [if_neg Bool.false_ne_true, round, decide_eq_false (not_lt.mpr h)]

theorem nearest_abs_value (hx : x.IsFinite) : nearest x.negative x.abs.value = x := by
  have hone := oneUnits_cast_pos.ne'
  have hratio : ofRatio x.negative (unitsOf x.magnitude) 1 = nearest x.negative x.abs.value := by
    refine ofRatio_eq_nearest Nat.one_pos ?_
    rw [abs_of_nonneg (value_abs_nonneg x), value_abs, Nat.cast_one, div_one,
      div_mul_cancel₀ _ hone]
  rw [← hratio]
  obtain ⟨s, m, hm⟩ := x
  simp only [ofRatio, nearestMagnitude_unitsOf (Nat.le_of_lt hx)]

/-- What a number stands for goes back to its rank. -/
theorem rank_round_value (hx : x.IsFinite) : (round x.value).rank = x.rank := by
  rw [value_eq_ite, ← rank_nearest (value_abs_nonneg x), nearest_abs_value hx]

/-! ### Operations -/

theorem sub_eq_round (hx : x.IsFinite) (hy : y.IsFinite) (h : x.units ≠ y.units) :
    x - y = round (x.value - y.value) := by
  have hone := oneUnits_cast_pos
  rw [sub_of_isFinite hx hy, if_neg h, round,
    decide_eq_decide.mpr (sub_neg.trans value_lt_value).symm]
  refine ofRatio_eq_nearest Nat.one_pos ?_
  rw [value, value, ← sub_div, abs_div, abs_of_pos hone, div_mul_cancel₀ _ hone.ne', Nat.cast_one,
    div_one, Nat.cast_natAbs, Int.cast_abs, Int.cast_sub]

theorem rank_sub (hx : x.IsFinite) (hy : y.IsFinite) :
    (x - y).rank = (round (x.value - y.value)).rank := by
  by_cases h : x.units = y.units
  · have hvalue : x.value - y.value = 0 := by rw [value, value, h, sub_self]
    rw [sub_of_isFinite hx hy, if_pos h, rank_zero_of_negative, hvalue, round,
      nearest_eq_zero (by simp), rank_zero_of_negative]
  · rw [sub_eq_round hx hy h]

theorem rank_mul (hx : x.IsFinite) (hy : y.IsFinite) :
    (x * y).rank = (round (x.value * y.value)).rank := by
  rw [mul_eq_nearest hx hy, rank_nearest (mul_nonneg (value_abs_nonneg x) (value_abs_nonneg y)),
    value_eq_ite x, value_eq_ite y]
  cases x.negative <;> cases y.negative <;> simp

theorem rank_div (hx : x.IsFinite) (hy : y.IsFinite) (h : ¬y.IsZero) :
    (x / y).rank = (round (x.value / y.value)).rank := by
  rw [div_eq_nearest hx hy h, rank_nearest (div_nonneg (value_abs_nonneg x) (value_abs_nonneg y)),
    value_eq_ite x, value_eq_ite y]
  cases x.negative <;> cases y.negative <;> simp [neg_div, div_neg]

theorem not_isNaN_sub (hx : x.IsFinite) (hy : y.IsFinite) : ¬(x - y).IsNaN := by
  rw [sub_of_isFinite hx hy]
  split
  · exact Nat.not_lt_zero _
  · exact not_isNaN_ofRatio _ _ _

theorem not_isNaN_div (hx : x.IsFinite) (hy : y.IsFinite) (h : ¬y.IsZero) : ¬(x / y).IsNaN := by
  rw [div_of_isFinite hx hy h]
  exact not_isNaN_ofRatio _ _ _

protected theorem sub_le_sub_right (hx : x.IsFinite) (hy : y.IsFinite) (hz : z.IsFinite)
    (h : x ≤ y) : x - z ≤ y - z := by
  refine ⟨not_isNaN_sub hx hz, not_isNaN_sub hy hz, ?_⟩
  rw [rank_sub hx hz, rank_sub hy hz]
  exact rank_round_mono (sub_le_sub_right ((le_iff_value_le hx hy).mp h) _)

protected theorem div_le_div_right (hx : x.IsFinite) (hy : y.IsFinite) (hz : z.IsFinite)
    (hpos : 0 < z) (h : x ≤ y) : x / z ≤ y / z := by
  have hzero := not_isZero_of_lt hpos
  refine ⟨not_isNaN_div hx hz hzero, not_isNaN_div hy hz hzero, ?_⟩
  rw [rank_div hx hz hzero, rank_div hy hz hzero]
  exact rank_round_mono (div_le_div_of_nonneg_right ((le_iff_value_le hx hy).mp h)
    ((pos_iff hz).mp hpos).le)

/-! ### Infinite factors -/

theorem rank_le_of_not_isNaN (hx : ¬x.IsNaN) :
    -(infinityMagnitude : Int) ≤ x.rank ∧ x.rank ≤ infinityMagnitude := by
  rw [IsNaN, Nat.not_lt] at hx
  rw [rank]
  split <;> omega

theorem isInfinite_iff_rank :
    x.IsInfinite ↔ x.rank = -(infinityMagnitude : Int) ∨ x.rank = infinityMagnitude := by
  have hpos : 0 < infinityMagnitude := by decide
  rw [IsInfinite, rank]
  split <;> omega

theorem eq_infinity_of_rank (h : x.rank = infinityMagnitude) : x = infinity false := by
  obtain ⟨s, m, hm⟩ := x
  cases s with
  | true =>
    have hpos : 0 < infinityMagnitude := by decide
    rw [rank_of_negative rfl] at h
    omega
  | false =>
    rw [rank_of_positive rfl] at h
    obtain rfl : m = infinityMagnitude := Int.ofNat.inj h
    rfl

theorem isFinite_of_not (hnan : ¬x.IsNaN) (hinf : ¬x.IsInfinite) : x.IsFinite :=
  Nat.lt_of_le_of_ne (Nat.le_of_not_lt hnan) hinf

theorem rank_mul_of_isInfinite (hx : x.IsInfinite) (hz : z.IsFinite) (hpos : 0 < z) :
    (x * z).rank = x.rank := by
  have hzero := not_isZero_of_lt hpos
  have hxnan : ¬x.IsNaN := Nat.not_lt.mpr (Nat.le_of_eq hx)
  have hxzero : ¬x.IsZero := fun h => absurd (h.symm.trans hx) (by decide)
  have hsign : z.negative = false := negative_of_nonneg ((pos_iff hz).mp hpos).le hzero
  have hmul : x * z = infinity x.negative := by
    show Binary64.mul x z = _
    rw [Binary64.mul, if_neg (not_or.mpr ⟨hxnan, hz.not_isNaN⟩), if_pos (.inl hx),
      if_neg (not_or.mpr ⟨hxzero, hzero⟩), hsign, Bool.xor_false]
  rw [hmul, rank, rank, hx]
  rfl

protected theorem mul_le_mul_right (hz : z.IsFinite) (hpos : 0 < z) (h : x ≤ y) :
    x * z ≤ y * z := by
  have hzero := not_isZero_of_lt hpos
  obtain ⟨hx, hy, hrank⟩ := h
  have hxz := (mul_of_isFinite hx hz hzero).1
  have hyz := (mul_of_isFinite hy hz hzero).1
  have hxbounds := rank_le_of_not_isNaN hxz
  have hybounds := rank_le_of_not_isNaN hyz
  refine ⟨hxz, hyz, ?_⟩
  -- An infinite factor stays where it is, at either end of the order.
  by_cases hxinf : x.IsInfinite
  · rw [rank_mul_of_isInfinite hxinf hz hpos]
    rcases isInfinite_iff_rank.mp hxinf with hlow | hhigh
    · rw [hlow]
      exact hybounds.1
    · have hyinf : y.IsInfinite :=
        isInfinite_iff_rank.mpr (.inr (by have := (rank_le_of_not_isNaN hy).2; omega))
      rwa [rank_mul_of_isInfinite hyinf hz hpos]
  · by_cases hyinf : y.IsInfinite
    · rw [rank_mul_of_isInfinite hyinf hz hpos]
      rcases isInfinite_iff_rank.mp hyinf with hlow | hhigh
      · exact absurd (isInfinite_iff_rank.mpr
          (.inl (by have := (rank_le_of_not_isNaN hx).1; omega))) hxinf
      · rw [hhigh]
        exact hxbounds.2
    · have hxfin := isFinite_of_not hx hxinf
      have hyfin := isFinite_of_not hy hyinf
      rw [rank_mul hxfin hz, rank_mul hyfin hz]
      exact rank_round_mono (mul_le_mul_of_nonneg_right (rank_le_rank_iff.mp hrank)
        ((pos_iff hz).mp hpos).le)

/-! ### Zeros and not-a-number -/

theorem IsZero.div (h : x.IsZero) (hx : x.IsFinite) (hy : y.IsFinite)
    (hy0 : ¬y.IsZero) : (x / y).IsZero := by
  rw [div_eq_nearest hx hy hy0, value_abs_of_isZero h, zero_div, nearest_eq_zero (by simp)]
  rfl

theorem IsZero.mul (h : x.IsZero) (hx : x.IsFinite) (hy : y.IsFinite) :
    (x * y).IsZero := by
  rw [mul_eq_nearest hx hy, value_abs_of_isZero h, zero_mul, nearest_eq_zero (by simp)]
  rfl

theorem IsZero.isFinite (h : x.IsZero) : x.IsFinite := by
  rw [IsFinite, h]
  decide

theorem sub_self_isZero (hx : x.IsFinite) : (x - x).IsZero := by
  rw [sub_of_isFinite hx hx, if_pos rfl]
  rfl

theorem sub_self_eq_nan (hx : ¬x.IsFinite) : x - x = nan := by
  show Binary64.sub x x = nan
  rw [Binary64.sub]
  split
  · rfl
  · rename_i hnan
    have hinf : x.IsInfinite := by
      by_contra hinf
      exact hx (isFinite_of_not (mt .inl hnan) hinf)
    rw [if_pos hinf, if_pos ⟨hinf, rfl⟩]

theorem isNaN_nan : nan.IsNaN := by decide

theorem nan_div (x : Binary64) : nan / x = nan := by
  show Binary64.div nan x = nan
  rw [Binary64.div, if_pos (.inl isNaN_nan)]

theorem nan_mul (x : Binary64) : nan * x = nan := by
  show Binary64.mul nan x = nan
  rw [Binary64.mul, if_pos (.inl isNaN_nan)]

/-- A factor of at least one takes nothing away. -/
theorem magnitude_le_magnitude_mul (hx : x.IsFinite) (hy : y.IsFinite)
    (h : 1 ≤ y.abs.value) : x.magnitude ≤ (x * y).magnitude := by
  have hle : |x.abs.value| ≤ |x.abs.value * y.abs.value| := by
    rw [abs_mul]
    exact le_mul_of_one_le_right (abs_nonneg _) (h.trans (le_abs_self _))
  calc x.magnitude = (nearest x.negative x.abs.value).magnitude := by rw [nearest_abs_value hx]
    _ ≤ (nearest (x.negative ^^ y.negative) (x.abs.value * y.abs.value)).magnitude :=
      magnitude_nearest_le hle
    _ = (x * y).magnitude := by rw [mul_eq_nearest hx hy]

/-! ### Quotients -/

/-- A quotient that is a number needs no rounding. -/
theorem value_div_of_exact (hx : x.IsFinite) (hy : y.IsFinite) (hy0 : ¬y.IsZero) (hz : z.IsFinite)
    (h : x.value / y.value = z.value) : (x / y).value = z.value := by
  have hrank : (x / y).rank = z.rank := by rw [rank_div hx hy hy0, h, rank_round_value hz]
  exact le_antisymm (rank_le_rank_iff.mp hrank.le) (rank_le_rank_iff.mp hrank.ge)

/-- A divisor of at least one adds nothing. -/
theorem magnitude_div_le_magnitude (hx : x.IsFinite) (hy : y.IsFinite) (h : 1 ≤ y.abs.value) :
    (x / y).magnitude ≤ x.magnitude := by
  have hzero := not_isZero_of_pos (zero_lt_one.trans_le h)
  have hle : |x.abs.value / y.abs.value| ≤ |x.abs.value| := by
    rw [abs_div]
    exact div_le_self (abs_nonneg _) (h.trans (le_abs_self _))
  calc (x / y).magnitude
    _ = (nearest (x.negative ^^ y.negative) (x.abs.value / y.abs.value)).magnitude := by
      rw [div_eq_nearest hx hy hzero]
    _ ≤ (nearest x.negative x.abs.value).magnitude := magnitude_nearest_le hle
    _ = x.magnitude := by rw [nearest_abs_value hx]

theorem isFinite_div (hx : x.IsFinite) (hy : y.IsFinite) (h : 1 ≤ y.abs.value) :
    (x / y).IsFinite :=
  Nat.lt_of_le_of_lt (magnitude_div_le_magnitude hx hy h) hx

theorem abs_value_of_nonneg (h : 0 ≤ x.value) : x.abs.value = x.value := by
  have habs := value_abs_nonneg x
  rw [value_eq_ite x] at h ⊢
  split
  · rename_i hneg
    rw [if_pos hneg] at h
    linarith
  · rfl

/-- The one rounding of a quotient of at least one, in relation to it. -/
theorem abs_value_div_sub_le (hx : x.IsFinite) (hy : y.IsFinite) (hone : 1 ≤ y.value)
    (h : y.value ≤ x.value) :
    |(x / y).value - x.value / y.value| ≤ x.value / y.value / 2 ^ 53 := by
  have hy0 : 0 < y.value := zero_lt_one.trans_le hone
  have hx0 : 0 < x.value := hy0.trans_le h
  have hyabs := abs_value_of_nonneg hy0.le
  have hxabs := abs_value_of_nonneg hx0.le
  have hzero := not_isZero_of_pos (hyabs ▸ hy0)
  have hquot : 1 ≤ x.value / y.value := (one_le_div hy0).mpr h
  have hfinite := isFinite_div hx hy (hyabs ▸ hone)
  have hnonneg : 0 ≤ (x / y).value := by
    rw [← value_zero, ← rank_le_rank_iff, rank_zero, rank_div hx hy hzero,
      rank_round_of_nonneg (zero_le_one.trans hquot)]
    exact Int.natCast_nonneg _
  have hdistance := distance_nearest_le (div_eq_nearest hx hy hzero ▸ hfinite)
  rw [← div_eq_nearest hx hy hzero, distance, hxabs, hyabs, abs_value_of_nonneg hnonneg,
    abs_of_nonneg (zero_le_one.trans hquot)] at hdistance
  -- A quotient of at least one is far from where the steps get no finer.
  refine hdistance.trans (max_le ?_ le_rfl)
  calc (1 / 2 ^ 1075 : ℚ) ≤ 1 / 2 ^ 53 := by
        exact one_div_le_one_div_of_le (by positivity) (pow_le_pow_right₀ one_le_two (by decide))
    _ ≤ x.value / y.value / 2 ^ 53 := div_le_div_of_nonneg_right hquot (by positivity)

end RegressionGate.Binary64
