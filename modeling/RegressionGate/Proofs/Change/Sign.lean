import RegressionGate.Proofs.Change.Monotone

/-! The sign of a change is exact: no rounding on the way makes a difference vanish, since two
numbers that differ do so by no less than 2^-53 of the greater. -/

namespace RegressionGate

open Binary64

variable {base ns t : Binary64}

/-! ### Nothing vanishes -/

theorem unitsOf_base_le (hbase : base.IsFinite) (hns : ns.IsFinite) (hbase0 : 0 ≤ base.value)
    (hns0 : 0 ≤ ns.value) (hne : ns.magnitude ≠ base.magnitude) :
    unitsOf base.magnitude ≤ unitsOf (ns - base).magnitude * oneUnits := by
  have hfinite := isFinite_sub_of_nonneg hns hbase hns0 hbase0
  have hdiff := magnitude_sub hns hbase
  rw [IsFinite, hdiff] at hfinite
  have hhalf := le_two_mul_unitsOf_nearestMagnitude hfinite
  rw [← hdiff, units_of_nonneg hns0, units_of_nonneg hbase0] at hhalf
  have hgap : unitsOf base.magnitude ≤
      ((unitsOf ns.magnitude : Int) - unitsOf base.magnitude).natAbs * 2 ^ 53 := by
    rcases Nat.lt_or_gt_of_ne hne with hlt | hgt
    · have hless := unitsOf_lt_unitsOf hlt
      refine (unitsOf_le_gap hlt).trans (Nat.mul_le_mul_right _ ?_)
      omega
    · have hless := unitsOf_lt_unitsOf hgt
      refine (Nat.le_of_lt hless).trans ((unitsOf_le_gap hgt).trans (Nat.mul_le_mul_right _ ?_))
      omega
  calc unitsOf base.magnitude
    _ ≤ 2 * unitsOf (ns - base).magnitude * 2 ^ 53 :=
      hgap.trans (Nat.mul_le_mul_right _ hhalf)
    _ = unitsOf (ns - base).magnitude * 2 ^ 54 := by ring
    _ ≤ unitsOf (ns - base).magnitude * oneUnits := Nat.mul_le_mul_left _ (by decide +kernel)

/-- A change of the duration is a change in percent. -/
theorem changePercent_not_isZero (hbase : base.IsFinite) (hpos : 0 < base) (hns : ns.IsFinite)
    (h0 : 0 ≤ ns) (hne : ns.magnitude ≠ base.magnitude) : ¬(changePercent base ns).IsZero := by
  have hbase0 : 0 ≤ base.value := ((pos_iff hbase).mp hpos).le
  have hns0 : 0 ≤ ns.value := (nonneg_iff hns).mp h0
  have hzero := not_isZero_of_lt hpos
  have hdiff := isFinite_sub_of_nonneg hns hbase hns0 hbase0
  have hquot : 1 ≤ ((ns - base) / base).magnitude := by
    rw [div_of_isFinite hdiff hbase hzero]
    exact one_le_nearestMagnitude (Nat.pos_of_ne_zero (mt unitsOf_eq_zero_iff.mp hzero))
      (unitsOf_base_le hbase hns hbase0 hns0 hne)
  have hhundred : 1 ≤ (100 : Binary64).abs.value := by decide +kernel
  have hnan := not_isNaN_div hdiff hbase hzero
  intro hvanished
  by_cases hinf : ((ns - base) / base).IsInfinite
  · have hrank : (changePercent base ns).rank = ((ns - base) / base).rank :=
      rank_mul_of_isInfinite hinf isFinite_hundred hundred_pos
    rw [rank_of_isZero hvanished] at hrank
    have hends := isInfinite_iff_rank.mp hinf
    have hpos : 0 < infinityMagnitude := by decide
    omega
  · have hkept := magnitude_le_magnitude_mul (isFinite_of_not hnan hinf) isFinite_hundred hhundred
    exact absurd (hquot.trans (hkept.trans_eq hvanished)) (by decide)

/-! ### The sign of a change -/

theorem changePercent_self (hbase : base.IsFinite) (hzero : ¬base.IsZero) :
    (changePercent base base).IsZero := by
  have hsub := sub_self_isZero hbase
  have hdiv := hsub.div hsub.isFinite hbase hzero
  exact hdiv.mul hdiv.isFinite isFinite_hundred

/-- What is not finite cannot be compared with itself. -/
theorem isFinite_of_changePercent_self (h : (changePercent base base).IsFinite) :
    base.IsFinite := by
  by_contra hbase
  rw [changePercent, sub_self_eq_nan hbase, nan_div, nan_mul] at h
  exact absurd h (by decide)

/-- A change says whether the duration grew, fell or stayed. -/
theorem changePercent_trichotomy (hbase : base.IsFinite) (hpos : 0 < base) (hns : ns.IsFinite)
    (h0 : 0 ≤ ns) :
    base < ns ∧ 0 < changePercent base ns ∨ ns < base ∧ changePercent base ns < 0 ∨
      ns = base ∧ (changePercent base ns).IsZero := by
  have hbaseValue := (pos_iff hbase).mp hpos
  have hns0 : 0 ≤ ns.value := (nonneg_iff hns).mp h0
  obtain ⟨hnan, hneg⟩ := changePercent_sign hns hbase hbaseValue hns0
  have hnonzero (hne : ns.value ≠ base.value) : (changePercent base ns).magnitude ≠ 0 := by
    refine changePercent_not_isZero hbase hpos hns h0 fun heq => hne ?_
    rw [value, value, units_of_nonneg hns0, units_of_nonneg hbaseValue.le, heq]
  rcases lt_trichotomy ns.value base.value with hlt | heq | hgt
  · refine .inr (.inl ⟨(lt_iff_value_lt hns hbase).mpr hlt, hnan, isFinite_zero.not_isNaN, ?_⟩)
    have hmagnitude := hnonzero hlt.ne
    rw [rank_of_negative (hneg.trans (decide_eq_true hlt)), rank_zero]
    omega
  · have hsame : base = ns := eq_of_rank_eq
      (Int.le_antisymm (rank_le_rank_iff.mpr heq.ge) (rank_le_rank_iff.mpr heq.le))
      (not_isZero_of_lt hpos)
    subst hsame
    exact .inr (.inr ⟨rfl, changePercent_self hbase (not_isZero_of_lt hpos)⟩)
  · refine .inl ⟨(lt_iff_value_lt hbase hns).mpr hgt, isFinite_zero.not_isNaN, hnan, ?_⟩
    have hmagnitude := hnonzero hgt.ne'
    rw [rank_of_positive (hneg.trans (decide_eq_false hgt.le.not_gt)), rank_zero]
    omega

end RegressionGate
