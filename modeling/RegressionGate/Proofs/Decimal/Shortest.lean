import Mathlib.Algebra.Order.Field.Power
import RegressionGate.Decimal.Shortest
import RegressionGate.Proofs.Binary64.Rational

/-! The shortest decimal of a number reads back as the number: the search always comes to a grid
with a point close enough, and what is close enough is rounded to the number. -/

namespace RegressionGate.Decimal

open Binary64

variable {m : Nat} {tie : Tie}

/-! ### Reading back -/

theorem ReadsBack.place_eq {digits : Nat} {exponent : Int}
    (h : ReadsBack m digits exponent) :
    place (digits * tenTo exponent.toNat * oneUnits) (tenTo (-exponent).toNat) = m := by
  have hd := tenTo_pos (-exponent).toNat
  have htwice : digits * (2 * oneUnits * tenTo exponent.toNat) =
      2 * (digits * tenTo exponent.toNat * oneUnits) := by ring
  simp only [ReadsBack, roundingInterval, gridScale, htwice] at h
  refine Nat.le_antisymm (place_le hd ?_ fun hodd => ?_) (le_place hd ?_ fun hodd => ?_)
  · split at h <;> omega
  · rw [if_neg (by omega)] at h
    exact h.2
  · split at h <;> omega
  · rw [if_neg (by omega)] at h
    exact h.1

/-! ### The search -/

theorem two_mul_round_le (tie : Tie) (n : Nat) {d : Nat} (hd : 0 < d) :
    2 * n ≤ 2 * (tie.round n d * d) + d ∧ 2 * (tie.round n d * d) ≤ 2 * n + d := by
  cases tie with
  | toEven => exact roundHalfEven_close hd
  | up => exact roundHalfUp_close hd

theorem readsBack_of_lt {digits : Nat} {exponent : Int}
    (hlo : (unitsOf (m - 1) + unitsOf m) * tenTo (-exponent).toNat <
      digits * (2 * oneUnits * tenTo exponent.toNat))
    (hhi : digits * (2 * oneUnits * tenTo exponent.toNat) <
      (unitsOf m + unitsOf (m + 1)) * tenTo (-exponent).toNat) : ReadsBack m digits exponent := by
  simp only [ReadsBack, roundingInterval, gridScale]
  split
  · exact ⟨Nat.le_of_lt hlo, Nat.le_of_lt hhi⟩
  · exact ⟨hlo, hhi⟩

/-- On a grid with steps shorter than those to both neighbours of a magnitude, the point nearest to
the magnitude reads back. -/
theorem onGrid?_isSome {exponent : Int} (hm : 0 < m)
    (h : oneUnits * tenTo exponent.toNat * 2 ^ 53 < unitsOf m * tenTo (-exponent).toNat) :
    (onGrid? tie m exponent).isSome := by
  have hq := tenTo_pos (-exponent).toNat
  have hfiner {gap : Nat} (hgap : unitsOf m ≤ gap * 2 ^ 53) :
      oneUnits * tenTo exponent.toNat < gap * tenTo (-exponent).toNat := by
    refine Nat.lt_of_mul_lt_mul_right (a := 2 ^ 53) (h.trans_le ?_)
    rw [Nat.mul_right_comm]
    exact Nat.mul_le_mul_right _ hgap
  have hprev := unitsOf_succ_le (m - 1)
  rw [Nat.sub_add_cancel hm] at hprev
  have hbelow := hfiner hprev
  have hnext := Nat.le_of_lt (unitsOf_lt_unitsOf (Nat.lt_add_one m))
  have habove := hfiner (hnext.trans (unitsOf_succ_le m))
  have hpos : 0 < 2 * oneUnits * tenTo exponent.toNat := Nat.mul_pos (by decide) (tenTo_pos _)
  obtain ⟨hround, hround'⟩ :=
    two_mul_round_le tie (2 * unitsOf m * tenTo (-exponent).toNat) hpos
  have hread : ReadsBack m
      (tie.round (2 * unitsOf m * tenTo (-exponent).toNat) (2 * oneUnits * tenTo exponent.toNat))
      exponent := by
    rw [Nat.sub_mul] at hbelow habove
    rw [Nat.mul_assoc 2 (unitsOf m)] at hround hround' ⊢
    apply readsBack_of_lt
    · rw [Nat.add_mul]
      rw [Nat.mul_assoc 2 oneUnits] at hround ⊢
      omega
    · rw [Nat.add_mul]
      rw [Nat.mul_assoc 2 oneUnits] at hround' ⊢
      omega
  have hhit : onGrid? tie m exponent = some _ := if_pos hread
  rw [hhit]
  rfl

theorem readsBack_of_onGrid? {digits : Nat} {exponent : Int}
    (h : onGrid? tie m exponent = some digits) : ReadsBack m digits exponent := by
  unfold onGrid? at h
  dsimp only at h
  split at h
  · rename_i hread
    cases h
    exact hread
  split at h
  · rename_i hread
    cases h
    exact hread
  split at h
  · rename_i hread
    cases h
    exact hread
  · contradiction

/-- The search comes to a hit at the latest where there is one. -/
theorem coarsest_readsBack {steps : Nat} {exponent : Int}
    (h : (onGrid? tie m (exponent - steps)).isSome) :
    ReadsBack m (coarsest tie m (steps + 1) exponent).digits
      (coarsest tie m (steps + 1) exponent).exponent := by
  induction steps generalizing exponent with
  | zero =>
    obtain ⟨digits, hdigits⟩ := Option.isSome_iff_exists.mp h
    rw [Int.ofNat_zero, Int.sub_zero] at hdigits
    simp only [coarsest, hdigits]
    exact readsBack_of_onGrid? hdigits
  | succ steps ih =>
    rw [coarsest]
    split
    · rename_i digits hdigits
      exact readsBack_of_onGrid? hdigits
    · apply ih
      have hsub : exponent - 1 - (steps : Int) = exponent - (steps + 1 : Nat) := by omega
      rwa [hsub]

/-- Twenty-three steps down from the leading power of ten, the steps of the grid are short enough
for every binary exponent. -/
theorem last_grid_fine : ∀ k : Nat, k < 2098 →
    oneUnits * tenTo ((k - 1073 : Int) * 30103 / 100000 + 1 - 23).toNat * 2 ^ 53 <
      2 ^ k * tenTo (-((k - 1073 : Int) * 30103 / 100000 + 1 - 23)).toNat := by
  decide +kernel

theorem shortest_readsBack (tie : Tie) (hm : 0 < m) (hm' : m < infinityMagnitude) :
    ReadsBack m (shortest tie m).digits (shortest tie m).exponent := by
  have hu : unitsOf m ≠ 0 := mt unitsOf_eq_zero_iff.mp (Nat.ne_of_gt hm)
  have hlog : (unitsOf m).log2 < 2098 := by
    rw [Nat.log2_lt hu]
    exact (unitsOf_lt_unitsOf hm').trans_eq (by decide +kernel)
  rw [shortest, if_neg (Nat.ne_of_gt hm)]
  refine coarsest_readsBack (onGrid?_isSome hm ((last_grid_fine _ hlog).trans_le ?_))
  exact Nat.mul_le_mul_right _ (Nat.log2_self_le hu)

/-! ### The number behind a decimal -/

/-- The number that a decimal stands for. -/
def Scientific.value (x : Scientific) : ℚ := x.digits * 10 ^ x.exponent

theorem cast_tenTo (n : Nat) : (tenTo n : ℚ) = 10 ^ n := by
  rw [tenTo, Nat.pow_eq, Nat.cast_pow, Nat.cast_ofNat]

theorem ten_zpow_eq (e : Int) : (10 : ℚ) ^ e = tenTo e.toNat / tenTo (-e).toNat := by
  rw [cast_tenTo, cast_tenTo, eq_div_iff (by positivity), ← zpow_natCast, ← zpow_natCast,
    ← zpow_add₀ (by norm_num)]
  congr 1
  omega

theorem Scientific.value_nonneg (x : Scientific) : 0 ≤ x.value := by
  rw [Scientific.value]
  positivity

theorem nearestMagnitude_shortest (tie : Tie) (h : m < infinityMagnitude) :
    nearestMagnitude ((shortest tie m).digits * tenTo (shortest tie m).exponent.toNat * oneUnits)
      (tenTo (-(shortest tie m).exponent).toNat) = m := by
  rcases Nat.eq_zero_or_pos m with rfl | hm
  · rw [shortest, if_pos rfl]
    decide +kernel
  · rw [nearestMagnitude_eq_min, (shortest_readsBack tie hm h).place_eq]
    exact Nat.min_eq_left (Nat.le_of_lt h)

/-- The number nearest to the shortest decimal of a number is that number. -/
theorem nearest_shortest (tie : Tie) {x : Binary64} (h : x.IsFinite) :
    nearest x.negative (shortest tie x.magnitude).value = x := by
  have hd := tenTo_pos (-(shortest tie x.magnitude).exponent).toNat
  rw [← ofRatio_eq_nearest hd (n := (shortest tie x.magnitude).digits *
    tenTo (shortest tie x.magnitude).exponent.toNat * oneUnits)]
  · obtain ⟨negative, m, hm⟩ := x
    simp only [ofRatio, nearestMagnitude_shortest tie h]
  · rw [abs_of_nonneg (Scientific.value_nonneg _), Scientific.value, ten_zpow_eq]
    push_cast
    ring

end RegressionGate.Decimal
