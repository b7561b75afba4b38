import RegressionGate.Json.Number
import RegressionGate.Proofs.Binary64.Within
import RegressionGate.Proofs.Decimal.Shortest

/-! Scaling by powers of ten in floating point: the result is the number nearest to one that is a
few roundings away from the exact product, and where the operands are exact, to the product. -/

namespace RegressionGate.Json

open Binary64 Decimal

/-! ### Powers of ten and the range -/

variable {n k : Nat} {x : Binary64}

theorem ten_pow_308_lt_overflow : (10 ^ 308 : ℚ) < overflow := by
  have h : 10 ^ 308 + 2 ^ 970 < 2 ^ 1024 := by decide +kernel
  rw [overflow, lt_sub_iff_add_lt]
  exact_mod_cast h

theorem overflow_le_ten_pow_309 : overflow ≤ 10 ^ 309 := by
  have h : 2 ^ 1024 ≤ 10 ^ 309 + 2 ^ 970 := by decide +kernel
  rw [overflow, sub_le_iff_le_add]
  exact_mod_cast h

/-- So far below the first number above zero that a few roundings do not matter. -/
theorem vanishing {e : Int} (he : e ≤ -616) : (2 ^ 65 * 10 ^ e : ℚ) ≤ 1 / 2 ^ 1075 := by
  have h : 2 ^ 65 * 2 ^ 1075 ≤ 1 * 10 ^ 616 := by decide +kernel
  calc (2 ^ 65 * 10 ^ e : ℚ) ≤ 2 ^ 65 * 10 ^ (-(616 : Nat) : Int) :=
        mul_le_mul_of_nonneg_left (zpow_le_zpow_right₀ (by norm_num) he) (by positivity)
    _ = 2 ^ 65 / 10 ^ 616 := by rw [zpow_neg, zpow_natCast, div_eq_mul_inv]
    _ ≤ 1 / 2 ^ 1075 := by
      rw [div_le_div_iff₀ (by positivity) (by positivity)]
      exact_mod_cast h

/-! ### Operands -/

theorem ofNat_zero : ofNat 0 = zero false := by decide +kernel

theorem one_div_two_pow_le_one : (1 / 2 ^ 1022 : ℚ) ≤ 1 :=
  div_le_self zero_le_one (one_le_pow₀ one_le_two)

theorem within_ofNat (hn : n < 2 ^ 64) : Within 1 (ofNat n).abs.value n := by
  rcases Nat.eq_zero_or_pos n with rfl | hpos
  · rw [ofNat_zero, Nat.cast_zero, value_abs_zero]
    exact .refl 1 le_rfl
  · have hfinite := isFinite_ofNat hn
    have hone : (1 : ℚ) ≤ |(n : ℚ)| := by
      rw [Nat.abs_cast]
      exact_mod_cast hpos
    rw [ofNat_eq_nearest] at hfinite ⊢
    simpa using within_nearest hfinite (one_div_two_pow_le_one.trans hone)

theorem powerOfTen_eq (n : Nat) : powerOfTen n = nearest false (10 ^ n) := by
  rw [powerOfTen, ofNat_eq_nearest, cast_tenTo]

theorem isFinite_powerOfTen (hn : n ≤ 308) : (powerOfTen n).IsFinite := by
  rw [powerOfTen_eq, isFinite_nearest_iff, abs_of_pos (by positivity)]
  exact (pow_le_pow_right₀ (by norm_num) hn).trans_lt ten_pow_308_lt_overflow

theorem one_le_ten_pow (n : Nat) : (1 : ℚ) ≤ 10 ^ n := one_le_pow₀ (by norm_num)

theorem within_powerOfTen (hn : n ≤ 308) : Within 1 (powerOfTen n).abs.value (10 ^ n) := by
  have hfinite := isFinite_powerOfTen hn
  have habs : |(10 ^ n : ℚ)| = 10 ^ n := abs_of_pos (by positivity)
  rw [powerOfTen_eq] at hfinite ⊢
  have h := within_nearest hfinite (by
    rw [habs]
    exact one_div_two_pow_le_one.trans (one_le_ten_pow n))
  rwa [habs] at h

theorem powerOfTen_pos (hn : n ≤ 308) : 0 < (powerOfTen n).abs.value :=
  (within_powerOfTen hn).symm.pos (by positivity)

/-- A power of ten up to the twenty-second is a power of two with a short factor. -/
theorem value_powerOfTen_of_le (hn : n ≤ 22) : (powerOfTen n).abs.value = 10 ^ n := by
  have hfive : 5 ^ n < 2 * binade :=
    (Nat.pow_le_pow_right (by decide) hn).trans_lt (by decide : 5 ^ 22 < 2 * binade)
  have hten : tenTo n = 5 ^ n * 2 ^ n := by rw [tenTo, Nat.pow_eq, ← Nat.mul_pow]
  rw [powerOfTen, hten, value_ofNat hfive (by omega), ← hten, cast_tenTo]

/-! ### Steps -/

theorem not_isNaN_nearest (negative : Bool) (q : ℚ) : ¬(nearest negative q).IsNaN :=
  not_isNaN_ofRatio _ _ _

theorem mul_powerOfTen (hx : x.IsFinite) (hneg : x.negative = false) (hk : k ≤ 308) :
    x * powerOfTen k = nearest false (x.abs.value * (powerOfTen k).abs.value) := by
  rw [mul_eq_nearest hx (isFinite_powerOfTen hk), hneg]
  rfl

theorem div_powerOfTen (hx : x.IsFinite) (hneg : x.negative = false) (hk : k ≤ 308) :
    x / powerOfTen k = nearest false (x.abs.value / (powerOfTen k).abs.value) := by
  rw [div_eq_nearest hx (isFinite_powerOfTen hk) (not_isZero_of_pos (powerOfTen_pos hk)), hneg]
  rfl

theorem within_quotient (hn : n < 2 ^ 64) (hk : k ≤ 308) :
    Within 2 ((ofNat n).abs.value / (powerOfTen k).abs.value) (n / 10 ^ k) :=
  (within_ofNat hn).div (within_powerOfTen hk) (powerOfTen_pos hk)

/-- A few roundings do not take a 64-bit number out of range. -/
theorem isFinite_of_within (negative : Bool) {q r : ℚ} (h : Within 6 q r) (hr : r ≤ 2 ^ 64) :
    (nearest negative q).IsFinite := by
  have hfactor : roundingFactor ^ 6 * 2 ^ 64 ≤ 10 ^ 20 := by norm_num [roundingFactor]
  rw [isFinite_nearest_iff, abs_of_nonneg h.left]
  calc q ≤ roundingFactor ^ 6 * r := h.le
    _ ≤ roundingFactor ^ 6 * 2 ^ 64 := mul_le_mul_of_nonneg_left hr (Within.factor_nonneg 6)
    _ ≤ 10 ^ 20 := hfactor
    _ ≤ 10 ^ 308 := pow_le_pow_right₀ (by norm_num) (by norm_num)
    _ < overflow := ten_pow_308_lt_overflow

theorem div_ten_pow_le (hn : n < 2 ^ 64) (k : Nat) : (n / 10 ^ k : ℚ) ≤ 2 ^ 64 :=
  (div_le_self n.cast_nonneg (one_le_ten_pow k)).trans (by exact_mod_cast hn.le)

theorem isFinite_quotient (hn : n < 2 ^ 64) (hk : k ≤ 308) :
    (nearest false ((ofNat n).abs.value / (powerOfTen k).abs.value)).IsFinite :=
  isFinite_of_within false ((within_quotient hn hk).mono (by decide)) (div_ten_pow_le hn k)

/-! ### Scaling -/

/-- Whether `r` is the number nearest to one that is a few roundings away from `n * 10 ^ e`, or
nothing when that is out of range. Few digits and a small power of ten make no difference. -/
def Scaled (n : Nat) (e : Int) (r : Option Binary64) : Prop :=
  ∃ q : ℚ, Within 6 q (n * 10 ^ e) ∧ (n ≤ 2 ^ 53 → e.natAbs ≤ 22 → q = n * 10 ^ e) ∧
    r = finite? (nearest false q)

theorem ten_zpow_neg_natCast (k : Nat) : (10 : ℚ) ^ (-k : Int) = (10 ^ k)⁻¹ := by
  rw [zpow_neg, zpow_natCast]

theorem scaled_up (hn : n < 2 ^ 64) (hk : k ≤ 308) : Scaled n k (scale? (.ofNat n) k) := by
  refine ⟨(ofNat n).abs.value * (powerOfTen k).abs.value, ?_, fun hshort hsmall => ?_, ?_⟩
  · rw [zpow_natCast]
    exact ((within_ofNat hn).mul (within_powerOfTen hk)).mono (by decide)
  · rw [value_ofNat_of_le hshort, value_powerOfTen_of_le (by omega), zpow_natCast]
  · rw [finite?_eq_ite (not_isNaN_nearest _ _), ← mul_powerOfTen (isFinite_ofNat hn) rfl hk, scale?,
      if_neg (by omega), if_pos (by omega), Int.toNat_natCast]

theorem scaleDown_of_le (x : Binary64) (hk : k ≤ 308) : scaleDown x k = x / powerOfTen k := by
  rw [scaleDown, if_pos hk]

theorem scaleDown_zero (k : Nat) : scaleDown (zero false) k = zero false := by
  rw [scaleDown]
  split
  · rename_i hk
    rw [div_powerOfTen (by decide) rfl hk, value_abs_zero, zero_div]
    exact nearest_eq_zero (by simp)
  · exact if_pos rfl

theorem scaled_down (hn : n < 2 ^ 64) (hk : k ≤ 308) :
    Scaled n (-k) (some (scaleDown (.ofNat n) k)) := by
  refine ⟨(ofNat n).abs.value / (powerOfTen k).abs.value, ?_, fun hshort hsmall => ?_, ?_⟩
  · rw [ten_zpow_neg_natCast, ← div_eq_mul_inv]
    exact (within_quotient hn hk).mono (by decide)
  · rw [value_ofNat_of_le hshort, value_powerOfTen_of_le (by omega), ten_zpow_neg_natCast,
      div_eq_mul_inv]
  · rw [finite?_of_isFinite (isFinite_quotient hn hk), scaleDown_of_le _ hk,
      div_powerOfTen (isFinite_ofNat hn) rfl hk]

/-! ### In two steps -/

/-- The first step leads at most a little below the range of full precision. -/
theorem first_ge (hn : n < 2 ^ 64) (hpos : 0 < n) :
    1 / 2 ^ 1021 / 5 ≤ (ofNat n).abs.value / (powerOfTen 308).abs.value := by
  have hunits : 2 * unitsOf (powerOfTen 308).magnitude ≤ 9 * 2 ^ 1021 * oneUnits := by
    decide +kernel
  have hpower : 2 * (powerOfTen 308).abs.value ≤ 9 * 2 ^ 1021 := by
    rw [value_abs, mul_div_assoc', div_le_iff₀ oneUnits_cast_pos]
    exact_mod_cast hunits
  have hvalue : 9 / 10 ≤ (ofNat n).abs.value := by
    have hone : (1 : ℚ) ≤ n := by exact_mod_cast hpos
    have hle := hone.trans (within_ofNat hn).ge
    norm_num [roundingFactor] at hle
    linarith
  have hten {p : ℚ} (h : 2 * (powerOfTen 308).abs.value ≤ 9 * p) :
      1 * (powerOfTen 308).abs.value ≤ 9 / 10 * (p * 5) := by linarith
  rw [div_div, div_le_div_iff₀ (by positivity) (powerOfTen_pos le_rfl)]
  calc 1 * (powerOfTen 308).abs.value ≤ 9 / 10 * (2 ^ 1021 * 5) := hten hpower
    _ ≤ (ofNat n).abs.value * (2 ^ 1021 * 5) :=
      mul_le_mul_of_nonneg_right hvalue (by positivity)

/-- After the first step of two. -/
theorem within_first (hn : n < 2 ^ 64) (hpos : 0 < n) :
    (ofNat n / powerOfTen 308).IsFinite ∧ (ofNat n / powerOfTen 308).negative = false ∧
      Within 5 (ofNat n / powerOfTen 308).abs.value (n / 10 ^ 308) := by
  have hwithin := within_quotient hn (le_refl 308)
  have hfinite := isFinite_quotient hn (le_refl 308)
  rw [div_powerOfTen (isFinite_ofNat hn) rfl le_rfl]
  refine ⟨hfinite, rfl, ?_⟩
  -- Three for the step itself, whose result may be short of full precision, and two before it.
  have hbelow := within_nearest_below hfinite (by
    rw [abs_of_nonneg hwithin.left]
    exact first_ge hn hpos)
  rw [abs_of_nonneg hwithin.left] at hbelow
  exact hbelow.trans hwithin

theorem not_isZero_ofNat (hn : n < 2 ^ 64) (hpos : 0 < n) : ¬(ofNat n).IsZero :=
  not_isZero_of_pos ((within_ofNat hn).symm.pos (Nat.cast_pos.mpr hpos))

theorem scaleDown_of_lt (hx : ¬x.IsZero) (hk : 308 < k) :
    scaleDown x k = scaleDown (x / powerOfTen 308) (k - 308) := by
  rw [scaleDown, if_neg (by omega), if_neg hx]

theorem scaled_twice (hn : n < 2 ^ 64) (hpos : 0 < n) (hk : 308 < k) (hk' : k ≤ 616) :
    Scaled n (-k) (some (scaleDown (.ofNat n) k)) := by
  obtain ⟨hfinite, hneg, hfirst⟩ := within_first hn hpos
  have hle : k - 308 ≤ 308 := by omega
  have hwithin := hfirst.div (within_powerOfTen hle) (powerOfTen_pos hle)
  have hsplit : (n / 10 ^ 308 / 10 ^ (k - 308) : ℚ) = n * 10 ^ (-k : Int) := by
    rw [div_div, ← pow_add, Nat.add_sub_cancel' hk.le, ten_zpow_neg_natCast, div_eq_mul_inv]
  rw [hsplit] at hwithin
  refine ⟨_, hwithin, fun _ hsmall => by omega, ?_⟩
  have hfinite' := isFinite_of_within false hwithin (by
    rw [ten_zpow_neg_natCast, ← div_eq_mul_inv]
    exact div_ten_pow_le hn k)
  rw [finite?_of_isFinite hfinite', scaleDown_of_lt (not_isZero_ofNat hn hpos) hk,
    scaleDown_of_le _ hle, div_powerOfTen hfinite hneg hle]

/-! ### Out of range -/

theorem finite?_zero (negative : Bool) : finite? (zero negative) = some (zero negative) :=
  finite?_of_isFinite (show 0 < infinityMagnitude by decide)

/-- After two steps down nothing is left. -/
theorem scaleDown_ofNat_of_lt (hn : n < 2 ^ 64) (hpos : 0 < n) (hk : 616 < k) :
    scaleDown (.ofNat n) k = zero false := by
  obtain ⟨hfinite, hneg, hfirst⟩ := within_first hn hpos
  have hsecond : ofNat n / powerOfTen 308 / powerOfTen 308 = zero false := by
    have hwithin := hfirst.div (within_powerOfTen le_rfl) (powerOfTen_pos le_rfl)
    have hfactor : roundingFactor ^ (5 + 1) * 2 ^ 64 ≤ 2 ^ 65 := by norm_num [roundingFactor]
    rw [div_powerOfTen hfinite hneg le_rfl]
    apply nearest_eq_zero
    rw [abs_of_nonneg hwithin.left]
    calc _ ≤ roundingFactor ^ (5 + 1) * (n / 10 ^ 308 / 10 ^ 308) := hwithin.le
      _ = roundingFactor ^ (5 + 1) * n * 10 ^ (-(616 : Nat) : Int) := by
        rw [div_div, ← pow_add, zpow_neg, zpow_natCast, ← div_eq_mul_inv, mul_div_assoc]
      _ ≤ 2 ^ 65 * 10 ^ (-(616 : Nat) : Int) := by
        refine mul_le_mul_of_nonneg_right (le_trans ?_ hfactor) (by positivity)
        exact mul_le_mul_of_nonneg_left (by exact_mod_cast hn.le) (Within.factor_nonneg _)
      _ ≤ 1 / 2 ^ 1075 := vanishing (by decide)
  have hnonzero := not_isZero_of_pos (hfirst.symm.pos (by positivity))
  rw [scaleDown_of_lt (not_isZero_ofNat hn hpos) (by omega), scaleDown_of_lt hnonzero (by omega),
    hsecond, scaleDown_zero]

theorem scaled_vanished (hn : n < 2 ^ 64) (hpos : 0 < n) (hk : 616 < k) :
    Scaled n (-k) (some (scaleDown (.ofNat n) k)) := by
  refine ⟨_, .refl 6 (by positivity), fun _ _ => rfl, ?_⟩
  rw [nearest_eq_zero, finite?_zero, scaleDown_ofNat_of_lt hn hpos hk]
  rw [abs_of_nonneg (by positivity)]
  calc (n * 10 ^ (-k : Int) : ℚ) ≤ 2 ^ 65 * 10 ^ (-k : Int) := by
        refine mul_le_mul_of_nonneg_right ?_ (by positivity)
        exact_mod_cast hn.le.trans (by decide)
    _ ≤ 1 / 2 ^ 1075 := vanishing (by omega)

/-- A power of ten past the range, of a number that is not zero. -/
theorem not_isFinite_nearest {negative : Bool} {q : ℚ} {e : Int} (hn : 1 ≤ q) (he : 308 < e) :
    ¬(nearest negative (q * 10 ^ e)).IsFinite := by
  rw [isFinite_nearest_iff, abs_of_nonneg (by positivity), not_lt]
  calc overflow ≤ 10 ^ 309 := overflow_le_ten_pow_309
    _ = 10 ^ (309 : Int) := (zpow_natCast 10 309).symm
    _ ≤ 10 ^ e := zpow_le_zpow_right₀ (by norm_num) he
    _ ≤ q * 10 ^ e := le_mul_of_one_le_left (by positivity) hn

theorem scaled_zero (e : Int) : Scaled 0 e (scale? (.ofNat 0) e) := by
  have hq : (((0 : Nat) : ℚ) * 10 ^ e) = 0 := by rw [Nat.cast_zero, zero_mul]
  have hscale : scale? (.ofNat 0) e = some (zero false) := by
    rw [ofNat_zero, scale?, scaleDown_zero]
    split
    · rfl
    split
    · rename_i hsmall
      rw [mul_powerOfTen (by decide) rfl (by omega), value_abs_zero, zero_mul,
        nearest_eq_zero (by simp)]
      rfl
    · rfl
  refine ⟨0, ?_, fun _ _ => hq.symm, ?_⟩
  · rw [hq]
    exact .refl 6 le_rfl
  · rw [hscale, nearest_eq_zero (by simp), finite?_zero]

theorem scaled_down_of_pos (hn : n < 2 ^ 64) (hpos : 0 < n) (k : Nat) :
    Scaled n (-k) (some (scaleDown (.ofNat n) k)) := by
  rcases Nat.lt_or_ge 308 k with hk | hk
  · rcases Nat.lt_or_ge 616 k with hk' | hk'
    · exact scaled_vanished hn hpos hk'
    · exact scaled_twice hn hpos hk hk'
  · exact scaled_down hn hk

theorem scaled_over (hn : n < 2 ^ 64) (hpos : 0 < n) (hk : 308 < k) :
    Scaled n k (scale? (.ofNat n) k) := by
  refine ⟨_, .refl 6 (by positivity), fun _ _ => rfl, ?_⟩
  rw [scale?, if_neg (by omega), if_neg (by omega), if_neg (not_isZero_ofNat hn hpos),
    finite?_eq_none (not_isFinite_nearest (by exact_mod_cast hpos) (by omega))]

/-- Scaling a 64-bit number, whatever the power of ten. -/
theorem scaled_scale? (hn : n < 2 ^ 64) (e : Int) : Scaled n e (scale? (.ofNat n) e) := by
  rcases Nat.eq_zero_or_pos n with rfl | hpos
  · exact scaled_zero e
  rcases lt_or_ge e 0 with hneg | hnonneg
  · obtain ⟨k, rfl⟩ : ∃ k : Nat, e = -k := ⟨e.natAbs, by omega⟩
    rw [scale?, if_pos hneg, neg_neg, Int.toNat_natCast]
    exact scaled_down_of_pos hn hpos k
  · obtain ⟨k, rfl⟩ : ∃ k : Nat, e = k := ⟨e.natAbs, by omega⟩
    rcases Nat.lt_or_ge 308 k with hk | hk
    · exact scaled_over hn hpos hk
    · exact scaled_up hn hk

end RegressionGate.Json
