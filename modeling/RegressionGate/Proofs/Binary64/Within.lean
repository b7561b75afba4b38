import Mathlib.Tactic.NormNum
import RegressionGate.Proofs.Binary64.Rational

/-! How far rounded numbers are from exact ones. Each rounding puts them at most a factor farther
apart, and products and quotients multiply the factors. An operation on finite numbers is an exact
one that is rounded once. -/

namespace RegressionGate.Binary64

/-! ### Factors -/

/-- The greatest factor between a number and the one that it is rounded to. -/
def roundingFactor : ℚ := 2 ^ 53 / (2 ^ 53 - 1)

theorem one_le_roundingFactor : 1 ≤ roundingFactor := by norm_num [roundingFactor]

/-- Whether two numbers, neither below zero, are no farther apart than `k` roundings take them. -/
structure Within (k : Nat) (a b : ℚ) : Prop where
  left : 0 ≤ a
  right : 0 ≤ b
  le : a ≤ roundingFactor ^ k * b
  ge : b ≤ roundingFactor ^ k * a

namespace Within

variable {k l : Nat} {a b c a' b' : ℚ}

theorem refl (k : Nat) (h : 0 ≤ a) : Within k a a :=
  have hle := le_mul_of_one_le_left h (one_le_pow₀ (n := k) one_le_roundingFactor)
  ⟨h, h, hle, hle⟩

theorem symm (h : Within k a b) : Within k b a := ⟨h.right, h.left, h.ge, h.le⟩

theorem mono (h : Within k a b) (hkl : k ≤ l) : Within l a b := by
  have hpow : roundingFactor ^ k ≤ roundingFactor ^ l := pow_le_pow_right₀ one_le_roundingFactor hkl
  refine ⟨h.left, h.right, h.le.trans ?_, h.ge.trans ?_⟩
  · exact mul_le_mul_of_nonneg_right hpow h.right
  · exact mul_le_mul_of_nonneg_right hpow h.left

theorem factor_nonneg (k : Nat) : 0 ≤ roundingFactor ^ k :=
  pow_nonneg (zero_le_one.trans one_le_roundingFactor) k

theorem trans (h : Within k a b) (h' : Within l b c) : Within (k + l) a c where
  left := h.left
  right := h'.right
  le := by
    rw [pow_add, mul_assoc]
    exact h.le.trans (mul_le_mul_of_nonneg_left h'.le (factor_nonneg k))
  ge := by
    rw [pow_add, mul_comm (roundingFactor ^ k), mul_assoc]
    exact h'.ge.trans (mul_le_mul_of_nonneg_left h.ge (factor_nonneg l))

theorem mul (h : Within k a b) (h' : Within l a' b') : Within (k + l) (a * a') (b * b') where
  left := mul_nonneg h.left h'.left
  right := mul_nonneg h.right h'.right
  le := by
    rw [pow_add, mul_mul_mul_comm]
    exact mul_le_mul h.le h'.le h'.left (mul_nonneg (factor_nonneg k) h.right)
  ge := by
    rw [pow_add, mul_mul_mul_comm]
    exact mul_le_mul h.ge h'.ge h'.right (mul_nonneg (factor_nonneg k) h.left)

theorem pos (h : Within k a b) (ha : 0 < a) : 0 < b := by
  refine lt_of_le_of_ne h.right fun hb => ha.not_ge ?_
  simpa [← hb] using h.le

theorem eq_zero (h : Within k a 0) : a = 0 := le_antisymm (by simpa using h.le) h.left

theorem inv (h : Within k a b) (ha : 0 < a) : Within k a⁻¹ b⁻¹ where
  left := inv_nonneg.mpr h.left
  right := inv_nonneg.mpr h.right
  le := by
    rw [inv_eq_one_div, ← div_eq_mul_inv, div_le_div_iff₀ ha (h.pos ha), one_mul]
    exact h.ge
  ge := by
    rw [inv_eq_one_div, ← div_eq_mul_inv, div_le_div_iff₀ (h.pos ha) ha, one_mul]
    exact h.le

theorem div (h : Within k a b) (h' : Within l a' b') (ha' : 0 < a') :
    Within (k + l) (a / a') (b / b') := by
  rw [div_eq_mul_inv, div_eq_mul_inv]
  exact h.mul (h'.inv ha')

/-- From a difference: `ε` is less than what `k` roundings allow. -/
theorem of_abs_sub_le (ε : ℚ) (ha : 0 ≤ a) (hb : 0 ≤ b) (h : |a - b| ≤ ε * b)
    (hupper : 1 + ε ≤ roundingFactor ^ k) (hlower : 1 ≤ roundingFactor ^ k * (1 - ε)) :
    Within k a b := by
  obtain ⟨hbelow, habove⟩ := abs_le.mp h
  refine ⟨ha, hb, ?_, ?_⟩
  · calc a ≤ (1 + ε) * b := by linarith
      _ ≤ roundingFactor ^ k * b := mul_le_mul_of_nonneg_right hupper hb
  · calc b ≤ roundingFactor ^ k * (1 - ε) * b := le_mul_of_one_le_left hb hlower
      _ = roundingFactor ^ k * ((1 - ε) * b) := mul_assoc ..
      _ ≤ roundingFactor ^ k * a :=
        mul_le_mul_of_nonneg_left (by linarith) (factor_nonneg k)

/-- Seven roundings, in relation to the number. -/
theorem abs_sub_le (h : Within 7 a b) : |a - b| ≤ b / 2 ^ 50 := by
  have hfactor : roundingFactor ^ 7 ≤ 1 + 1 / 2 ^ 50 := by norm_num [roundingFactor]
  have hle := h.le.trans (mul_le_mul_of_nonneg_right hfactor h.right)
  have hge := h.ge.trans (mul_le_mul_of_nonneg_right hfactor h.left)
  rw [abs_le]
  constructor
  · rcases le_total a b with hab | hab <;> linarith
  · linarith

end Within

/-! ### Rounding -/

variable {negative : Bool} {q : ℚ} {x y : Binary64}

theorem value_abs_nonneg (x : Binary64) : 0 ≤ x.abs.value := by
  rw [value_abs]
  positivity

theorem value_abs_of_isZero (h : x.IsZero) : x.abs.value = 0 := by
  rw [value_abs, h, unitsOf_eq_zero_iff.mpr rfl, Nat.cast_zero, zero_div]

theorem value_abs_zero (negative : Bool) : (zero negative).abs.value = 0 :=
  value_abs_of_isZero rfl

theorem not_isZero_of_pos (h : 0 < x.abs.value) : ¬x.IsZero := fun hzero =>
  h.ne' (value_abs_of_isZero hzero)

theorem within_nearest_of_le {k : Nat} (ε : ℚ) (h : (nearest negative q).IsFinite)
    (hε : 1 / 2 ^ 53 ≤ ε) (hq : 1 / 2 ^ 1075 ≤ ε * |q|) (hupper : 1 + ε ≤ roundingFactor ^ k)
    (hlower : 1 ≤ roundingFactor ^ k * (1 - ε)) : Within k (nearest negative q).abs.value |q| := by
  refine .of_abs_sub_le ε (value_abs_nonneg _) (abs_nonneg q) ?_ hupper hlower
  refine (distance_nearest_le h).trans (max_le hq ?_)
  rw [← one_div_mul_eq_div]
  exact mul_le_mul_of_nonneg_right hε (abs_nonneg q)

/-- Where the precision is full, rounding counts once. -/
theorem within_nearest (h : (nearest negative q).IsFinite) (hq : 1 / 2 ^ 1022 ≤ |q|) :
    Within 1 (nearest negative q).abs.value |q| := by
  refine within_nearest_of_le (1 / 2 ^ 53) h le_rfl ?_ ?_ ?_
  · calc (1 / 2 ^ 1075 : ℚ) = 1 / 2 ^ 53 * (1 / 2 ^ 1022) := by
          rw [div_mul_div_comm, ← pow_add, one_mul]
      _ ≤ 1 / 2 ^ 53 * |q| := mul_le_mul_of_nonneg_left hq (by positivity)
  · norm_num [roundingFactor]
  · norm_num [roundingFactor]

/-- A little below, where the steps get no finer, rounding counts three times. -/
theorem within_nearest_below (h : (nearest negative q).IsFinite)
    (hq : 1 / 2 ^ 1021 / 5 ≤ |q|) : Within 3 (nearest negative q).abs.value |q| := by
  refine within_nearest_of_le (5 / 2 ^ 54) h (by norm_num) ?_ ?_ ?_
  · calc (1 / 2 ^ 1075 : ℚ) = 5 / 2 ^ 54 * (1 / 2 ^ 1021 / 5) := by
          rw [div_mul_div_cancel₀' (by norm_num), div_div, ← pow_add]
      _ ≤ 5 / 2 ^ 54 * |q| := mul_le_mul_of_nonneg_left hq (by positivity)
  · norm_num [roundingFactor]
  · norm_num [roundingFactor]

/-- Half a step above zero is not yet on the way to the first number above it. -/
theorem nearest_eq_zero (h : |q| ≤ 1 / 2 ^ 1075) : nearest negative q = zero negative := by
  have hplace : place (q.num.natAbs * oneUnits) q.den ≤ 0 := by
    refine place_le q.den_pos ?_ (by simp)
    have hunits : |q| * oneUnits ≤ 1 / 2 := by
      rw [oneUnits_eq, ← le_div_iff₀ (by positivity), div_div, ← pow_succ']
      exact h
    rw [← quotient_eq, div_le_div_iff₀ (Nat.cast_pos.mpr q.den_pos) two_pos, one_mul] at hunits
    have hsum : unitsOf 0 + unitsOf (0 + 1) = 1 := by decide
    rw [hsum, one_mul, Nat.mul_comm]
    exact_mod_cast hunits
  have hmagnitude : nearestMagnitude (q.num.natAbs * oneUnits) q.den = 0 := by
    rw [nearestMagnitude_eq_min, Nat.le_zero.mp hplace, Nat.zero_min]
  simp only [nearest, ofRatio, hmagnitude, zero]

/-! ### Operations -/

theorem neg_nearest (negative : Bool) (q : ℚ) : -nearest negative q = nearest (!negative) q := rfl

theorem ofNat_eq_nearest (n : Nat) : ofNat n = nearest false n := by
  rw [ofNat]
  refine ofRatio_eq_nearest Nat.one_pos ?_
  rw [Nat.cast_one, div_one, Nat.cast_mul, Nat.abs_cast]

theorem mul_eq_nearest (hx : x.IsFinite) (hy : y.IsFinite) :
    x * y = nearest (x.negative ^^ y.negative) (x.abs.value * y.abs.value) := by
  have hone := oneUnits_cast_pos.ne'
  have hmul : x * y = ofRatio (x.negative ^^ y.negative)
      (unitsOf x.magnitude * unitsOf y.magnitude) oneUnits := by
    show Binary64.mul x y = _
    rw [Binary64.mul, if_neg (not_or.mpr ⟨hx.not_isNaN, hy.not_isNaN⟩),
      if_neg (not_or.mpr ⟨hx.not_isInfinite, hy.not_isInfinite⟩)]
  rw [hmul]
  refine ofRatio_eq_nearest oneUnits_pos ?_
  rw [abs_of_nonneg (mul_nonneg (value_abs_nonneg x) (value_abs_nonneg y)), value_abs, value_abs]
  push_cast
  field_simp

theorem div_eq_nearest (hx : x.IsFinite) (hy : y.IsFinite) (h : ¬y.IsZero) :
    x / y = nearest (x.negative ^^ y.negative) (x.abs.value / y.abs.value) := by
  have hone := oneUnits_cast_pos.ne'
  have hpos : 0 < unitsOf y.magnitude := Nat.pos_of_ne_zero (mt unitsOf_eq_zero_iff.mp h)
  rw [div_of_isFinite hx hy h]
  refine ofRatio_eq_nearest hpos ?_
  rw [abs_of_nonneg (div_nonneg (value_abs_nonneg x) (value_abs_nonneg y)), value_abs, value_abs,
    div_div_div_cancel_right₀ hone]
  push_cast
  ring

/-- A multiple of a power of two with a short factor needs no rounding. -/
theorem value_ofNat {k j : Nat} (hk : k < 2 * binade) (hj : j ≤ 971) :
    (ofNat (k * 2 ^ j)).abs.value = (k * 2 ^ j : Nat) := by
  have hone := oneUnits_cast_pos.ne'
  have hunits : k * 2 ^ j * oneUnits = k * 2 ^ (j + 1074) := by
    rw [oneUnits, Nat.one_shiftLeft, Nat.mul_assoc, Nat.pow_add]
  have hle : k * 2 ^ (j + 1074) ≤ unitsOf (infinityMagnitude - 1) := by
    have hgrid {e : Nat} (he : j + 1074 ≤ e) : k * 2 ^ (j + 1074) ≤ (2 * binade - 1) * 2 ^ e :=
      Nat.mul_le_mul (Nat.le_sub_one_of_lt hk) (Nat.pow_le_pow_right (by decide) he)
    exact (hgrid (Nat.add_le_add_right hj 1074)).trans_eq (by decide +kernel)
  have hexact := (unitsOf_nearestMagnitude hk (by decide) hle).2
  rw [value_abs, div_eq_iff hone, ← Nat.cast_mul, hunits, ← hexact]
  show (unitsOf (nearestMagnitude (k * 2 ^ j * oneUnits) 1) : ℚ) = _
  rw [hunits]

theorem value_ofNat_of_le {n : Nat} (hn : n ≤ 2 ^ 53) : (ofNat n).abs.value = n := by
  rcases Nat.lt_or_eq_of_le hn with hlt | rfl
  · simpa using value_ofNat (j := 0) hlt (by decide)
  · simpa using value_ofNat (k := 1) (j := 53) (by decide) (by decide)

/-- Every 64-bit number is in range. -/
theorem isFinite_ofNat {n : Nat} (hn : n < 2 ^ 64) : (ofNat n).IsFinite := by
  have h : 2 ^ 64 + 2 ^ 970 < 2 ^ 1024 := by decide +kernel
  have hlt : (2 ^ 64 : ℚ) < overflow := by
    rw [overflow, lt_sub_iff_add_lt]
    exact_mod_cast h
  rw [ofNat_eq_nearest, isFinite_nearest_iff, Nat.abs_cast]
  exact lt_trans (by exact_mod_cast hn) hlt

/-! ### Numbers in range -/

/-- A number unless it is out of range. -/
def finite? (x : Binary64) : Option Binary64 := if x.IsFinite then some x else none

theorem finite?_of_isFinite (h : x.IsFinite) : finite? x = some x := if_pos h

theorem finite?_eq_none (h : ¬x.IsFinite) : finite? x = none := if_neg h

theorem finite?_eq_ite (h : ¬x.IsNaN) : finite? x = if x.IsInfinite then none else some x := by
  split
  · rename_i hinf
    exact finite?_eq_none fun hfin => hfin.not_isInfinite hinf
  · rename_i hinf
    exact finite?_of_isFinite (Nat.lt_of_le_of_ne (Nat.le_of_not_lt h) hinf)

theorem finite?_eq_some_iff : finite? x = some y ↔ y = x ∧ y.IsFinite := by
  rw [finite?]
  split
  · rename_i h
    rw [Option.some.injEq]
    exact ⟨fun heq => heq ▸ ⟨rfl, h⟩, fun heq => heq.1.symm⟩
  · rename_i h
    simp only [reduceCtorEq, false_iff]
    rintro ⟨rfl, hy⟩
    exact h hy

theorem finite?_neg (x : Binary64) : finite? (-x) = (finite? x).map fun y => -y := by
  by_cases h : x.IsFinite
  · rw [finite?_of_isFinite h]
    exact finite?_of_isFinite (x := -x) h
  · rw [finite?_eq_none h]
    exact finite?_eq_none (x := -x) h

end RegressionGate.Binary64
