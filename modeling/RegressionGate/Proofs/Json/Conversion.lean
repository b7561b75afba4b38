import RegressionGate.Proofs.Json.Scale
import RegressionGate.Proofs.Json.Significand

/-! The conversion of literals: a literal is converted to the number nearest to one that differs
from what it denotes by a few roundings, and not at all for a short literal. -/

namespace RegressionGate.Json

open Binary64

/-! ### Exponents -/

variable {n e : Nat} {ds unread s r : Bytes} {l : Literal}

theorem readExponent_eq_inl (h : readExponent n ds = .inl e) :
    e = n * 10 ^ ds.length + numeral ds := by
  induction ds generalizing n with
  | nil =>
    cases h
    simp [numeral]
  | cons d ds ih =>
    rw [readExponent] at h
    split at h
    · rw [ih h, numeral_cons, List.length_cons, Nat.pow_succ]
      ring
    · contradiction

theorem maxExponent_lt_of_readExponent (h : readExponent n ds = .inr unread) :
    maxExponent < n * 10 ^ ds.length + numeral ds := by
  induction ds generalizing n with
  | nil => contradiction
  | cons d ds ih =>
    have hsplit : n * 10 ^ (d :: ds).length + numeral (d :: ds) =
        (n * 10 + digitValue d) * 10 ^ ds.length + numeral ds := by
      rw [numeral_cons, List.length_cons, Nat.pow_succ]
      ring
    rw [hsplit]
    rw [readExponent] at h
    split at h
    · exact ih h
    · rename_i hlarge
      have hle := Nat.le_mul_of_pos_right (n * 10 + digitValue d)
        (Nat.pow_pos (n := ds.length) (by decide : 0 < 10))
      omega

/-! ### Literals -/

/-- A literal that is converted without a rounding before the last one: a zero, a whole number of 64
bits, or few digits with a small power of ten. -/
def Literal.Exact (l : Literal) : Prop :=
  numeral (l.whole ++ l.fraction) = 0 ∨
    (l.fraction = [] ∧ l.exponent = none ∧ numeral l.whole < 2 ^ 64) ∨
    (numeral (l.whole ++ l.fraction) ≤ 2 ^ 53 ∧
      (l.writtenExponent - l.fraction.length).natAbs ≤ 22)

instance (l : Literal) : Decidable l.Exact := by
  unfold Literal.Exact
  infer_instance

/-- Whether `r` is the number nearest to one that differs from what a literal denotes by a few
roundings, and not at all for an exact literal; or nothing when that is out of range. -/
def Literal.Converted (l : Literal) (r : Option Binary64) : Prop :=
  ∃ q : ℚ, Within 7 q |l.value| ∧ (l.Exact → q = |l.value|) ∧
    r = finite? (Binary64.nearest l.negative q)

theorem Literal.Spelled.digits (h : l.Spelled s r) : ∀ d ∈ l.whole ++ l.fraction, isDigit d := by
  obtain ⟨negative, ds, fs, e⟩ := l
  obtain ⟨-, whole, fraction, -⟩ := h
  rw [List.forall_mem_append]
  constructor
  · cases whole with
    | zero => exact List.forall_mem_singleton.mpr (by decide)
    | positive h => exact h.digit
  · cases fraction with
    | present h => exact h.digit
    | absent => exact List.forall_mem_nil _

/-- The result with the sign that is written. -/
def Literal.signed (l : Literal) (x : Binary64) : Binary64 := if l.negative then -x else x

theorem Literal.finite?_signed (l : Literal) (q : ℚ) :
    (finite? (Binary64.nearest false q)).map l.signed =
      finite? (Binary64.nearest l.negative q) := by
  have hneg := finite?_neg (Binary64.nearest false q)
  rw [neg_nearest] at hneg
  unfold Literal.signed
  cases l.negative with
  | true => exact hneg.symm
  | false => exact Option.map_id'

theorem Literal.within_scaled (h : ∀ d ∈ l.whole ++ l.fraction, isDigit d) :
    Within 1 (l.significand.1 * 10 ^ (l.significand.2 + l.writtenExponent)) |l.value| := by
  have hwritten : Within 0 (10 ^ l.writtenExponent) (10 ^ l.writtenExponent) :=
    .refl 0 (by positivity)
  have hmul := (Literal.within_significand h).mul hwritten
  rwa [mul_assoc, mul_assoc, ← zpow_add₀ (by norm_num), ← zpow_add₀ (by norm_num),
    neg_add_eq_sub, ← Literal.abs_value] at hmul

theorem Literal.abs_value_eq_zero (h : numeral (l.whole ++ l.fraction) = 0) : |l.value| = 0 := by
  rw [Literal.abs_value, h, Nat.cast_zero, zero_mul]

theorem Literal.converted_scaled (h : ∀ d ∈ l.whole ++ l.fraction, isDigit d)
    (hshape : l.fraction = [] → l.exponent = none → l.significand.2 ≠ 0) :
    l.Converted ((scale? (.ofNat l.significand.1) (l.significand.2 + l.writtenExponent)).map
      l.signed) := by
  obtain ⟨q, hq, hexact, heq⟩ := scaled_scale? l.significand_lt
    (l.significand.2 + l.writtenExponent)
  have hwithin := hq.trans (Literal.within_scaled h)
  refine ⟨q, hwithin, ?_, by rw [heq, Literal.finite?_signed]⟩
  rintro (hzero | ⟨hfraction, hexponent, hsmall⟩ | ⟨hshort, hrange⟩)
  · rw [Literal.abs_value_eq_zero hzero] at hwithin ⊢
    exact hwithin.eq_zero
  · rw [← List.append_nil l.whole, ← hfraction] at hsmall
    refine (hshape hfraction hexponent ?_).elim
    rw [Literal.significand_of_lt hsmall, hfraction]
    rfl
  · have hall := Literal.significand_of_lt (hshort.trans_lt (by decide))
    rw [hall, neg_add_eq_sub] at hexact
    rw [Literal.abs_value]
    exact hexact hshort hrange

theorem toBinary64_wholeNumber (negative : Bool) (n : Nat) :
    (wholeNumber negative n).toBinary64 = if negative then -.ofNat n else .ofNat n := by
  cases negative with
  | false => simp [wholeNumber, Number.toBinary64]
  | true =>
    rw [wholeNumber, if_neg (by decide), if_pos rfl]
    split
    · rfl
    · rename_i hn
      rw [Number.toBinary64, if_pos (by omega), Int.natAbs_neg, Int.natAbs_natCast]

/-- A whole number that fits in 64 bits is converted at once. -/
theorem Literal.converted_whole (hfraction : l.fraction = []) (hexponent : l.exponent = none)
    (hshift : l.significand.2 = 0) :
    l.Converted (some (wholeNumber l.negative l.significand.1).toBinary64) := by
  have hvalue : |l.value| = l.significand.1 := by
    rw [Literal.abs_value, Literal.significand_of_shift hfraction hshift, Literal.writtenExponent,
      hexponent, hfraction, List.append_nil]
    simp
  refine ⟨|l.value|, .refl 7 (abs_nonneg _), fun _ => rfl, ?_⟩
  rw [← Literal.finite?_signed, hvalue, ← ofNat_eq_nearest,
    finite?_of_isFinite (isFinite_ofNat l.significand_lt), Option.map_some, toBinary64_wholeNumber]
  rfl

/-! ### Exponents out of range -/

theorem Literal.converted_zero (h : Binary64.nearest l.negative l.value = .zero l.negative) :
    l.Converted (some (l.signed (.zero false))) := by
  refine ⟨|l.value|, .refl 7 (abs_nonneg _), fun _ => rfl, ?_⟩
  rw [nearest_congr (abs_abs _), h, finite?_zero, Literal.signed]
  cases l.negative with
  | true => rfl
  | false => rfl

theorem Literal.converted_none (h : ¬(Binary64.nearest l.negative l.value).IsFinite) :
    l.Converted none := by
  refine ⟨|l.value|, .refl 7 (abs_nonneg _), fun _ => rfl, ?_⟩
  rw [nearest_congr (abs_abs _), finite?_eq_none h]

/-- A literal with few digits and a great negative exponent vanishes. -/
theorem Literal.nearest_eq_zero (h : ∀ d ∈ l.whole ++ l.fraction, isDigit d)
    (hexponent : l.writtenExponent + l.whole.length ≤ -616) :
    Binary64.nearest l.negative l.value = .zero l.negative := by
  apply Binary64.nearest_eq_zero
  have hlt : (numeral (l.whole ++ l.fraction) : ℚ) ≤ 10 ^ (l.whole ++ l.fraction).length := by
    exact_mod_cast (numeral_lt h).le
  rw [Literal.abs_value]
  calc _ ≤ (10 ^ (l.whole ++ l.fraction).length * 10 ^ (l.writtenExponent - l.fraction.length) : ℚ)
        := mul_le_mul_of_nonneg_right hlt (by positivity)
    _ = 10 ^ (l.writtenExponent + l.whole.length) := by
      rw [← zpow_natCast, ← zpow_add₀ (by norm_num), List.length_append]
      congr 1
      omega
    _ ≤ 2 ^ 65 * 10 ^ (l.writtenExponent + l.whole.length) :=
      le_mul_of_one_le_left (by positivity) (by norm_num)
    _ ≤ 1 / 2 ^ 1075 := vanishing hexponent

theorem Literal.not_isFinite_nearest (hpos : 0 < numeral (l.whole ++ l.fraction))
    (hexponent : 308 < l.writtenExponent - l.fraction.length) :
    ¬(Binary64.nearest l.negative l.value).IsFinite := by
  rw [← nearest_congr (abs_abs l.value), Literal.abs_value]
  exact Json.not_isFinite_nearest (by exact_mod_cast hpos) hexponent

theorem Literal.numeral_eq_zero_of_significand (h : ∀ d ∈ l.whole ++ l.fraction, isDigit d)
    (hzero : l.significand.1 = 0) : numeral (l.whole ++ l.fraction) = 0 := by
  have hwithin := (Literal.within_significand h).symm
  rw [hzero, Nat.cast_zero, zero_mul] at hwithin
  have hproduct := hwithin.eq_zero
  rw [mul_eq_zero, Nat.cast_eq_zero] at hproduct
  exact hproduct.resolve_right (by positivity)

/-- An exponent that is too long to be read: the digits before it are too few to make up for it. -/
theorem Literal.converted_far (h : ∀ d ∈ l.whole ++ l.fraction, isDigit d)
    (hlength : l.whole.length + l.fraction.length + 1000 ≤ maxExponent) {negative : Bool}
    (hexponent : l.exponent = some (negative, ds)) (hread : readExponent 0 ds = .inr unread) :
    l.Converted
      (if l.significand.1 = 0 ∨ negative then some (l.signed (.zero false)) else none) := by
  have hlarge := maxExponent_lt_of_readExponent hread
  rw [Nat.zero_mul, Nat.zero_add] at hlarge
  rw [maxExponent] at hlarge hlength
  split
  · rename_i hvanishes
    apply Literal.converted_zero
    by_cases hzero : l.significand.1 = 0
    · apply Binary64.nearest_eq_zero
      rw [Literal.abs_value_eq_zero (Literal.numeral_eq_zero_of_significand h hzero)]
      positivity
    · refine Literal.nearest_eq_zero h ?_
      rw [Literal.writtenExponent, hexponent]
      simp only [if_pos (hvanishes.resolve_left hzero)]
      omega
  · rename_i hover
    obtain ⟨hnonzero, hpositive⟩ := not_or.mp hover
    apply Literal.converted_none
    refine Literal.not_isFinite_nearest (Nat.pos_of_ne_zero fun hzero => hnonzero ?_) ?_
    · rw [Literal.significand_of_lt (by rw [hzero]; decide), hzero]
    · rw [Literal.writtenExponent, hexponent]
      simp only [if_neg hpositive]
      omega

/-- A literal whose digits are fewer than the exponents that are read is converted to the number
nearest to one close to what it denotes. -/
theorem Literal.converted (h : ∀ d ∈ l.whole ++ l.fraction, isDigit d)
    (hlength : l.whole.length + l.fraction.length + 1000 ≤ maxExponent) :
    l.Converted (l.toNumber?.map Number.toBinary64) := by
  rw [Literal.toNumber?]
  cases hexponent : l.exponent with
  | none =>
    have hwritten : l.writtenExponent = 0 := by rw [Literal.writtenExponent, hexponent]
    simp only
    split
    · rename_i hplain
      exact Literal.converted_whole hplain.1 hexponent hplain.2
    · rename_i hplain
      have hscaled := Literal.converted_scaled h fun hfraction _ hshift =>
        hplain ⟨hfraction, hshift⟩
      rw [hwritten, add_zero] at hscaled
      rw [Option.map_map]
      exact hscaled
  | some p =>
    obtain ⟨negative, ds⟩ := p
    simp only
    split
    · rename_i e hread
      have hscaled := Literal.converted_scaled h (by simp [hexponent])
      have hsum : l.significand.2 + l.writtenExponent =
          if negative then l.significand.2 - e else l.significand.2 + e := by
        rw [readExponent_eq_inl hread, Nat.zero_mul, Nat.zero_add, Literal.writtenExponent,
          hexponent]
        cases negative with
        | true => rfl
        | false => rfl
      rw [hsum] at hscaled
      rw [Option.map_map]
      exact hscaled
    · rename_i unread hread
      rw [apply_ite (Option.map Number.toBinary64)]
      exact Literal.converted_far h hlength hexponent hread

/-! ### A one that is refused -/

theorem Literal.toNumber?_far {negative : Bool} (hexponent : l.exponent = some (negative, ds))
    (hread : readExponent 0 ds = .inr unread) :
    l.toNumber? =
      if l.significand.1 = 0 ∨ negative then some (.float (l.signed (.zero false))) else none := by
  rw [Literal.toNumber?]
  simp only [hexponent, hread]
  rfl

/-- The number one, written with `n` zeros between the point and its digit. -/
def Literal.shiftedOne (n : Nat) (exponent : Bytes) : Literal :=
  ⟨false, [0x30], List.replicate n 0x30 ++ [0x31], some (false, exponent)⟩

theorem numeral_zeros (n : Nat) : numeral (List.replicate n 0x30) = 0 := by
  induction n with
  | zero => rfl
  | succ n ih =>
    rw [List.replicate_succ, numeral_cons, ih]
    exact Nat.zero_mul _

theorem Literal.numeral_shiftedOne (n : Nat) (ds : Bytes) :
    numeral ((shiftedOne n ds).whole ++ (shiftedOne n ds).fraction) = 1 := by
  rw [shiftedOne, List.singleton_append, numeral_cons, numeral_append, numeral_zeros]
  simp [numeral, digitValue]

theorem Literal.value_shiftedOne (h : numeral ds = n + 1) : (shiftedOne n ds).value = 1 := by
  have hlength : (shiftedOne n ds).fraction.length = n + 1 := by
    rw [shiftedOne, List.length_append, List.length_replicate, List.length_singleton]
  have hwritten : (shiftedOne n ds).writtenExponent = (n + 1 : Nat) := by
    rw [← h]
    rfl
  rw [Literal.value, numeral_shiftedOne, hlength, hwritten, sub_self, zpow_zero]
  simp [shiftedOne]

theorem Literal.spelled_shiftedOne (n : Nat) (h : Digits ds ds []) :
    (shiftedOne n ds).Spelled (0x30 :: 0x2e :: (List.replicate n 0x30 ++ 0x31 :: 0x65 :: ds))
      [] := by
  have hfraction : Digits (List.replicate n 0x30 ++ [0x31])
      (List.replicate n 0x30 ++ 0x31 :: 0x65 :: ds) (0x65 :: ds) := by
    refine ⟨by simp, by simp, ?_⟩
    intro d hd
    rcases List.mem_append.mp hd with hd | hd
    · rw [List.eq_of_mem_replicate hd]
      decide
    · rw [List.mem_singleton.mp hd]
      decide
  exact .parts .absent .zero (.present hfraction) (.present (.inl rfl) (.minus .absent) h)

theorem Literal.toNumber?_shiftedOne (n : Nat) (h : readExponent 0 ds = .inr unread) :
    (shiftedOne n ds).toNumber? = none := by
  have hall := numeral_shiftedOne n ds
  rw [Literal.toNumber?_far rfl h, Literal.significand_of_lt (by rw [hall]; decide), hall]
  rfl

end RegressionGate.Json
