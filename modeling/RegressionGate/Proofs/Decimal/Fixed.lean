import RegressionGate.Decimal.Literal
import RegressionGate.Proofs.Binary64.Order
import RegressionGate.Proofs.Decimal.Digits
import RegressionGate.Proofs.Decimal.Shortest

/-! Numbers written with a fixed number of places. What is written is no farther from the number
than half of the last place and is in the order of the numbers, and the text can be read back. -/

namespace RegressionGate

/-! ### What is written -/

namespace Binary64

open Decimal

variable {x y : Binary64}

/-- A finite absolute value in steps of the last of so many places, rounded. -/
def lastPlaces (magnitude places : Nat) : Nat :=
  roundHalfEven (unitsOf magnitude * tenTo places) oneUnits

/-- A finite number in steps of the last of so many places, rounded. -/
def steps (x : Binary64) (places : Nat) : Int :=
  if x.negative then -(lastPlaces x.magnitude places : Int) else lastPlaces x.magnitude places

/-- The number that a finite one is written as with so many places. -/
def toPlaces (x : Binary64) (places : Nat) : ℚ := x.steps places / 10 ^ places

theorem lastPlaces_mono {m m' : Nat} (h : m ≤ m') (places : Nat) :
    lastPlaces m places ≤ lastPlaces m' places :=
  roundHalfEven_mono oneUnits_pos oneUnits_pos
    (Nat.mul_le_mul_right _ (Nat.mul_le_mul_right _ (unitsOf_strictMono.monotone h)))

theorem lastPlaces_zero (places : Nat) : lastPlaces 0 places = 0 := by
  rw [lastPlaces, unitsOf_eq_zero_iff.mpr rfl, Nat.zero_mul]
  exact roundHalfEven_mul 0 oneUnits_pos

theorem steps_mono (h : x ≤ y) (places : Nat) : x.steps places ≤ y.steps places := by
  have hrank := h.2.2
  rw [rank, rank] at hrank
  rw [steps, steps]
  cases hx : x.negative <;> cases hy : y.negative <;>
    simp only [hx, hy, if_true, Bool.false_eq_true, if_false] at hrank ⊢
  · exact Int.ofNat_le.mpr (lastPlaces_mono (by omega) places)
  · -- Only zeros are in order although the signs are not.
    have hxzero : x.magnitude = 0 := by omega
    have hyzero : y.magnitude = 0 := by omega
    rw [hxzero, hyzero, lastPlaces_zero]
    decide
  · omega
  · exact Int.neg_le_neg (Int.ofNat_le.mpr (lastPlaces_mono (by omega) places))

/-- What is written is in the order of the numbers. -/
theorem toPlaces_mono (h : x ≤ y) (places : Nat) : x.toPlaces places ≤ y.toPlaces places :=
  div_le_div_of_nonneg_right (Int.cast_le.mpr (steps_mono h places)) (by positivity)

theorem abs_lastPlaces_sub (magnitude places : Nat) :
    |(lastPlaces magnitude places : ℚ) - unitsOf magnitude / oneUnits * 10 ^ places| ≤ 1 / 2 := by
  have hclose := abs_roundHalfEven_sub (n := unitsOf magnitude * tenTo places) oneUnits_pos
  rwa [Nat.cast_mul, cast_tenTo, mul_div_right_comm] at hclose

theorem abs_steps_sub (x : Binary64) (places : Nat) :
    |x.steps places - x.value * 10 ^ places| ≤ 1 / 2 := by
  have hclose := abs_lastPlaces_sub x.magnitude places
  rw [steps, value, units]
  split
  · rw [← abs_neg]
    convert hclose using 2
    push_cast
    ring
  · rw [Int.cast_natCast, Int.cast_natCast]
    exact hclose

/-- What is written is no farther from the number than half of the last place. -/
theorem abs_toPlaces_sub (x : Binary64) (places : Nat) :
    |x.toPlaces places - x.value| ≤ 1 / 10 ^ places / 2 := by
  have hpow : (0 : ℚ) < 10 ^ places := by positivity
  rw [toPlaces, div_sub' hpow.ne', abs_div, abs_of_pos hpow, div_right_comm, mul_comm]
  exact div_le_div_of_nonneg_right (abs_steps_sub x places) hpow.le

/-- A whole number is written as it is. -/
theorem toPlaces_of_value {k : Nat} (h : x.value = k) (places : Nat) : x.toPlaces places = k := by
  have hclose := abs_steps_sub x places
  have hlt : |x.steps places - (k * 10 ^ places : Nat)| < 1 := by
    rw [h] at hclose
    have hlt := hclose.trans_lt one_half_lt_one
    exact_mod_cast hlt
  rw [toPlaces, sub_eq_zero.mp (Int.abs_lt_one_iff.mp hlt)]
  push_cast
  exact mul_div_cancel_right₀ _ (by positivity)

end Binary64

/-! ### Reading it back -/

namespace Decimal

open Binary64

/-- The decimal that a text begins with, the number of its places and what follows it. -/
def decimal? (s : List Char) : Option (ℚ × Nat × List Char) := do
  let (negative, r) := splitSign s
  let (whole, fraction, rest) ← mantissa? r
  let n : ℚ := Nat.ofDigitChars 10 (whole ++ fraction) 0 / 10 ^ fraction.length
  some (if negative then -n else n, fraction.length, rest)

variable {whole fraction rest : List Char} {c : Char}

theorem takeWhile_digits (h : AllDigits whole) (hc : ¬c.isDigit) (rest : List Char) :
    (whole ++ c :: rest).takeWhile Char.isDigit = whole := by
  rw [List.takeWhile_append_of_pos h, List.takeWhile_cons_of_neg hc, List.append_nil]

theorem dropWhile_digits (h : AllDigits whole) (hc : ¬c.isDigit) (rest : List Char) :
    (whole ++ c :: rest).dropWhile Char.isDigit = c :: rest := by
  rw [List.dropWhile_append_of_pos h, List.dropWhile_cons_of_neg hc]

theorem mantissa?_whole (h : AllDigits whole) (hne : whole ≠ []) (hc : ¬c.isDigit)
    (hpoint : c ≠ '.') (rest : List Char) :
    mantissa? (whole ++ c :: rest) = some (whole, [], c :: rest) := by
  simp [mantissa?, takeWhile_digits h hc, dropWhile_digits h hc, hne, hpoint]

theorem mantissa?_fraction (h : AllDigits whole) (hne : whole ≠ []) (hfraction : AllDigits fraction)
    (hc : ¬c.isDigit) (rest : List Char) :
    mantissa? (whole ++ '.' :: (fraction ++ c :: rest)) = some (whole, fraction, c :: rest) := by
  have hpoint : ¬('.' : Char).isDigit := by decide
  simp [mantissa?, takeWhile_digits h hpoint, dropWhile_digits h hpoint,
    takeWhile_digits hfraction hc, dropWhile_digits hfraction hc, hne]

/-- The digits of a number, divided where its text has the point. -/
theorem exists_pointed (n places : Nat) :
    ∃ whole fraction, AllDigits whole ∧ whole ≠ [] ∧ AllDigits fraction ∧
      fraction.length = places ∧ Nat.ofDigitChars 10 (whole ++ fraction) 0 = n ∧
      pointed n places = if places = 0 then whole else whole ++ '.' :: fraction := by
  have hdigits := allDigits_padded n places
  have hlength := lt_length_padded n places
  refine ⟨(padded n places).take ((padded n places).length - places),
    (padded n places).drop ((padded n places).length - places),
    fun c hc => hdigits c (List.mem_of_mem_take hc), ?_,
    fun c hc => hdigits c (List.mem_of_mem_drop hc), ?_, ?_, ?_⟩
  · rw [← List.length_pos_iff, List.length_take]
    omega
  · rw [List.length_drop]
    omega
  · rw [List.take_append_drop, ofDigitChars_padded]
  · rw [pointed_eq]
    split
    · rename_i hzero
      rw [hzero, Nat.sub_zero, List.take_length]
    · rfl

theorem mantissa?_pointed (n places : Nat) (hc : ¬c.isDigit) (hpoint : c ≠ '.')
    (rest : List Char) :
    ∃ whole fraction,
      mantissa? (pointed n places ++ c :: rest) = some (whole, fraction, c :: rest) ∧
      fraction.length = places ∧ Nat.ofDigitChars 10 (whole ++ fraction) 0 = n := by
  obtain ⟨whole, fraction, hwhole, hne, hfraction, hlength, hvalue, htext⟩ :=
    exists_pointed n places
  refine ⟨whole, fraction, ?_, hlength, hvalue⟩
  rw [htext]
  split
  · rename_i hzero
    obtain rfl := List.eq_nil_of_length_eq_zero (hlength.trans hzero)
    exact mantissa?_whole hwhole hne hc hpoint rest
  · rw [List.append_assoc]
    exact mantissa?_fraction hwhole hne hfraction hc rest

theorem splitSign_digits (h : AllDigits whole) (hne : whole ≠ []) (rest : List Char) :
    splitSign (whole ++ rest) = (false, whole ++ rest) := by
  obtain ⟨d, ds, rfl⟩ := List.exists_cons_of_ne_nil hne
  have hd := h d List.mem_cons_self
  have hsign (c : Char) (hc : ¬c.isDigit) (r : List Char) : d :: (ds ++ rest) ≠ c :: r := by
    intro heq
    exact hc ((List.cons.inj heq).1 ▸ hd)
  rw [List.cons_append, splitSign]
  · exact hsign '-' (by decide)
  · exact hsign '+' (by decide)

/-- Behind the sign of a number its digits follow. -/
theorem splitSign_sign (x : Binary64) (n places : Nat) (rest : List Char) :
    splitSign (x.sign ++ (pointed n places ++ rest)) = (x.negative, pointed n places ++ rest) := by
  obtain ⟨whole, fraction, hwhole, hne, -, -, -, htext⟩ := exists_pointed n places
  rw [sign]
  cases x.negative with
  | true => rfl
  | false =>
    rw [if_neg Bool.false_ne_true, List.nil_append, htext]
    split
    · exact splitSign_digits hwhole hne rest
    · rw [List.append_assoc]
      exact splitSign_digits hwhole hne _

/-- The text of a finite number with a fixed number of places reads back as what is written. -/
theorem decimal?_fixed {x : Binary64} (hx : x.IsFinite) (places : Nat) (hc : ¬c.isDigit)
    (hpoint : c ≠ '.') (rest : List Char) :
    decimal? ((x.fixed places).toList ++ c :: rest) =
      some (x.toPlaces places, places, c :: rest) := by
  obtain ⟨whole, fraction, hmantissa, hlength, hvalue⟩ :=
    mantissa?_pointed (lastPlaces x.magnitude places) places hc hpoint rest
  have htext : (x.fixed places).toList =
      x.sign ++ pointed (lastPlaces x.magnitude places) places := by
    rw [fixed, if_neg hx.not_isNaN, if_neg hx.not_isInfinite, String.toList_ofList]
    rfl
  rw [decimal?, htext, List.append_assoc, splitSign_sign]
  simp only [hmantissa, Option.bind_eq_bind, Option.bind_some, hvalue, hlength, toPlaces, steps]
  cases x.negative <;> simp [neg_div]

end Decimal

end RegressionGate
