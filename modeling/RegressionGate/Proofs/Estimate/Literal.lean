import RegressionGate.Proofs.Estimate.Measure
import RegressionGate.Proofs.Json.Conversion
import RegressionGate.Proofs.Json.Unambiguous
import RegressionGate.Proofs.Json.Writer

/-! The measure of a literal. A file with nothing but a mean gives the number nearest to one that is
as close to what is written as a few roundings allow; the shortest decimal of a number, where it has
few digits and a small power of ten, gives that number. -/

namespace RegressionGate.Estimate

open Json Binary64

/-- The content of an estimates file with nothing but the mean, as `text`. -/
def estimates (text : Bytes) : Bytes :=
  Utf8.encode "\x7b\"mean\":\x7b\"point_estimate\":" ++ (text ++ Utf8.encode "\x7d\x7d")

/-! ### The document -/

variable {text : Bytes} {l : Literal} {x : Binary64}

theorem estimates_eq (text : Bytes) :
    estimates text = 0x7b :: 0x22 :: (escapedBody "mean" ++ 0x22 :: 0x3a :: 0x7b :: 0x22 ::
      (escapedBody "point_estimate" ++ 0x22 :: 0x3a :: (text ++ [0x7d, 0x7d]))) := by
  have hopening : Utf8.encode "\x7b\"mean\":\x7b\"point_estimate\":" =
      0x7b :: 0x22 :: (escapedBody "mean" ++ 0x22 :: 0x3a :: 0x7b :: 0x22 ::
        (escapedBody "point_estimate" ++ 0x22 :: [0x3a])) := by decide +kernel
  have hclosing : Utf8.encode "\x7d\x7d" = [0x7d, 0x7d] := by decide +kernel
  rw [estimates, hopening, hclosing]
  simp only [List.cons_append, List.append_assoc, List.nil_append]

theorem derives_member (key : String) {v : Raw} {s r : Bytes}
    (h : Derives (.value v) s (0x7d :: r)) :
    Derives (.value (.object [(escapedBody key, v)]))
      (0x7b :: 0x22 :: (escapedBody key ++ 0x22 :: 0x3a :: s)) r :=
  .object (.lastItem (.member .done (spells_escapedBody key).body .done) .done h .done)

theorem document_estimates (h : l.Spelled text []) :
    Document (.object [(escapedBody "mean",
      .object [(escapedBody "point_estimate", .number l)])]) (estimates text) := by
  rw [estimates_eq]
  exact ⟨_, _, .done, derives_member _ (derives_member _ (.number (h.append [0x7d, 0x7d]))), .done⟩

theorem mean_estimates_iff (h : l.Spelled text []) :
    Mean (estimates text) x ↔ l.toNumber?.map Number.toBinary64 = some x := by
  have hdocument := document_estimates h
  have hconverts : Raw.Converts (.number l) x ↔ l.toNumber?.map Number.toBinary64 = some x := by
    rw [Option.map_eq_some_iff]
    constructor
    · rintro ⟨hn⟩
      exact ⟨_, hn, rfl⟩
    · rintro ⟨n, hn, rfl⟩
      exact .number hn
  rw [← hconverts, ← record_singleton_iff (P := Raw.Converts) (spells_escapedBody "point_estimate"),
    ← record_singleton_iff (P := Raw.Record "point_estimate" Raw.Converts)
      (spells_escapedBody "mean")]
  constructor
  · rintro ⟨v, hv, hmean⟩
    rwa [hdocument.unique hv] at hmean
  · exact fun hmean => ⟨_, hdocument, hmean⟩

/-! ### The sign -/

theorem lt_zero_iff (h : x.IsFinite) : x < zero false ↔ x.negative = true ∧ ¬x.IsZero := by
  have hrank : (zero false).rank = 0 := rfl
  have hzero : ¬(zero false).IsNaN := by decide
  rw [lt_def, hrank, rank, IsZero]
  cases x.negative with
  | true =>
    rw [if_pos rfl]
    simp [h.not_isNaN, hzero]
    omega
  | false => simp

/-- The nearest number is not below zero just when what is written is not, or it is a zero. -/
theorem not_lt_zero_iff {q : ℚ} (hfinite : (Binary64.nearest l.negative q).IsFinite)
    (hq : |l.value| = 0 → q = 0) :
    ¬Binary64.nearest l.negative q < zero false ↔
      0 ≤ l.value ∨ (Binary64.nearest l.negative q).IsZero := by
  have hnegative : (Binary64.nearest l.negative q).negative = l.negative := rfl
  rw [lt_zero_iff hfinite, hnegative, not_and_not_right, l.value_nonneg_iff]
  constructor
  · intro h
    cases hneg : l.negative with
    | false => exact .inl (.inl rfl)
    | true => exact .inr (hneg ▸ h hneg)
  · rintro ((hneg | hvalue) | hzero) hminus
    · rw [hneg] at hminus
      contradiction
    · rw [hq hvalue, nearest_eq_zero (by simp)]
      rfl
    · exact hzero

theorem measure_estimates_iff (h : l.Spelled text []) :
    measure (estimates text) = .ok x ↔
      l.toNumber?.map Number.toBinary64 = some x ∧ x.IsFinite ∧ ¬x < zero false := by
  rw [measure_eq_ok_iff, mean_estimates_iff h]

/-- What a file with a literal gives: the number nearest to `q`, unless that is out of range or
below zero. -/
theorem measure_estimates_of_converted (h : l.Spelled text []) {q : ℚ}
    (hnumber : l.toNumber?.map Number.toBinary64 = finite? (Binary64.nearest l.negative q))
    (hq : |l.value| = 0 → q = 0) (x : Binary64) :
    measure (estimates text) = .ok x ↔
      x.negative = l.negative ∧ x.IsNearest q ∧ (0 ≤ l.value ∨ x.IsZero) := by
  rw [measure_estimates_iff h, hnumber, finite?_eq_some_iff, ← and_assoc (c := _ ∨ _),
    isNearest_iff]
  constructor
  · rintro ⟨⟨rfl, hfinite⟩, -, hrange⟩
    exact ⟨⟨rfl, hfinite⟩, (not_lt_zero_iff hfinite hq).mp hrange⟩
  · rintro ⟨⟨rfl, hfinite⟩, hrange⟩
    exact ⟨⟨rfl, hfinite⟩, hfinite, (not_lt_zero_iff hfinite hq).mpr hrange⟩

/-- A literal that a number is nearest to is not below zero when the number is not. -/
theorem value_nonneg_or_isZero (h : 0 ≤ l.nearest.value) : 0 ≤ l.value ∨ l.nearest.IsZero := by
  rw [or_iff_not_imp_right]
  intro hzero
  exact l.value_nonneg_iff.mpr (.inl (negative_of_nonneg h hzero))

/-- The text of an amount spells a literal to which the amount is nearest. -/
theorem nearest_of_amountText (h : l.Spelled (Utf8.encode (amountText x)) [])
    (hfinite : x.IsFinite) : l.nearest = x := by
  obtain ⟨l', hspelled, hnearest⟩ := exists_literal_amountText hfinite
  have hspelled' := hspelled []
  rw [List.append_nil] at hspelled'
  obtain ⟨rfl, -⟩ := h.unique hspelled' stops_nil stops_nil
  exact hnearest

/-- The measure is the number nearest to one that is close to what is written, and to what is
written itself when it is short. A number below zero is taken only when it becomes a zero. -/
theorem measure_literal (h : l.Spelled text [])
    (hlength : l.whole.length + l.fraction.length + 1000 ≤ maxExponent) :
    (∃ q : ℚ, |q - l.value| ≤ |l.value| / 2 ^ 50 ∧ (l.Exact → q = l.value) ∧
      ∀ x, measure (estimates text) = .ok x ↔
        x.negative = l.negative ∧ x.IsNearest q ∧ (0 ≤ l.value ∨ x.IsZero)) ∧
    ∀ x : Binary64, x.IsFinite → 0 ≤ x.value → text = Utf8.encode (amountText x) → l.Exact →
      measure (estimates text) = .ok x := by
  obtain ⟨q, hwithin, hexact, hnumber⟩ := Literal.converted h.digits hlength
  have hnearest : Binary64.nearest l.negative (l.sign * q) = Binary64.nearest l.negative q :=
    nearest_congr (l.abs_sign_mul q)
  rw [← hnearest] at hnumber
  have hmeasure := measure_estimates_of_converted h hnumber fun hzero => by
    rw [hzero] at hwithin
    rw [hwithin.eq_zero, mul_zero]
  have hvalue (hl : l.Exact) : l.sign * q = l.value := by rw [hexact hl, ← l.value_eq]
  refine ⟨⟨l.sign * q, ?_, hvalue, hmeasure⟩, ?_⟩
  · have hdiff : l.sign * q - l.value = l.sign * (q - |l.value|) := by
      conv_lhs => rw [l.value_eq]
      rw [mul_sub]
    rw [hdiff, l.abs_sign_mul]
    exact hwithin.abs_sub_le
  · rintro x hfinite hnonneg rfl hl
    obtain rfl := nearest_of_amountText h hfinite
    rw [hmeasure, ← and_assoc, isNearest_iff, hvalue hl]
    exact ⟨⟨rfl, hfinite⟩, value_nonneg_or_isZero hnonneg⟩

/-- At the mean 123456.789, which is exact. -/
theorem measure_literal_thousandths :
    ∃ (l : Literal) (x : Binary64), l.Spelled (Utf8.encode "123456.789") [] ∧
      l.whole.length + l.fraction.length + 1000 ≤ maxExponent ∧ l.Exact ∧ x.IsFinite ∧ 0 ≤ x.value ∧
      Utf8.encode "123456.789" = Utf8.encode (amountText x) ∧
      (∃ q : ℚ, |q - l.value| ≤ |l.value| / 2 ^ 50 ∧ (l.Exact → q = l.value) ∧
        ∀ x, measure (estimates (Utf8.encode "123456.789")) = .ok x ↔
          x.negative = l.negative ∧ x.IsNearest q ∧ (0 ≤ l.value ∨ x.IsZero)) ∧
      measure (estimates (Utf8.encode "123456.789")) = .ok x := by
  have hspelled : Literal.Spelled ⟨false, Utf8.encode "123456", Utf8.encode "789", none⟩
      (Utf8.encode "123456.789") [] :=
    spelled_of_scanLiteral
      (show scanLiteral .endInValue (Utf8.encode "123456.789") = .ok (_, []) by decide +kernel)
  have hexact : Literal.Exact ⟨false, Utf8.encode "123456", Utf8.encode "789", none⟩ := by
    decide +kernel
  have hfinite : (Binary64.ofBits 0x40fe240c9fbe76c9).IsFinite := by decide +kernel
  have hnonneg : 0 ≤ (Binary64.ofBits 0x40fe240c9fbe76c9).value :=
    value_nonneg.mpr (by decide +kernel)
  have htext : Utf8.encode "123456.789" =
      Utf8.encode (amountText (.ofBits 0x40fe240c9fbe76c9)) := by decide +kernel
  obtain ⟨hclose, hshortest⟩ := measure_literal hspelled (by decide +kernel)
  exact ⟨_, _, hspelled, by decide +kernel, hexact, hfinite, hnonneg, htext, hclose,
    hshortest _ hfinite hnonneg htext hexact⟩

/-- The shortest decimal of a number need not read as that number, though none is nearer; a number
below zero may be taken as a zero; and a one is refused when it has so many digits that the exponent
that makes up for them is not read. -/
theorem measure_not_nearest :
    (∃ (l : Literal) (x : Binary64), l.Spelled (Utf8.encode "3e+23") [] ∧ 0 ≤ l.value ∧
      x.negative = l.negative ∧ x.IsNearest l.value ∧
      Utf8.encode "3e+23" = Utf8.encode (amountText x) ∧
      measure (estimates (Utf8.encode "3e+23")) ≠ .ok x) ∧
    (∃ (l : Literal) (x : Binary64), l.Spelled (Utf8.encode "-1e-400") [] ∧ l.value < 0 ∧
      measure (estimates (Utf8.encode "-1e-400")) = .ok x) ∧
    ∃ (l : Literal) (text : Bytes), l.Spelled text [] ∧ l.value = 1 ∧
      l.fraction.length = maxExponent + 1 ∧ ∀ x, measure (estimates text) ≠ .ok x := by
  refine ⟨?_, ?_, ?_⟩
  · have hfinite : (Binary64.ofBits 0x44cfc3842bd1f072).IsFinite := by decide +kernel
    have htext : Utf8.encode "3e+23" = Utf8.encode (amountText (.ofBits 0x44cfc3842bd1f072)) := by
      decide +kernel
    obtain ⟨l, hspelled, hnearest⟩ := exists_literal_amountText hfinite
    have hspelled' := hspelled []
    rw [List.append_nil, ← htext] at hspelled'
    obtain ⟨hsign, hclosest⟩ := isNearest_iff.mpr ⟨hnearest.symm, hfinite⟩
    exact ⟨l, _, hspelled', l.value_nonneg_iff.mpr (.inl hsign.symm), hsign, hclosest, htext,
      by decide +kernel⟩
  · refine ⟨⟨true, Utf8.encode "1", [], some (true, Utf8.encode "400")⟩, zero true, ?_, ?_, ?_⟩
    · exact spelled_of_scanLiteral
        (show scanLiteral .endInValue (Utf8.encode "-1e-400") = .ok (_, []) by decide +kernel)
    · rw [Literal.value_eq, Literal.abs_value, Literal.sign, if_pos rfl, neg_one_mul, neg_lt_zero]
      exact mul_pos (Nat.cast_pos.mpr (by decide +kernel)) (by positivity)
    · decide +kernel
  · have hdigits : Digits (Utf8.encode "2147483648") (Utf8.encode "2147483648") [] :=
      digits_of_scanDigits
        (show scanDigits .endInValue (Utf8.encode "2147483648") = .ok (_, []) by decide +kernel)
    have hnumeral : numeral (Utf8.encode "2147483648") = maxExponent + 1 := by decide +kernel
    have hread : readExponent 0 (Utf8.encode "2147483648") = .inr [] := by decide +kernel
    have hspelled := Literal.spelled_shiftedOne maxExponent hdigits
    refine ⟨_, _, hspelled, Literal.value_shiftedOne hnumeral, ?_, ?_⟩
    · rw [Literal.shiftedOne, List.length_append, List.length_replicate, List.length_singleton]
    · intro x hx
      rw [measure_estimates_iff hspelled, Literal.toNumber?_shiftedOne _ hread] at hx
      exact Option.some_ne_none x hx.1.symm

end RegressionGate.Estimate
