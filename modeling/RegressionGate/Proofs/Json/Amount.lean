import RegressionGate.Json.Amount
import RegressionGate.Proofs.Decimal.Digits
import RegressionGate.Proofs.Decimal.Shortest
import RegressionGate.Proofs.Json.Literal
import RegressionGate.Proofs.Text.Utf8

/-! The text of an amount: it is a number literal, and the amount is the number nearest to what it
denotes. -/

namespace RegressionGate.Json

open Decimal Utf8

/-! ### Digits -/

theorem toNat_of_isDigit {c : Char} (h : c.isDigit) : 48 ≤ c.toNat ∧ c.toNat ≤ 57 := by
  rw [Char.isDigit, Bool.and_eq_true, decide_eq_true_eq, decide_eq_true_eq] at h
  exact ⟨UInt32.le_iff_toNat_le.mp h.1, UInt32.le_iff_toNat_le.mp h.2⟩

theorem encodeChar_of_isDigit {c : Char} (h : c.isDigit) :
    String.utf8EncodeChar c = [UInt8.ofNat c.toNat] := by
  have hc := toNat_of_isDigit h
  have hle : c.val.toNat ≤ 127 := by
    have : c.val.toNat = c.toNat := rfl
    omega
  simp only [String.utf8EncodeChar, if_pos hle]
  rfl

variable {cs : List Char}

theorem encodeChars_of_allDigits (h : AllDigits cs) :
    encodeChars cs = cs.map fun c => UInt8.ofNat c.toNat := by
  induction cs with
  | nil => rfl
  | cons c cs ih =>
    obtain ⟨hc, hcs⟩ := List.forall_mem_cons.mp h
    rw [encodeChars_cons, encodeChar_of_isDigit hc, ih hcs]
    rfl

theorem toNat_ofNat_of_isDigit {c : Char} (h : c.isDigit) :
    (UInt8.ofNat c.toNat).toNat = c.toNat := by
  have hc := toNat_of_isDigit h
  rw [UInt8.toNat_ofNat', Nat.mod_eq_of_lt (by omega)]

theorem isDigit_encodeChars (h : AllDigits cs) : ∀ b ∈ encodeChars cs, isDigit b := by
  rw [encodeChars_of_allDigits h]
  intro b hb
  obtain ⟨c, hc, rfl⟩ := List.mem_map.mp hb
  have hdigit := toNat_of_isDigit (h c hc)
  simp only [isDigit, Bool.and_eq_true, decide_eq_true_eq, UInt8.le_iff_toNat_le,
    toNat_ofNat_of_isDigit (h c hc), UInt8.reduceToNat]
  exact hdigit

theorem length_encodeChars (h : AllDigits cs) : (encodeChars cs).length = cs.length := by
  rw [encodeChars_of_allDigits h, List.length_map]

theorem numeral_encodeChars (h : AllDigits cs) :
    numeral (encodeChars cs) = Nat.ofDigitChars 10 cs 0 := by
  rw [encodeChars_of_allDigits h, numeral, Nat.ofDigitChars_eq_foldl, List.foldl_map]
  generalize 0 = n
  induction cs generalizing n with
  | nil => rfl
  | cons c cs ih =>
    obtain ⟨hc, hcs⟩ := List.forall_mem_cons.mp h
    have hstep : n * 10 + digitValue (UInt8.ofNat c.toNat) = 10 * n + (c.toNat - '0'.toNat) := by
      rw [digitValue, toNat_ofNat_of_isDigit hc, Nat.mul_comm]
      rfl
    rw [List.foldl_cons, List.foldl_cons, hstep, ih hcs]

theorem numeral_digitsOf (n : Nat) : numeral (encodeChars (digitsOf n)) = n := by
  rw [numeral_encodeChars (allDigits_digitsOf n), ofDigitChars_digitsOf]

theorem digits_encodeChars (h : AllDigits cs) (hne : cs ≠ []) (r : Bytes) :
    Digits (encodeChars cs) (encodeChars cs ++ r) r where
  split := rfl
  some := by rwa [encodeChars_of_allDigits h, ne_eq, List.map_eq_nil_iff]
  digit := isDigit_encodeChars h

theorem whole_encodeChars (h : AllDigits cs) (hne : cs ≠ []) (hzero : cs.head? ≠ some '0')
    (r : Bytes) : Whole (encodeChars cs) (encodeChars cs ++ r) r := by
  refine .positive (digits_encodeChars h hne r) ?_
  cases cs with
  | nil => contradiction
  | cons c cs =>
    obtain ⟨hc, hcs⟩ := List.forall_mem_cons.mp h
    rw [encodeChars_of_allDigits h, List.map_cons, List.head?_cons]
    intro heq
    apply hzero
    have hbyte := congrArg UInt8.toNat (Option.some.inj heq)
    rw [toNat_ofNat_of_isDigit hc] at hbyte
    rw [List.head?_cons, Option.some.injEq]
    exact Char.toNat_inj.mp hbyte

/-! ### Layouts -/

/-- Characters that spell a literal, but for its sign, and the number that it denotes without
it. -/
def Denotes (negative : Bool) (cs : List Char) (q : ℚ) : Prop :=
  ∃ l : Literal, l.negative = negative ∧ |l.value| = q ∧
    ∀ r, ∃ b c, Whole l.whole (encodeChars cs ++ r) b ∧ Fraction l.fraction b c ∧
      Exponent l.exponent c r

variable (negative : Bool) {fs : List Char}

/-- Digits, a point and digits. -/
theorem denotes_point (hcs : AllDigits cs)
    (hwhole : ∀ r, Whole (encodeChars cs) (encodeChars cs ++ r) r) (hfs : AllDigits fs)
    (hne : fs ≠ []) :
    Denotes negative (cs ++ '.' :: fs) (Nat.ofDigitChars 10 (cs ++ fs) 0 / 10 ^ fs.length) := by
  refine ⟨⟨negative, encodeChars cs, encodeChars fs, none⟩, rfl, ?_, fun r => ?_⟩
  · rw [Literal.abs_value, Literal.writtenExponent, ← encodeChars_append,
      numeral_encodeChars (hcs.append hfs), length_encodeChars hfs, zero_sub, zpow_neg,
      zpow_natCast, ← div_eq_mul_inv]
  · have hpoint : encodeChars (cs ++ '.' :: fs) ++ r =
        encodeChars cs ++ 0x2e :: (encodeChars fs ++ r) := by
      rw [encodeChars_append, List.append_assoc]
      rfl
    rw [hpoint]
    exact ⟨_, r, hwhole _, .present (digits_encodeChars hfs hne r), .absent⟩

theorem exponent_exponentText (e : Int) (r : Bytes) :
    Exponent (some (decide (e < 0), encodeChars (digitsOf e.natAbs)))
      (encodeChars ('e' :: exponentText e) ++ r) r := by
  have hdigits := digits_encodeChars (allDigits_digitsOf e.natAbs) (digitsOf_ne_nil _) r
  by_cases he : 0 ≤ e
  · rw [exponentText, if_pos he, decide_eq_false (by omega)]
    exact .present (.inl rfl) .plus hdigits
  · rw [exponentText, if_neg he, decide_eq_true (by omega)]
    exact .present (.inl rfl) (.minus .present) hdigits

/-- A digit, a point and further digits if there are any, and an exponent. -/
theorem denotes_exponent {d : Char} (hd : d.isDigit) (hzero : d ≠ '0') (hfs : AllDigits fs)
    (e : Int) :
    Denotes negative (d :: (if fs = [] then [] else '.' :: fs) ++ 'e' :: exponentText e)
      (Nat.ofDigitChars 10 (d :: fs) 0 * 10 ^ (e - fs.length)) := by
  have hd' : AllDigits [d] := List.forall_mem_singleton.mpr hd
  refine ⟨⟨negative, encodeChars [d], encodeChars fs,
    some (decide (e < 0), encodeChars (digitsOf e.natAbs))⟩, rfl, ?_, fun r => ?_⟩
  · have hexponent : Literal.writtenExponent ⟨negative, encodeChars [d], encodeChars fs,
        some (decide (e < 0), encodeChars (digitsOf e.natAbs))⟩ = e := by
      simp only [Literal.writtenExponent, numeral_digitsOf, decide_eq_true_eq]
      split <;> omega
    rw [Literal.abs_value, hexponent, ← encodeChars_append, numeral_encodeChars (hd'.append hfs),
      length_encodeChars hfs]
    rfl
  · have hwhole := whole_encodeChars hd' (by simp) (by simpa using hzero)
    have hsplit (cs : List Char) : encodeChars (d :: cs ++ 'e' :: exponentText e) ++ r =
        encodeChars [d] ++ (encodeChars cs ++ (encodeChars ('e' :: exponentText e) ++ r)) := by
      rw [← List.append_assoc, ← List.append_assoc, ← encodeChars_append, ← encodeChars_append]
      rfl
    rw [hsplit]
    split
    · rename_i hnil
      subst hnil
      exact ⟨_, _, hwhole _, .absent, exponent_exponentText e r⟩
    · rename_i hne
      exact ⟨_, _, hwhole _, .present (digits_encodeChars hfs hne _), exponent_exponentText e r⟩

/-- Digits divided by a point, of which the first is zero only when it stands alone. -/
theorem denotes_split {places : Nat} (hcs : AllDigits cs) (hplaces : places ≠ 0)
    (hlength : places < cs.length)
    (hhead : cs.head? ≠ some '0' ∨ cs.length = places + 1 ∧ cs.head? = some '0') :
    Denotes negative (cs.take (cs.length - places) ++ '.' :: cs.drop (cs.length - places))
      (Nat.ofDigitChars 10 cs 0 / 10 ^ places) := by
  have htake : AllDigits (cs.take (cs.length - places)) :=
    fun c hc => hcs c (List.mem_of_mem_take hc)
  have hdrop : AllDigits (cs.drop (cs.length - places)) :=
    fun c hc => hcs c (List.mem_of_mem_drop hc)
  have hwhole (r : Bytes) : Whole (encodeChars (cs.take (cs.length - places)))
      (encodeChars (cs.take (cs.length - places)) ++ r) r := by
    rcases hhead with hhead | ⟨hone, hhead⟩
    · refine whole_encodeChars htake ?_ ?_ r
      · rw [← List.length_pos_iff, List.length_take]
        omega
      · rwa [List.head?_take, if_neg (by omega)]
    · obtain ⟨cs', rfl⟩ : ∃ cs', cs = '0' :: cs' := List.head?_eq_some_iff.mp hhead
      rw [hone, Nat.add_sub_cancel_left]
      exact .zero
  have hpoint := denotes_point negative htake hwhole hdrop (by
    rw [← List.length_pos_iff, List.length_drop]
    omega)
  rwa [List.take_append_drop, List.length_drop, Nat.sub_sub_self (Nat.le_of_lt hlength)] at hpoint

theorem denotes_pointed {n places : Nat} (hn : n ≠ 0) (hplaces : places ≠ 0) :
    Denotes negative (pointed n places) (n / 10 ^ places) := by
  have hlength := length_padded n places
  have hhead : (padded n places).head? ≠ some '0' ∨
      (padded n places).length = places + 1 ∧ (padded n places).head? = some '0' := by
    rcases Nat.lt_or_ge places (digitsOf n).length with hlt | hge
    · left
      rw [padded, Nat.sub_eq_zero_of_le hlt]
      exact head?_digitsOf hn
    · right
      refine ⟨by omega, ?_⟩
      obtain ⟨k, hk⟩ : ∃ k, places + 1 - (digitsOf n).length = k + 1 :=
        ⟨places - (digitsOf n).length, by omega⟩
      rw [padded, hk]
      rfl
  have hsplit := denotes_split negative (allDigits_padded n places) hplaces
    (lt_length_padded n places) hhead
  rw [ofDigitChars_padded] at hsplit
  rwa [pointed_eq, if_neg hplaces]

/-- The text of a decimal denotes it. -/
theorem denotes_layout (x : Scientific) : Denotes negative (layout x) x.value := by
  have hdigits := allDigits_digitsOf x.digits
  have hvalue := ofDigitChars_digitsOf x.digits
  rw [layout, Scientific.value]
  split
  · rename_i hzero
    have htext : Denotes negative ['0', '.', '0'] _ :=
      denotes_point negative (allDigits_zeros 1) (fun r => .zero) (allDigits_zeros 1) (by simp)
    rw [hzero, Nat.cast_zero, zero_mul]
    simpa [zeros, Nat.ofDigitChars] using htext
  rename_i hne
  have hhead := head?_digitsOf hne
  split
  · rename_i hplain
    have hall := hdigits.append (allDigits_zeros x.exponent.toNat)
    have hhead' : (digitsOf x.digits ++ zeros x.exponent.toNat).head? ≠ some '0' := by
      rwa [List.head?_append_of_ne_nil _ (digitsOf_ne_nil _)]
    have htext := denotes_point negative hall
      (whole_encodeChars hall (by simp [digitsOf_ne_nil]) hhead') (allDigits_zeros 1)
      (by simp [zeros])
    have hscale : (x.digits * 10 ^ x.exponent : ℚ) =
        (10 ^ 1 * (10 ^ x.exponent.toNat * x.digits) : Nat) / 10 ^ 1 := by
      conv_lhs => rw [← Int.toNat_of_nonneg hplain.1, zpow_natCast]
      push_cast
      ring
    rw [hscale]
    rw [Nat.ofDigitChars_append, Nat.ofDigitChars_append, hvalue, zeros, zeros,
      Nat.ofDigitChars_replicate_zero, Nat.ofDigitChars_replicate_zero] at htext
    exact htext
  split
  · rename_i hpoint
    have hscale : (x.digits * 10 ^ x.exponent : ℚ) = x.digits / 10 ^ (-x.exponent).toNat := by
      rw [div_eq_mul_inv, ← zpow_natCast, ← zpow_neg, Int.toNat_of_nonneg (by omega), neg_neg]
    rw [hscale]
    exact denotes_pointed negative hne (by omega)
  · cases hds : digitsOf x.digits with
    | nil => exact absurd hds (digitsOf_ne_nil _)
    | cons d fs =>
      rw [hds] at hdigits hvalue hhead
      obtain ⟨hd, hfs⟩ := List.forall_mem_cons.mp hdigits
      have htext := denotes_exponent negative hd (by simpa using hhead) hfs
        ((d :: fs).length + x.exponent - 1)
      have hexponent : ((d :: fs).length + x.exponent - 1 : Int) - fs.length = x.exponent := by
        rw [List.length_cons]
        omega
      rw [hvalue, hexponent] at htext
      cases fs with
      | nil => exact htext
      | cons f fs => exact htext

/-- The text of a finite amount is a literal to which the amount is the nearest number. -/
theorem exists_literal_amountText {x : Binary64} (h : x.IsFinite) :
    ∃ l : Literal, (∀ r, l.Spelled (Utf8.encode (amountText x) ++ r) r) ∧ l.nearest = x := by
  obtain ⟨l, hsign, hvalue, hspelled⟩ :=
    denotes_layout x.negative (shortest .toEven x.magnitude)
  refine ⟨l, fun r => ?_, ?_⟩
  · rw [amountText, if_pos h, encode_ofList, encodeChars_append, List.append_assoc]
    obtain ⟨b, c, hwhole, hfraction, hexponent⟩ := hspelled r
    refine .parts ?_ hwhole hfraction hexponent
    rw [hsign, Binary64.sign]
    cases x.negative with
    | false => exact .absent
    | true => exact .present
  · have hvalue' : |l.value| = |(shortest .toEven x.magnitude).value| := by
      rw [hvalue, abs_of_nonneg (Scientific.value_nonneg _)]
    rw [Literal.nearest, Binary64.nearest_congr hvalue', hsign]
    exact nearest_shortest .toEven h

end RegressionGate.Json
