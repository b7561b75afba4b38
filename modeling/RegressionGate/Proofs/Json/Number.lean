import RegressionGate.Proofs.Json.Grammar

/-! Scanning number literals: the scanner finds a literal where there is one and takes it as far as
it goes, so what follows a literal must not go on with it. -/

namespace RegressionGate.Json

/-- Whether a byte could go on with a number. -/
def continuesNumber (b : UInt8) : Bool := isDigit b || b = 0x2e || b = 0x65 || b = 0x45

/-- Whether bytes do not go on with a digit. -/
def NoDigit (s : Bytes) : Prop := ∀ b ∈ s.head?, isDigit b = false

/-- Whether bytes do not go on with a number. -/
def Stops (s : Bytes) : Prop := ∀ b ∈ s.head?, continuesNumber b = false

theorem stops_nil : Stops [] := by
  intro b hb
  contradiction

theorem stops_cons {b : UInt8} (s : Bytes) (h : continuesNumber b = false) : Stops (b :: s) := by
  intro c hc
  obtain rfl := Option.mem_some.mp hc
  exact h

theorem noDigit_cons {b : UInt8} (s : Bytes) (h : isDigit b = false) : NoDigit (b :: s) := by
  intro c hc
  obtain rfl := Option.mem_some.mp hc
  exact h

theorem Stops.noDigit {s : Bytes} (h : Stops s) : NoDigit s := by
  intro b hb
  have hb := h b hb
  simp only [continuesNumber, Bool.or_eq_false_iff] at hb
  exact hb.1.1.1

/-! ### Runs of digits -/

variable {atEnd : Cause} {ds s r : Bytes}

theorem Digits.scanDigits (atEnd : Cause) (h : Digits ds s r) (hr : NoDigit r) :
    scanDigits atEnd s = .ok (ds, r) := by
  obtain ⟨rfl, hsome, hdigit⟩ := h
  have htake : (ds ++ r).takeWhile isDigit = ds := by
    rw [List.takeWhile_append_of_pos hdigit]
    cases r with
    | nil => simp
    | cons b r => simp [hr b rfl]
  have hdrop : (ds ++ r).dropWhile isDigit = r := by
    rw [List.dropWhile_append_of_pos hdigit]
    cases r with
    | nil => rfl
    | cons b r => simp [hr b rfl]
  rw [Json.scanDigits, htake, hdrop]
  split
  · contradiction
  · rfl

theorem digits_of_scanDigits (h : scanDigits atEnd s = .ok (ds, r)) : Digits ds s r := by
  rw [scanDigits] at h
  split at h
  · contradiction
  · rename_i hsome
    cases h
    refine ⟨List.takeWhile_append_dropWhile.symm, hsome, fun d hd => ?_⟩
    exact List.all_eq_true.mp List.all_takeWhile d hd

theorem Digits.exists_cons (h : Digits ds s r) :
    ∃ d ds' s', ds = d :: ds' ∧ s = d :: s' ∧ isDigit d := by
  obtain ⟨rfl, hsome, hdigit⟩ := h
  cases ds with
  | nil => contradiction
  | cons d ds => exact ⟨d, ds, ds ++ r, rfl, rfl, hdigit d List.mem_cons_self⟩

/-! ### The parts of a literal -/

theorem Whole.scanWhole (atEnd : Cause) (h : Whole ds s r) (hr : NoDigit r) :
    scanWhole atEnd s = .ok (ds, r) := by
  cases h with
  | zero =>
    cases r with
    | nil => rfl
    | cons b r => simp [Json.scanWhole, hr b rfl]
  | positive h first =>
    obtain ⟨d, ds', s', rfl, rfl, -⟩ := h.exists_cons
    rw [← h.scanDigits atEnd hr, Json.scanWhole.eq_2]
    rintro r' ⟨⟩
    exact first rfl

theorem whole_of_scanWhole (h : scanWhole atEnd s = .ok (ds, r)) : Whole ds s r := by
  rw [scanWhole.eq_def] at h
  split at h
  · split at h
    · contradiction
    · cases h
      exact .zero
  · rename_i hzero
    have hdigits := digits_of_scanDigits h
    obtain ⟨d, ds', s', rfl, rfl, -⟩ := hdigits.exists_cons
    refine .positive hdigits fun hd => hzero s' ?_
    rw [Option.some.inj hd]

theorem Fraction.scanFraction (atEnd : Cause) (h : Fraction ds s r) (hr : NoDigit r)
    (hpoint : ∀ t, r ≠ 0x2e :: t) : scanFraction atEnd s = .ok (ds, r) := by
  cases h with
  | present h => exact h.scanDigits atEnd hr
  | absent => exact Json.scanFraction.eq_2 _ _ hpoint

theorem fraction_of_scanFraction (h : scanFraction atEnd s = .ok (ds, r)) : Fraction ds s r := by
  rw [scanFraction.eq_def] at h
  split at h
  · exact .present (digits_of_scanDigits h)
  · cases h
    exact .absent

theorem ne_of_isDigit {b c : UInt8} (hb : isDigit b) (hc : isDigit c = false) : b ≠ c := by
  rintro rfl
  rw [hb] at hc
  contradiction

theorem Exponent.scanExponent {e : Option (Bool × Bytes)} (atEnd : Cause) (h : Exponent e s r)
    (hr : Stops r) :
    scanExponent atEnd s = .ok (e, r) := by
  cases h with
  | @present letter negative ds s a r hletter sign h =>
    obtain ⟨d, ds', a', hds, rfl, hd⟩ := h.exists_cons
    have hminus := ne_of_isDigit (c := 0x2d) hd (by decide)
    have hplus := ne_of_isDigit (c := 0x2b) hd (by decide)
    have hscan := h.scanDigits atEnd hr.noDigit
    cases sign with
    | plus => simp [Json.scanExponent, hletter, hscan, bind, Except.bind]
    | minus sign =>
      cases sign with
      | present => simp [Json.scanExponent, hletter, hscan, bind, Except.bind]
      | absent => simp [Json.scanExponent, hletter, hscan, hminus, hplus, bind, Except.bind]
  | absent =>
    cases s with
    | nil => rfl
    | cons b r =>
      have hb := hr b rfl
      have hletter : ¬(b = 0x65 ∨ b = 0x45) := by
        rintro (rfl | rfl) <;> exact absurd hb (by decide)
      simp [Json.scanExponent, hletter]

theorem exponent_of_scanExponent {e : Option (Bool × Bytes)}
    (h : scanExponent atEnd s = .ok (e, r)) : Exponent e s r := by
  rw [scanExponent.eq_def] at h
  split at h
  · rename_i letter s
    split at h
    · rename_i hletter
      simp only [bind, Except.bind] at h
      split at h
      · contradiction
      · rename_i ds hds
        cases h
        have hdigits := digits_of_scanDigits hds
        refine .present hletter ?_ hdigits
        split
        · exact .minus .present
        · exact .plus
        · exact .minus .absent
    · cases h
      exact .absent
  · cases h
    exact .absent

/-! ### Literals -/

theorem Exponent.noDigit {e : Option (Bool × Bytes)} (h : Exponent e s r) (hr : Stops r) :
    NoDigit s := by
  cases h with
  | present letter =>
    apply noDigit_cons
    rcases letter with rfl | rfl <;> decide
  | absent => exact hr.noDigit

theorem Exponent.ne_point {e : Option (Bool × Bytes)} (h : Exponent e s r) (hr : Stops r)
    (t : Bytes) : s ≠ 0x2e :: t := by
  rintro rfl
  cases h with
  | present letter => rcases letter with h | h <;> exact absurd h (by decide)
  | absent => exact absurd (hr _ rfl) (by decide)

theorem Fraction.noDigit (h : Fraction ds s r) (hr : NoDigit r) : NoDigit s := by
  cases h with
  | present => exact noDigit_cons _ (by decide)
  | absent => exact hr

theorem Whole.exists_cons (h : Whole ds s r) : ∃ d s', s = d :: s' ∧ isDigit d := by
  cases h with
  | zero => exact ⟨_, _, rfl, by decide⟩
  | positive h =>
    obtain ⟨d, -, s', -, rfl, hd⟩ := h.exists_cons
    exact ⟨d, s', rfl, hd⟩

theorem Literal.Spelled.scanLiteral {l : Literal} (h : l.Spelled s r) (hr : Stops r) :
    scanLiteral atEnd s = .ok (l, r) := by
  obtain ⟨sign, whole, fraction, exponent⟩ := h
  have hexponent := exponent.scanExponent atEnd hr
  have hfraction := fraction.scanFraction atEnd (exponent.noDigit hr)
    (exponent.ne_point hr)
  have hwhole := whole.scanWhole atEnd (fraction.noDigit (exponent.noDigit hr))
  obtain ⟨negative, ds, fs, e⟩ := l
  cases sign with
  | present => simp [Json.scanLiteral, hwhole, hfraction, hexponent, bind, Except.bind]
  | absent =>
    obtain ⟨d, s', rfl, hd⟩ := whole.exists_cons
    have hminus := ne_of_isDigit (c := 0x2d) hd (by decide)
    simp [Json.scanLiteral, hminus, hwhole, hfraction, hexponent, bind, Except.bind]

theorem spelled_of_scanLiteral {l : Literal} (h : scanLiteral atEnd s = .ok (l, r)) :
    l.Spelled s r := by
  rw [scanLiteral.eq_def] at h
  simp only [bind, Except.bind] at h
  split at h
  · contradiction
  · rename_i w hwhole
    split at h
    · contradiction
    · rename_i f hfraction
      split at h
      · contradiction
      · rename_i e hexponent
        cases h
        refine .parts ?_ (whole_of_scanWhole hwhole) (fraction_of_scanFraction hfraction)
          (exponent_of_scanExponent hexponent)
        split
        · exact .present
        · exact .absent

/-- A literal begins with a minus or a digit. -/
theorem Literal.Spelled.exists_cons {l : Literal} (h : l.Spelled s r) :
    ∃ c s', s = c :: s' ∧ (c = 0x2d ∨ isDigit c) := by
  obtain ⟨negative, ds, fs, e⟩ := l
  obtain ⟨sign, whole, -, -⟩ := h
  cases sign with
  | present => exact ⟨_, _, rfl, .inl rfl⟩
  | absent =>
    obtain ⟨d, s', rfl, hd⟩ := whole.exists_cons
    exact ⟨d, s', rfl, .inr hd⟩

/-- A literal is one literal only: it goes as far as it can. -/
theorem Literal.Spelled.unique {l l' : Literal} {r' : Bytes} (h : l.Spelled s r)
    (h' : l'.Spelled s r') (hr : Stops r) (hr' : Stops r') : l' = l ∧ r' = r := by
  have hscan : Json.scanLiteral .endInValue s = .ok (l, r) := h.scanLiteral hr
  rw [h'.scanLiteral hr'] at hscan
  exact Prod.mk.inj (Except.ok.inj hscan)

/-! ### What follows -/

variable (t : Bytes)

theorem Digits.append (h : Digits ds s r) : Digits ds (s ++ t) (r ++ t) :=
  ⟨by rw [h.split, List.append_assoc], h.some, h.digit⟩

theorem Minus.append {negative : Bool} (h : Minus negative s r) :
    Minus negative (s ++ t) (r ++ t) := by
  cases h with
  | present => exact .present
  | absent => exact .absent

theorem Whole.append (h : Whole ds s r) : Whole ds (s ++ t) (r ++ t) := by
  cases h with
  | zero => exact .zero
  | positive h first => exact .positive (h.append t) first

theorem Fraction.append (h : Fraction ds s r) : Fraction ds (s ++ t) (r ++ t) := by
  cases h with
  | present h => exact .present (h.append t)
  | absent => exact .absent

theorem Exponent.append {e : Option (Bool × Bytes)} (h : Exponent e s r) :
    Exponent e (s ++ t) (r ++ t) := by
  cases h with
  | present letter sign h =>
    refine .present letter ?_ (h.append t)
    cases sign with
    | plus => exact .plus
    | minus sign => exact .minus (sign.append t)
  | absent => exact .absent

/-- A literal is spelled whatever follows. -/
theorem Literal.Spelled.append {l : Literal} (h : l.Spelled s r) : l.Spelled (s ++ t) (r ++ t) := by
  obtain ⟨sign, whole, fraction, exponent⟩ := h
  exact .parts (sign.append t) (whole.append t) (fraction.append t) (exponent.append t)

/-! ### Lengths -/

theorem Minus.length_le {negative : Bool} (h : Minus negative s r) : r.length ≤ s.length := by
  cases h <;> simp

theorem Digits.length_le (h : Digits ds s r) : r.length ≤ s.length := by
  rw [h.split, List.length_append]
  exact Nat.le_add_left _ _

theorem Whole.length_lt (h : Whole ds s r) : r.length < s.length := by
  cases h with
  | zero => simp
  | positive h =>
    have hpos := List.length_pos_iff.mpr h.some
    rw [h.split, List.length_append]
    omega

theorem Fraction.length_le (h : Fraction ds s r) : r.length ≤ s.length := by
  cases h with
  | present h => exact Nat.le_succ_of_le h.length_le
  | absent => exact Nat.le_refl _

theorem Exponent.length_le {e : Option (Bool × Bytes)} (h : Exponent e s r) :
    r.length ≤ s.length := by
  cases h with
  | present letter sign h =>
    have hdigits := h.length_le
    cases sign with
    | plus => simp; omega
    | minus sign =>
      have hsign := sign.length_le
      rw [List.length_cons]
      omega
  | absent => exact Nat.le_refl _

theorem Literal.Spelled.length_lt {l : Literal} (h : l.Spelled s r) : r.length < s.length := by
  obtain ⟨sign, whole, fraction, exponent⟩ := h
  have := sign.length_le
  have := whole.length_lt
  have := fraction.length_le
  have := exponent.length_le
  omega

end RegressionGate.Json
