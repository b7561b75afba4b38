import RegressionGate.Json.Number
import RegressionGate.Proofs.Binary64.Within
import RegressionGate.Proofs.Json.Literal

/-! The digits of a literal that are kept: all of them when they fit in 64 bits, and otherwise so
many that the rest weighs less than a rounding. -/

namespace RegressionGate.Json

open Binary64

variable {n : Nat} {ds ks r r' : Bytes}

/-! ### Numerals -/

theorem digitValue_lt {d : UInt8} (h : isDigit d) : digitValue d < 10 := by
  simp only [isDigit, Bool.and_eq_true, decide_eq_true_eq, UInt8.le_iff_toNat_le,
    UInt8.reduceToNat] at h
  rw [digitValue]
  omega

theorem numeral_lt (h : ∀ d ∈ ds, isDigit d) : numeral ds < 10 ^ ds.length := by
  induction ds with
  | nil => decide
  | cons d ds ih =>
    obtain ⟨hd, hds⟩ := List.forall_mem_cons.mp h
    have hlt := ih hds
    have hle := Nat.mul_le_mul_right (10 ^ ds.length) (Nat.succ_le_of_lt (digitValue_lt hd))
    rw [Nat.succ_mul] at hle
    rw [numeral_cons, List.length_cons, Nat.pow_succ, Nat.mul_comm (10 ^ ds.length)]
    omega

theorem numeral_le_append (ks r : Bytes) : numeral ks ≤ numeral (ks ++ r) := by
  rw [numeral_append]
  exact Nat.le_add_right_of_le (Nat.le_mul_of_pos_right _ (Nat.pow_pos (by decide)))

/-- Digits behind others add less than one in the last place of those. -/
theorem numeral_append_mem (ks : Bytes) (hr : ∀ d ∈ r, isDigit d) {e e' : Int}
    (he : r.length + e = e') :
    (numeral ks * 10 ^ e' : ℚ) ≤ numeral (ks ++ r) * 10 ^ e ∧
      (numeral (ks ++ r) * 10 ^ e : ℚ) ≤ (numeral ks + 1) * 10 ^ e' := by
  have hsplit : (10 : ℚ) ^ e' = 10 ^ r.length * 10 ^ e := by
    rw [← he, zpow_add₀ (by norm_num), zpow_natCast]
  have hpos : (0 : ℚ) ≤ 10 ^ e := by positivity
  rw [hsplit, numeral_append, ← mul_assoc, ← mul_assoc]
  constructor
  · refine mul_le_mul_of_nonneg_right ?_ hpos
    push_cast
    exact le_add_of_nonneg_right (Nat.cast_nonneg _)
  · refine mul_le_mul_of_nonneg_right ?_ hpos
    have hlt := numeral_lt hr
    rw [add_mul, one_mul]
    push_cast
    exact add_le_add_right (by exact_mod_cast hlt.le) _

/-- Behind enough digits the further ones hardly weigh. -/
theorem within_numeral (hks : 2 ^ 60 ≤ numeral ks) (hr : ∀ d ∈ r, isDigit d)
    (hr' : ∀ d ∈ r', isDigit d) {e e' : Int} (he : r.length + e = r'.length + e') :
    Within 1 (numeral (ks ++ r) * 10 ^ e) (numeral (ks ++ r') * 10 ^ e') := by
  obtain ⟨hlow, hhigh⟩ := numeral_append_mem ks hr he
  obtain ⟨hlow', hhigh'⟩ := numeral_append_mem ks hr' rfl
  have hpos : (0 : ℚ) ≤ 10 ^ (r'.length + e') := by positivity
  have hweight : (2 ^ 60 * 10 ^ (r'.length + e') : ℚ) ≤ numeral (ks ++ r') * 10 ^ e' :=
    (mul_le_mul_of_nonneg_right (by exact_mod_cast hks) hpos).trans hlow'
  refine .of_abs_sub_le (1 / 2 ^ 60) (by positivity) (by positivity) ?_
    (by norm_num [roundingFactor]) (by norm_num [roundingFactor])
  generalize (10 : ℚ) ^ (r'.length + e') = p at *
  rw [abs_le]
  constructor <;> linarith

/-! ### Kept digits -/

/-- A number is taken on with digits as long as it fits in 64 bits. -/
theorem exists_kept (n : Nat) (ds : Bytes) :
    ∃ kept, ds = kept ++ (absorb n ds).2 ∧
      (absorb n ds).1 = n * 10 ^ kept.length + numeral kept ∧
      ∀ d r, (absorb n ds).2 = d :: r → 2 ^ 64 ≤ (absorb n ds).1 * 10 + digitValue d := by
  induction ds generalizing n with
  | nil => exact ⟨[], rfl, by simp [absorb, numeral], by simp [absorb]⟩
  | cons d ds ih =>
    rw [absorb]
    split
    · obtain ⟨kept, hds, hvalue, hfull⟩ := ih (n * 10 + digitValue d)
      refine ⟨d :: kept, by rw [List.cons_append, ← hds], ?_, hfull⟩
      rw [hvalue, numeral_cons, List.length_cons, Nat.pow_succ]
      ring
    · rename_i hfull
      refine ⟨[], rfl, by simp [numeral], ?_⟩
      rintro d' r ⟨⟩
      exact Nat.le_of_not_lt hfull

theorem absorb_lt (hn : n < 2 ^ 64) (ds : Bytes) : (absorb n ds).1 < 2 ^ 64 := by
  induction ds generalizing n with
  | nil => exact hn
  | cons d ds ih =>
    rw [absorb]
    split
    · rename_i hfits
      exact ih hfits
    · exact hn

/-- How a literal is cut: the digits that are kept before and behind the point, and the others. -/
structure Literal.Cut (l : Literal) (kept unkept keptFraction dropped : Bytes) : Prop where
  whole : l.whole = kept ++ unkept
  fraction : l.fraction = keptFraction ++ dropped
  number : l.significand.1 = numeral (kept ++ keptFraction)
  shift : l.significand.2 = unkept.length - keptFraction.length
  unkept_full : ∀ d r, unkept = d :: r → 2 ^ 64 ≤ numeral kept * 10 + digitValue d
  dropped_full : ∀ d r, dropped = d :: r →
    2 ^ 64 ≤ numeral (kept ++ keptFraction) * 10 + digitValue d

theorem Literal.exists_cut (l : Literal) :
    ∃ kept unkept keptFraction dropped, l.Cut kept unkept keptFraction dropped := by
  obtain ⟨kept, hwhole, hvalue, hfull⟩ := exists_kept 0 l.whole
  rw [Nat.zero_mul, Nat.zero_add] at hvalue
  obtain ⟨keptFraction, hfraction, hnumber, hfull'⟩ := exists_kept (absorb 0 l.whole).1 l.fraction
  rw [hvalue, ← numeral_append] at hnumber
  rw [hvalue] at hfull hfull' hfraction
  rw [hnumber] at hfull'
  have hlength := congrArg List.length hfraction
  rw [List.length_append] at hlength
  refine ⟨kept, _, keptFraction, _, hwhole, hfraction, ?_, ?_, hfull, hfull'⟩
  · rw [← hnumber, ← hvalue]
    rfl
  · rw [Literal.significand]
    simp only [hvalue]
    omega

theorem Literal.significand_lt (l : Literal) : l.significand.1 < 2 ^ 64 :=
  absorb_lt (absorb_lt (by decide) _) _

variable {l : Literal}

/-- Digits that fit are kept, all of them. -/
theorem Literal.significand_of_lt (h : numeral (l.whole ++ l.fraction) < 2 ^ 64) :
    l.significand = (numeral (l.whole ++ l.fraction), -(l.fraction.length : Int)) := by
  obtain ⟨kept, unkept, keptFraction, dropped, cut⟩ := l.exists_cut
  have hlong {ks : Bytes} {d : UInt8} (r : Bytes)
      (hfull : 2 ^ 64 ≤ numeral ks * 10 + digitValue d)
      (heq : l.whole ++ l.fraction = ks ++ d :: r) : False := by
    have hle := numeral_le_append (ks ++ [d]) r
    rw [numeral_append, List.append_assoc, List.singleton_append, ← heq] at hle
    simp [numeral] at hle hfull h
    omega
  have hunkept : unkept = [] := by
    cases unkept with
    | nil => rfl
    | cons d r =>
      refine (hlong (r ++ l.fraction) (cut.unkept_full d r rfl) ?_).elim
      rw [cut.whole, List.append_assoc, List.cons_append]
  subst hunkept
  have hdropped : dropped = [] := by
    cases dropped with
    | nil => rfl
    | cons d r =>
      refine (hlong r (cut.dropped_full d r rfl) ?_).elim
      rw [cut.whole, cut.fraction, List.append_nil, List.append_assoc]
  subst hdropped
  rw [Prod.ext_iff, cut.number, cut.shift, cut.whole, cut.fraction]
  simp

/-- A whole number without an exponent keeps its digits unless some count for their place. -/
theorem Literal.significand_of_shift (hfraction : l.fraction = []) (hshift : l.significand.2 = 0) :
    l.significand.1 = numeral l.whole := by
  obtain ⟨kept, unkept, keptFraction, dropped, cut⟩ := l.exists_cut
  have hempty := cut.fraction
  rw [hfraction, List.nil_eq, List.append_eq_nil_iff] at hempty
  rw [cut.shift, hempty.1, List.length_nil] at hshift
  have hunkept : unkept = [] := List.length_eq_zero_iff.mp (by omega)
  rw [cut.number, cut.whole, hempty.1, hunkept]

/-- What is kept of the digits of a literal, put in its place, is one rounding away. -/
theorem Literal.within_significand (h : ∀ d ∈ l.whole ++ l.fraction, isDigit d) :
    Within 1 (l.significand.1 * 10 ^ l.significand.2)
      (numeral (l.whole ++ l.fraction) * 10 ^ (-(l.fraction.length : Int))) := by
  obtain ⟨kept, unkept, keptFraction, dropped, cut⟩ := l.exists_cut
  have hfull {ks : Bytes} {d : UInt8} (hd : d ∈ l.whole ++ l.fraction)
      (hle : 2 ^ 64 ≤ numeral ks * 10 + digitValue d) : 2 ^ 60 ≤ numeral ks := by
    have hlt := digitValue_lt (h d hd)
    omega
  rw [cut.number, cut.shift]
  rw [cut.whole, cut.fraction] at h hfull ⊢
  cases unkept with
  | cons d u =>
    have hks := hfull (by simp) (cut.unkept_full d u rfl)
    rw [List.append_assoc] at h ⊢
    obtain ⟨-, hrest⟩ := List.forall_mem_append.mp h
    refine within_numeral hks (fun b hb => hrest b (by simp [hb])) hrest ?_
    simp only [List.length_append]
    omega
  | nil =>
    rw [List.append_nil, ← List.append_assoc, List.length_nil, Nat.cast_zero, zero_sub]
    cases dropped with
    | cons d r =>
      have hks := hfull (by simp) (cut.dropped_full d r rfl)
      have hrest := (List.forall_mem_append.mp (List.forall_mem_append.mp h).2).2
      conv in numeral (kept ++ keptFraction) => rw [← List.append_nil (kept ++ keptFraction)]
      refine within_numeral hks (List.forall_mem_nil _) hrest ?_
      simp only [List.length_append, List.length_nil]
      omega
    | nil =>
      rw [List.append_nil, List.append_nil]
      exact .refl 1 (by positivity)

end RegressionGate.Json
