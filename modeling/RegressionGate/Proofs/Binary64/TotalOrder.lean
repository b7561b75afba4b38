import RegressionGate.Proofs.Binary64.Order

/-! The total order of encodings: numbers in their order, −0 before +0, and what is not a number
before all of them or after all of them, as its sign says. -/

namespace RegressionGate.Binary64

variable {x y : Binary64}

/-- Whether `x` comes before `y` in the total order of encodings, or is the same. Payloads are told
apart by their magnitudes, in which a signaling not-a-number is below a quiet one. -/
inductive TotalLE : Binary64 → Binary64 → Prop
  | same (x : Binary64) : TotalLE x x
  | less {x y : Binary64} (h : x < y) : TotalLE x y
  | zeros {x y : Binary64} (hx : x.IsZero) (hy : y.IsZero) (hxs : x.negative = true)
      (hys : y.negative = false) : TotalLE x y
  | nanFirst {x y : Binary64} (hx : x.IsNaN) (hxs : x.negative = true) (hy : ¬y.IsNaN) :
      TotalLE x y
  | nanLast {x y : Binary64} (hx : ¬x.IsNaN) (hy : y.IsNaN) (hys : y.negative = false) :
      TotalLE x y
  | nanSigns {x y : Binary64} (hx : x.IsNaN) (hy : y.IsNaN) (hxs : x.negative = true)
      (hys : y.negative = false) : TotalLE x y
  | nanBelow {x y : Binary64} (hx : x.IsNaN) (hy : y.IsNaN) (hxs : x.negative = true)
      (hys : y.negative = true) (h : y.magnitude < x.magnitude) : TotalLE x y
  | nanAbove {x y : Binary64} (hx : x.IsNaN) (hy : y.IsNaN) (hxs : x.negative = false)
      (hys : y.negative = false) (h : x.magnitude < y.magnitude) : TotalLE x y

theorem totalRank_of_negative (h : x.negative = true) : x.totalRank = -x.magnitude - 1 := by
  rw [totalRank, if_pos h]

theorem totalRank_of_positive (h : x.negative = false) : x.totalRank = x.magnitude := by
  rw [totalRank, h, if_neg Bool.false_ne_true]

theorem totalRank_of_rank_pos (h : 0 < x.rank) : x.totalRank = x.rank := by
  cases hs : x.negative with
  | true =>
    rw [rank_of_negative hs] at h
    omega
  | false => rw [totalRank_of_positive hs, rank_of_positive hs]

theorem totalRank_of_rank_neg (h : x.rank < 0) : x.totalRank = x.rank - 1 := by
  cases hs : x.negative with
  | true => rw [totalRank_of_negative hs, rank_of_negative hs]
  | false =>
    rw [rank_of_positive hs] at h
    omega

theorem totalRank_bounds (x : Binary64) : x.rank - 1 ≤ x.totalRank ∧ x.totalRank ≤ x.rank := by
  cases hs : x.negative with
  | true =>
    rw [totalRank_of_negative hs, rank_of_negative hs]
    omega
  | false =>
    rw [totalRank_of_positive hs, rank_of_positive hs]
    omega

theorem TotalLE.totalRank_le (h : TotalLE x y) : x.totalRank ≤ y.totalRank := by
  cases h with
  | same => exact Int.le_refl _
  | less h =>
    have hrank := h.2.2
    have hx := totalRank_bounds x
    have hy := totalRank_bounds y
    omega
  | zeros hx hy hxs hys =>
    rw [totalRank_of_negative hxs, totalRank_of_positive hys]
    omega
  | nanFirst hx hxs hy =>
    rw [IsNaN] at hx hy
    rw [totalRank_of_negative hxs, totalRank]
    split <;> omega
  | nanLast hx hy hys =>
    rw [IsNaN] at hx hy
    rw [totalRank_of_positive hys, totalRank]
    split <;> omega
  | nanSigns hx hy hxs hys =>
    rw [totalRank_of_negative hxs, totalRank_of_positive hys]
    omega
  | nanBelow hx hy hxs hys h =>
    rw [totalRank_of_negative hxs, totalRank_of_negative hys]
    omega
  | nanAbove hx hy hxs hys h =>
    rw [totalRank_of_positive hxs, totalRank_of_positive hys]
    omega

theorem totalLE_of_negative (hxs : x.negative = true) (hys : y.negative = true)
    (h : y.magnitude < x.magnitude) : TotalLE x y := by
  by_cases hx : x.IsNaN
  · by_cases hy : y.IsNaN
    · exact .nanBelow hx hy hxs hys h
    · exact .nanFirst hx hxs hy
  · have hy : ¬y.IsNaN := fun hy => hx (Nat.lt_trans hy h)
    refine .less ⟨hx, hy, ?_⟩
    rw [rank_of_negative hxs, rank_of_negative hys]
    omega

theorem totalLE_of_positive (hxs : x.negative = false) (hys : y.negative = false)
    (h : x.magnitude < y.magnitude) : TotalLE x y := by
  by_cases hy : y.IsNaN
  · by_cases hx : x.IsNaN
    · exact .nanAbove hx hy hxs hys h
    · exact .nanLast hx hy hys
  · have hx : ¬x.IsNaN := fun hx => hy (Nat.lt_trans hx h)
    refine .less ⟨hx, hy, ?_⟩
    rw [rank_of_positive hxs, rank_of_positive hys]
    omega

theorem totalLE_of_signs (hxs : x.negative = true) (hys : y.negative = false) : TotalLE x y := by
  by_cases hx : x.IsNaN
  · by_cases hy : y.IsNaN
    · exact .nanSigns hx hy hxs hys
    · exact .nanFirst hx hxs hy
  · by_cases hy : y.IsNaN
    · exact .nanLast hx hy hys
    · by_cases hzero : x.magnitude = 0 ∧ y.magnitude = 0
      · exact .zeros hzero.1 hzero.2 hxs hys
      · refine .less ⟨hx, hy, ?_⟩
        rw [rank_of_negative hxs, rank_of_positive hys]
        omega

/-- The total order is that of the total ranks. -/
theorem totalLE_iff : TotalLE x y ↔ x.totalRank ≤ y.totalRank := by
  refine ⟨TotalLE.totalRank_le, fun h => ?_⟩
  rcases Int.lt_or_eq_of_le h with hlt | heq
  · cases hxs : x.negative with
    | true =>
      rw [totalRank_of_negative hxs] at hlt
      cases hys : y.negative with
      | true =>
        rw [totalRank_of_negative hys] at hlt
        exact totalLE_of_negative hxs hys (by omega)
      | false => exact totalLE_of_signs hxs hys
    | false =>
      rw [totalRank_of_positive hxs] at hlt
      cases hys : y.negative with
      | true =>
        rw [totalRank_of_negative hys] at hlt
        omega
      | false =>
        rw [totalRank_of_positive hys] at hlt
        exact totalLE_of_positive hxs hys (by omega)
  · rw [totalRank_inj heq]
    exact .same y

/-! ### Numbers of one sign -/

/-- Whether two numbers are on the same side of zero. -/
def SameSide (x y : Binary64) : Prop := 0 < x ∧ 0 < y ∨ x < 0 ∧ y < 0

/-- On one side of zero the total order is the order of the numbers. -/
theorem SameSide.totalRank_le_iff (h : SameSide x y) : x.totalRank ≤ y.totalRank ↔ x ≤ y := by
  rw [le_def]
  rcases h with ⟨⟨-, hx, hxpos⟩, ⟨-, hy, hypos⟩⟩ | ⟨⟨hx, -, hxneg⟩, ⟨hy, -, hyneg⟩⟩
  · rw [rank_zero] at hxpos hypos
    simp only [totalRank_of_rank_pos hxpos, totalRank_of_rank_pos hypos, hx, hy,
      not_false_eq_true, true_and]
  · rw [rank_zero] at hxneg hyneg
    simp only [totalRank_of_rank_neg hxneg, totalRank_of_rank_neg hyneg, hx, hy,
      not_false_eq_true, true_and]
    omega

theorem SameSide.eq_of_le_of_le (h : SameSide x y) (hle : x ≤ y) (hge : y ≤ x) : x = y := by
  have hsymm : SameSide y x := h.imp And.symm And.symm
  exact totalRank_inj (Int.le_antisymm (h.totalRank_le_iff.mpr hle)
    (hsymm.totalRank_le_iff.mpr hge))

end RegressionGate.Binary64
