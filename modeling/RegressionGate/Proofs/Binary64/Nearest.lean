import Mathlib.Algebra.Ring.Nat
import RegressionGate.Binary64.Basic
import RegressionGate.Proofs.Rounding

/-! Rounding to the nearest magnitude: it keeps the order of quotients, so it depends on the exact
quotient alone, and it leaves a quotient as it is that a magnitude stands for. -/

namespace RegressionGate.Binary64

theorem binade_eq : binade = 2 ^ 52 := rfl

theorem two_mul_binade : 2 * binade = 2 ^ 53 := rfl

/-! ### The grid of a magnitude -/

/-- The exponent of the grid that quotients with the whole part `k` are rounded to. -/
def gridExponent (k : Nat) : Nat := k.log2 - 52

theorem gridExponent_le {k e : Nat} (h : k < 2 ^ (53 + e)) : gridExponent k ≤ e := by
  by_cases hk : k = 0
  · simp [gridExponent, hk]
  · have := (Nat.log2_lt hk).mpr h
    rw [gridExponent]
    omega

theorem lt_of_gridExponent (k : Nat) : k < 2 * binade * 2 ^ gridExponent k := by
  have hle : k.log2 + 1 ≤ 53 + gridExponent k := by
    rw [gridExponent]
    omega
  calc k < 2 ^ (k.log2 + 1) := Nat.lt_log2_self
    _ ≤ 2 ^ (53 + gridExponent k) := Nat.pow_le_pow_right (by decide) hle
    _ = 2 * binade * 2 ^ gridExponent k := by rw [Nat.pow_add, two_mul_binade]

theorem le_of_gridExponent {k : Nat} (h : gridExponent k ≠ 0) :
    binade * 2 ^ gridExponent k ≤ k := by
  have hlog : 52 + gridExponent k = k.log2 := by
    rw [gridExponent] at h ⊢
    omega
  have hk : k ≠ 0 := by
    rintro rfl
    exact h rfl
  calc binade * 2 ^ gridExponent k = 2 ^ k.log2 := by rw [binade_eq, ← Nat.pow_add, hlog]
    _ ≤ k := Nat.log2_self_le hk

theorem gridExponent_mono {k l : Nat} (h : k ≤ l) : gridExponent k ≤ gridExponent l := by
  refine gridExponent_le (Nat.lt_of_le_of_lt h ?_)
  rw [Nat.pow_add]
  exact lt_of_gridExponent l

/-- The quotient in steps of the grid, rounded. -/
def significand (n d : Nat) : Nat := roundHalfEven n (d * 2 ^ gridExponent (n / d))

theorem nearestMagnitude_eq (n d : Nat) :
    nearestMagnitude n d =
      min (gridExponent (n / d) * binade + significand n d) infinityMagnitude := by
  rw [nearestMagnitude, significand, gridExponent, Nat.shiftLeft_eq]

theorem significand_le (n d : Nat) : significand n d ≤ 2 * binade := by
  have hlt : n / (d * 2 ^ gridExponent (n / d)) < 2 * binade := by
    rw [← Nat.div_div_eq_div_mul]
    exact Nat.div_lt_of_lt_mul (by rw [Nat.mul_comm]; exact lt_of_gridExponent (n / d))
  exact Nat.le_trans (roundHalfEven_le _ _) hlt

theorem binade_le_significand {n d : Nat} (h : gridExponent (n / d) ≠ 0) :
    binade ≤ significand n d := by
  have hle : binade ≤ n / (d * 2 ^ gridExponent (n / d)) := by
    rw [← Nat.div_div_eq_div_mul, Nat.le_div_iff_mul_le (Nat.two_pow_pos _)]
    exact le_of_gridExponent h
  exact Nat.le_trans hle (roundHalfEven_ge _ _)

/-! ### Order -/

/-- The greater of two quotients goes to the greater magnitude. -/
theorem nearestMagnitude_mono {n d n' d' : Nat} (hd : 0 < d) (hd' : 0 < d')
    (h : n * d' ≤ n' * d) : nearestMagnitude n d ≤ nearestMagnitude n' d' := by
  have hdiv : n / d ≤ n' / d' := by
    rw [Nat.le_div_iff_mul_le hd']
    refine Nat.le_of_mul_le_mul_right ?_ hd
    calc n / d * d' * d = n / d * d * d' := Nat.mul_right_comm ..
      _ ≤ n * d' := Nat.mul_le_mul_right d' (Nat.div_mul_le_self n d)
      _ ≤ n' * d := h
  rw [nearestMagnitude_eq, nearestMagnitude_eq]
  suffices hplace : gridExponent (n / d) * binade + significand n d ≤
      gridExponent (n' / d') * binade + significand n' d' from
    Nat.le_min.mpr ⟨Nat.le_trans (Nat.min_le_left _ _) hplace, Nat.min_le_right _ _⟩
  rcases Nat.lt_or_eq_of_le (gridExponent_mono hdiv) with hlt | heq
  · -- A coarser grid is used from `binade` on, where a finer one ends twice as far.
    have hge : binade ≤ significand n' d' :=
      binade_le_significand (Nat.ne_of_gt (Nat.lt_of_le_of_lt (Nat.zero_le _) hlt))
    calc gridExponent (n / d) * binade + significand n d
      _ ≤ gridExponent (n / d) * binade + 2 * binade := Nat.add_le_add_left (significand_le n d) _
      _ = (gridExponent (n / d) + 1) * binade + binade := by
        rw [Nat.two_mul, ← Nat.add_assoc, Nat.succ_mul]
      _ ≤ gridExponent (n' / d') * binade + significand n' d' :=
        Nat.add_le_add (Nat.mul_le_mul_right binade hlt) hge
  · rw [heq, significand, significand, heq]
    refine Nat.add_le_add_left (roundHalfEven_mono ?_ ?_ ?_) _
    · exact Nat.mul_pos hd (Nat.two_pow_pos _)
    · exact Nat.mul_pos hd' (Nat.two_pow_pos _)
    · rw [← Nat.mul_assoc, ← Nat.mul_assoc]
      exact Nat.mul_le_mul_right _ h

theorem nearestMagnitude_congr {n d n' d' : Nat} (hd : 0 < d) (hd' : 0 < d')
    (h : n * d' = n' * d) : nearestMagnitude n d = nearestMagnitude n' d' :=
  Nat.le_antisymm (nearestMagnitude_mono hd hd' (Nat.le_of_eq h))
    (nearestMagnitude_mono hd' hd (Nat.le_of_eq h.symm))

/-! ### Exact values -/

/-- Whether `q` can be the significand of a magnitude on the grid with exponent `e`. -/
def Fits (e q : Nat) : Prop := q < 2 * binade ∧ (e = 0 ∨ binade ≤ q)

theorem unitsOf_fits {e q : Nat} (h : Fits e q) : unitsOf (e * binade + q) = q * 2 ^ e := by
  obtain ⟨hq, h⟩ := h
  by_cases hlow : q < binade
  · have he : e = 0 := h.resolve_right (Nat.not_le.mpr hlow)
    subst he
    rw [Nat.zero_mul, Nat.zero_add, unitsOf, if_pos hlow, Nat.pow_zero, Nat.mul_one]
  · obtain ⟨f, rfl⟩ := Nat.exists_eq_add_of_le (Nat.le_of_not_lt hlow)
    have hf : f < binade := by
      rw [Nat.two_mul] at hq
      exact Nat.lt_of_add_lt_add_left hq
    have hplace : e * binade + (binade + f) = f + (e + 1) * binade := by
      rw [Nat.succ_mul, Nat.add_comm f, Nat.add_assoc]
    have hpos : 0 < binade := by decide
    have hdiv : (f + (e + 1) * binade) / binade = e + 1 := by
      rw [Nat.add_mul_div_right _ _ hpos, Nat.div_eq_of_lt hf, Nat.zero_add]
    have hmod : (f + (e + 1) * binade) % binade = f := by
      rw [Nat.add_mul_mod_self_right, Nat.mod_eq_of_lt hf]
    have hhigh : ¬f + (e + 1) * binade < binade := by
      rw [Nat.succ_mul, ← Nat.add_assoc]
      exact Nat.not_lt.mpr (Nat.le_add_left _ _)
    rw [hplace, unitsOf, if_neg hhigh, hdiv, hmod, Nat.shiftLeft_eq, Nat.add_sub_cancel]

theorem exists_fits (m : Nat) : ∃ e q, Fits e q ∧ m = e * binade + q := by
  have hpos : 0 < binade := by decide
  by_cases h : m < binade
  · refine ⟨0, m, ⟨?_, .inl rfl⟩, by rw [Nat.zero_mul, Nat.zero_add]⟩
    rw [Nat.two_mul]
    exact Nat.lt_add_right _ h
  · have hdiv : 1 ≤ m / binade := (Nat.one_le_div_iff hpos).mpr (Nat.le_of_not_lt h)
    refine ⟨m / binade - 1, binade + m % binade, ⟨?_, .inr (Nat.le_add_right _ _)⟩, ?_⟩
    · rw [Nat.two_mul]
      exact Nat.add_lt_add_left (Nat.mod_lt m hpos) _
    · rw [← Nat.add_assoc, ← Nat.succ_mul, Nat.succ_eq_add_one, Nat.sub_add_cancel hdiv,
        Nat.div_add_mod']

/-- A multiple of a power of two with a short factor has a significand on some grid. -/
theorem exists_fits_mul_two_pow {k : Nat} (hk : k < 2 * binade) (j : Nat) :
    ∃ e q, Fits e q ∧ k * 2 ^ j = q * 2 ^ e := by
  induction j generalizing k with
  | zero => exact ⟨0, k, ⟨hk, .inl rfl⟩, rfl⟩
  | succ j ih =>
    by_cases h : binade ≤ k
    · exact ⟨j + 1, k, ⟨hk, .inr h⟩, rfl⟩
    · have hdouble : 2 * k < 2 * binade :=
        Nat.mul_lt_mul_of_pos_left (Nat.lt_of_not_le h) (by decide)
      obtain ⟨e, q, hfits, heq⟩ := ih hdouble
      refine ⟨e, q, hfits, ?_⟩
      rw [← heq, Nat.pow_succ, Nat.mul_comm (2 ^ j) 2, ← Nat.mul_assoc, Nat.mul_comm k 2]

theorem gridExponent_fits {e q : Nat} (h : Fits e q) : gridExponent (q * 2 ^ e) = e := by
  obtain ⟨hq, h⟩ := h
  refine Nat.le_antisymm (gridExponent_le ?_) ?_
  · rw [Nat.pow_add]
    exact Nat.mul_lt_mul_of_pos_right hq (Nat.two_pow_pos e)
  · rcases h with rfl | h
    · exact Nat.zero_le _
    · have hle : 2 ^ (52 + e) ≤ q * 2 ^ e := by
        rw [Nat.pow_add]
        exact Nat.mul_le_mul_right _ h
      have hne : q * 2 ^ e ≠ 0 := Nat.ne_of_gt (Nat.lt_of_lt_of_le (Nat.two_pow_pos _) hle)
      have hlog := (Nat.le_log2 hne).mpr hle
      rw [gridExponent]
      omega

theorem nearestMagnitude_fits {e q : Nat} (h : Fits e q) :
    nearestMagnitude (q * 2 ^ e) 1 = min (e * binade + q) infinityMagnitude := by
  rw [nearestMagnitude_eq, significand, Nat.div_one, gridExponent_fits h, Nat.one_mul,
    roundHalfEven_mul q (Nat.two_pow_pos e)]

/-- What a magnitude stands for goes back to it. -/
theorem nearestMagnitude_unitsOf {m : Nat} (h : m ≤ infinityMagnitude) :
    nearestMagnitude (unitsOf m) 1 = m := by
  obtain ⟨e, q, hfits, rfl⟩ := exists_fits m
  rw [unitsOf_fits hfits, nearestMagnitude_fits hfits, Nat.min_eq_left h]

theorem nearestMagnitude_le_of_le {n d m : Nat} (hd : 0 < d) (hm : m ≤ infinityMagnitude)
    (h : n ≤ unitsOf m * d) : nearestMagnitude n d ≤ m := by
  have hle : nearestMagnitude n d ≤ nearestMagnitude (unitsOf m) 1 :=
    nearestMagnitude_mono hd (by decide) (by rwa [Nat.mul_one])
  rwa [nearestMagnitude_unitsOf hm] at hle

/-- A multiple of a power of two with a short factor is kept, unless it is out of range. -/
theorem unitsOf_nearestMagnitude {k j m : Nat} (hk : k < 2 * binade) (hm : m < infinityMagnitude)
    (h : k * 2 ^ j ≤ unitsOf m) :
    nearestMagnitude (k * 2 ^ j) 1 < infinityMagnitude ∧
      unitsOf (nearestMagnitude (k * 2 ^ j) 1) = k * 2 ^ j := by
  have hlt : nearestMagnitude (k * 2 ^ j) 1 < infinityMagnitude := by
    refine Nat.lt_of_le_of_lt (nearestMagnitude_le_of_le (by decide) (Nat.le_of_lt hm) ?_) hm
    rwa [Nat.mul_one]
  refine ⟨hlt, ?_⟩
  obtain ⟨e, q, hfits, heq⟩ := exists_fits_mul_two_pow hk j
  rw [heq, nearestMagnitude_fits hfits] at hlt ⊢
  rw [Nat.min_eq_left (Nat.le_of_lt (Nat.lt_of_not_le fun hge => ?_)), unitsOf_fits hfits]
  rw [Nat.min_eq_right hge] at hlt
  exact Nat.lt_irrefl _ hlt

/-- The difference of two magnitudes, the greater at most twice the less, is a multiple of the
step of the less with a short factor, and kept. -/
theorem unitsOf_nearestMagnitude_sub {m m' : Nat} (hm' : m' < infinityMagnitude)
    (h : unitsOf m' ≤ unitsOf m) (htwice : unitsOf m ≤ 2 * unitsOf m') :
    unitsOf (nearestMagnitude (unitsOf m - unitsOf m') 1) = unitsOf m - unitsOf m' := by
  obtain ⟨e, q, hfits, hm⟩ := exists_fits m
  obtain ⟨e', q', hfits', hm'eq⟩ := exists_fits m'
  have hu : unitsOf m = q * 2 ^ e := by rw [hm, unitsOf_fits hfits]
  have hu' : unitsOf m' = q' * 2 ^ e' := by rw [hm'eq, unitsOf_fits hfits']
  -- The greater lies on a grid no finer, so both are multiples of the step of the less.
  have he : e' ≤ e := by
    have := gridExponent_mono h
    rwa [hu, hu', gridExponent_fits hfits, gridExponent_fits hfits'] at this
  have hdiff : unitsOf m - unitsOf m' = (q * 2 ^ (e - e') - q') * 2 ^ e' := by
    rw [hu, hu', Nat.sub_mul, Nat.mul_assoc, ← Nat.pow_add, Nat.sub_add_cancel he]
  have hle : (q * 2 ^ (e - e') - q') * 2 ^ e' ≤ unitsOf m' := by
    rw [← hdiff, Nat.sub_le_iff_le_add, ← Nat.two_mul]
    exact htwice
  have hk : q * 2 ^ (e - e') - q' < 2 * binade := by
    refine Nat.lt_of_le_of_lt ?_ hfits'.1
    rw [hu'] at hle
    exact Nat.le_of_mul_le_mul_right hle (Nat.two_pow_pos e')
  rw [hdiff]
  exact (unitsOf_nearestMagnitude hk hm' hle).2

end RegressionGate.Binary64
