import Mathlib.Tactic.Ring
import RegressionGate.Proofs.Binary64.Arithmetic

/-! Rounding as the choice of the closest: the nearest magnitude is no farther from the exact
quotient than any other, a tie goes to the even one, and the distance is bounded by the step of the
grid. -/

namespace RegressionGate

/-! ### Quotients -/

section Quotient

variable {n d : Nat}

theorem abs_roundHalfEven_sub (hd : 0 < d) : |(roundHalfEven n d : ℚ) - n / d| ≤ 1 / 2 := by
  have hd' : (0 : ℚ) < d := Nat.cast_pos.mpr hd
  obtain ⟨hle, hge⟩ := roundHalfEven_close (n := n) hd
  have hle' : (2 * n : ℚ) ≤ 2 * (roundHalfEven n d * d) + d := by exact_mod_cast hle
  have hge' : (2 * (roundHalfEven n d * d) : ℚ) ≤ 2 * n + d := by exact_mod_cast hge
  have hupper : (n / d : ℚ) ≤ roundHalfEven n d + 1 / 2 := by
    rw [div_le_iff₀ hd']
    linarith
  have hlower : (roundHalfEven n d - 1 / 2 : ℚ) ≤ n / d := by
    rw [le_div_iff₀ hd']
    linarith
  rw [abs_le]
  constructor <;> linarith

theorem one_le_abs_sub {j k : Nat} (h : j ≠ k) : (1 : ℚ) ≤ |(j : ℚ) - k| := by
  have hne : (j : Int) - k ≠ 0 := by omega
  have := Int.one_le_abs hne
  exact_mod_cast this

theorem roundHalfEven_closest (hd : 0 < d) (k : Nat) :
    |(roundHalfEven n d : ℚ) - n / d| ≤ |(k : ℚ) - n / d| := by
  by_cases hk : k = roundHalfEven n d
  · rw [hk]
  · have hhalf := abs_roundHalfEven_sub (n := n) hd
    have hone := one_le_abs_sub hk
    have htriangle := abs_sub_le (k : ℚ) (n / d) (roundHalfEven n d)
    rw [abs_sub_comm (n / d : ℚ) (roundHalfEven n d : ℚ)] at htriangle
    linarith

theorem roundHalfEven_even_of_half (hd : 0 < d)
    (h : |(roundHalfEven n d : ℚ) - n / d| = 1 / 2) : roundHalfEven n d % 2 = 0 := by
  have hd' : (0 : ℚ) < d := Nat.cast_pos.mpr hd
  have htwice : 2 * (roundHalfEven n d * d) = 2 * n + d ∨
      2 * n = 2 * (roundHalfEven n d * d) + d := by
    have hdist : (roundHalfEven n d : ℚ) * d = n + d / 2 ∨
        (n : ℚ) = roundHalfEven n d * d + d / 2 := by
      rcases abs_eq (by norm_num) |>.mp h with h | h
      · left
        rw [sub_eq_iff_eq_add.mp h]
        field_simp
        ring
      · right
        rw [sub_eq_iff_eq_add.mp h]
        field_simp
        ring
    rcases hdist with h | h
    · left
      have : (2 * (roundHalfEven n d * d) : ℚ) = 2 * n + d := by linarith
      exact_mod_cast this
    · right
      have : (2 * n : ℚ) = 2 * (roundHalfEven n d * d) + d := by linarith
      exact_mod_cast this
  have hdiv := Nat.div_add_mod n d
  have hmod := Nat.mod_lt n hd
  have hcomm := Nat.mul_comm d (n / d)
  have hsucc := Nat.add_mul (n / d) 1 d
  unfold roundHalfEven at htwice ⊢
  dsimp only at htwice ⊢
  split at htwice
  · omega
  · split at htwice
    · omega
    · rename_i hlow hhigh
      rw [if_neg hlow, if_neg hhigh]
      omega

theorem roundHalfEven_even_of_tie (hd : 0 < d) {k : Nat} (hk : k ≠ roundHalfEven n d)
    (h : |(k : ℚ) - n / d| = |(roundHalfEven n d : ℚ) - n / d|) : roundHalfEven n d % 2 = 0 := by
  have hhalf := abs_roundHalfEven_sub (n := n) hd
  have hone := one_le_abs_sub hk
  have htriangle := abs_sub_le (k : ℚ) (n / d) (roundHalfEven n d)
  rw [abs_sub_comm (n / d : ℚ) (roundHalfEven n d : ℚ)] at htriangle
  exact roundHalfEven_even_of_half hd (by linarith)

end Quotient

namespace Binary64

/-! ### Magnitudes -/

theorem two_mul_binade_mul (e : Nat) : 2 * binade * 2 ^ e = binade * 2 ^ (e + 1) := by
  rw [Nat.pow_succ, Nat.mul_comm 2, Nat.mul_assoc, Nat.mul_comm 2]

theorem unitsOf_lt_unitsOf {m m' : Nat} (h : m < m') : unitsOf m < unitsOf m' := by
  obtain ⟨e, q, hfits, rfl⟩ := exists_fits m
  obtain ⟨e', q', hfits', rfl⟩ := exists_fits m'
  rw [unitsOf_fits hfits, unitsOf_fits hfits']
  rcases Nat.lt_trichotomy e e' with hlt | rfl | hgt
  · have hq' : binade ≤ q' := hfits'.2.resolve_left (by omega)
    calc q * 2 ^ e < 2 * binade * 2 ^ e := Nat.mul_lt_mul_of_pos_right hfits.1 (Nat.two_pow_pos e)
      _ = binade * 2 ^ (e + 1) := two_mul_binade_mul e
      _ ≤ q' * 2 ^ e' := Nat.mul_le_mul hq' (Nat.pow_le_pow_right (by decide) hlt)
  · exact Nat.mul_lt_mul_of_pos_right (Nat.lt_of_add_lt_add_left h) (Nat.two_pow_pos e)
  · have hq : binade ≤ q := hfits.2.resolve_left (by omega)
    have hq' := hfits'.1
    have hstep : (e' + 1) * binade ≤ e * binade := Nat.mul_le_mul_right binade hgt
    rw [Nat.succ_mul] at hstep
    omega

theorem unitsOf_strictMono : StrictMono unitsOf := fun _ _ => unitsOf_lt_unitsOf

/-- The nearest magnitude when the range has no end. -/
def place (n d : Nat) : Nat := gridExponent (n / d) * binade + significand n d

theorem nearestMagnitude_eq_min (n d : Nat) :
    nearestMagnitude n d = min (place n d) infinityMagnitude := nearestMagnitude_eq n d

/-- The significand may also be the first one past its grid: it then belongs to the grid above. -/
theorem unitsOf_of_le {e q : Nat} (hq : q ≤ 2 * binade) (h : e = 0 ∨ binade ≤ q) :
    unitsOf (e * binade + q) = q * 2 ^ e := by
  rcases Nat.lt_or_eq_of_le hq with hlt | rfl
  · exact unitsOf_fits ⟨hlt, h⟩
  · have hfits : Fits (e + 1) binade := ⟨by decide, .inr (Nat.le_refl _)⟩
    have hplace : e * binade + 2 * binade = (e + 1) * binade + binade := by
      rw [Nat.two_mul, ← Nat.add_assoc, Nat.succ_mul]
    rw [hplace, unitsOf_fits hfits, two_mul_binade_mul]

/-- The step to the next magnitude is no less than 2^-53 of that. -/
theorem unitsOf_succ_le (m : Nat) :
    unitsOf (m + 1) ≤ (unitsOf (m + 1) - unitsOf m) * 2 ^ 53 := by
  obtain ⟨e, q, hfits, rfl⟩ := exists_fits m
  have hnext : unitsOf (e * binade + q + 1) = (q + 1) * 2 ^ e := by
    rw [Nat.add_assoc]
    exact unitsOf_of_le hfits.1 (hfits.2.imp_right Nat.le_succ_of_le)
  have hstep : (q + 1) * 2 ^ e - q * 2 ^ e = 2 ^ e := by
    rw [Nat.succ_mul, Nat.add_sub_cancel_left]
  rw [hnext, unitsOf_fits hfits, hstep, Nat.mul_comm (2 ^ e)]
  exact Nat.mul_le_mul_right _ hfits.1

/-- Magnitudes differ by no less than 2^-53 of the greater one. -/
theorem unitsOf_le_gap {m m' : Nat} (h : m < m') :
    unitsOf m' ≤ (unitsOf m' - unitsOf m) * 2 ^ 53 := by
  obtain ⟨k, rfl⟩ : ∃ k, m' = k + 1 := ⟨m' - 1, by omega⟩
  have hle : unitsOf m ≤ unitsOf k := unitsOf_strictMono.monotone (Nat.le_of_lt_succ h)
  calc unitsOf (k + 1) ≤ (unitsOf (k + 1) - unitsOf k) * 2 ^ 53 := unitsOf_succ_le k
    _ ≤ (unitsOf (k + 1) - unitsOf m) * 2 ^ 53 :=
      Nat.mul_le_mul_right _ (Nat.sub_le_sub_left hle _)

theorem unitsOf_place (n d : Nat) :
    unitsOf (place n d) = significand n d * 2 ^ gridExponent (n / d) := by
  refine unitsOf_of_le (significand_le n d) ?_
  by_cases h : gridExponent (n / d) = 0
  · exact .inl h
  · exact .inr (binade_le_significand h)

theorem place_mod_two (n d : Nat) : place n d % 2 = significand n d % 2 := by
  have hbinade : binade = 2 * 0x8000000000000 := rfl
  rw [place, hbinade, ← Nat.mul_assoc, Nat.mul_right_comm, Nat.add_comm, Nat.mul_comm _ 2,
    Nat.add_mul_mod_self_left]

variable {n d : Nat}

/-- The distances on a grid are those of quotients in steps of the grid. -/
theorem abs_grid_sub (j e : Nat) :
    |((j * 2 ^ e : Nat) : ℚ) - n / d| = |(j : ℚ) - (n : ℚ) / (d * 2 ^ e : Nat)| * 2 ^ e := by
  have hpos : (0 : ℚ) < 2 ^ e := by positivity
  rw [← abs_of_pos hpos, ← abs_mul]
  congr 1
  push_cast
  field_simp

theorem abs_unitsOf_place_sub (hd : 0 < d) :
    |(unitsOf (place n d) : ℚ) - n / d| ≤ 2 ^ gridExponent (n / d) / 2 := by
  have hpos : (0 : ℚ) < 2 ^ gridExponent (n / d) := by positivity
  have hstep := Nat.mul_pos hd (Nat.two_pow_pos (gridExponent (n / d)))
  have hhalf := abs_roundHalfEven_sub (n := n) hstep
  rw [unitsOf_place, abs_grid_sub, significand]
  calc _ ≤ 1 / 2 * (2 : ℚ) ^ gridExponent (n / d) := mul_le_mul_of_nonneg_right hhalf hpos.le
    _ = 2 ^ gridExponent (n / d) / 2 := by ring

theorem place_closest_grid (hd : 0 < d) (j : Nat) :
    |(unitsOf (place n d) : ℚ) - n / d| ≤ |((j * 2 ^ gridExponent (n / d) : Nat) : ℚ) - n / d| := by
  rw [unitsOf_place, abs_grid_sub, abs_grid_sub, significand]
  refine mul_le_mul_of_nonneg_right ?_ (by positivity)
  exact roundHalfEven_closest (Nat.mul_pos hd (Nat.two_pow_pos _)) j

/-- A magnitude lies on the grid of a quotient, or below all that is rounded to that grid. -/
theorem grid_or_below (hd : 0 < d) (m : Nat) :
    (∃ j, unitsOf m = j * 2 ^ gridExponent (n / d)) ∨
      unitsOf m < binade * 2 ^ gridExponent (n / d) ∧
        ((binade * 2 ^ gridExponent (n / d) : Nat) : ℚ) ≤ n / d := by
  obtain ⟨e, q, hfits, rfl⟩ := exists_fits m
  rw [unitsOf_fits hfits]
  rcases Nat.lt_or_ge e (gridExponent (n / d)) with hlt | hge
  · right
    constructor
    · calc q * 2 ^ e < 2 * binade * 2 ^ e := Nat.mul_lt_mul_of_pos_right hfits.1 (Nat.two_pow_pos e)
        _ = binade * 2 ^ (e + 1) := two_mul_binade_mul e
        _ ≤ binade * 2 ^ gridExponent (n / d) :=
          Nat.mul_le_mul_left _ (Nat.pow_le_pow_right (by decide) hlt)
    · rw [le_div_iff₀ (Nat.cast_pos.mpr hd)]
      have hle := le_of_gridExponent (k := n / d) (by omega)
      exact_mod_cast (Nat.le_div_iff_mul_le hd).mp hle
  · left
    refine ⟨q * 2 ^ (e - gridExponent (n / d)), ?_⟩
    rw [Nat.mul_assoc, ← Nat.pow_add, Nat.sub_add_cancel hge]

/-- No magnitude is closer to a quotient than its place. -/
theorem place_closest (hd : 0 < d) (m : Nat) :
    |(unitsOf (place n d) : ℚ) - n / d| ≤ |(unitsOf m : ℚ) - n / d| := by
  rcases grid_or_below (n := n) hd m with ⟨j, hj⟩ | ⟨hlt, hle⟩
  · rw [hj]
    exact place_closest_grid hd j
  · have hgrid := place_closest_grid (n := n) hd binade
    have hlt' : (unitsOf m : ℚ) < (binade * 2 ^ gridExponent (n / d) : Nat) := Nat.cast_lt.mpr hlt
    rw [abs_of_nonpos (sub_nonpos.mpr hle)] at hgrid
    rw [abs_of_nonpos (a := (unitsOf m : ℚ) - n / d) (by linarith)]
    linarith

theorem place_even_of_tie (hd : 0 < d) {m : Nat} (hm : m ≠ place n d)
    (h : |(unitsOf m : ℚ) - n / d| = |(unitsOf (place n d) : ℚ) - n / d|) : place n d % 2 = 0 := by
  rw [place_mod_two]
  rcases grid_or_below (n := n) hd m with ⟨j, hj⟩ | ⟨hlt, hle⟩
  · have hne : j ≠ significand n d := by
      rintro rfl
      exact hm (unitsOf_strictMono.injective (hj.trans (unitsOf_place n d).symm))
    rw [hj, unitsOf_place, abs_grid_sub, abs_grid_sub] at h
    exact roundHalfEven_even_of_tie (Nat.mul_pos hd (Nat.two_pow_pos _)) hne
      (mul_right_cancel₀ (by positivity) h)
  · have hgrid := place_closest_grid (n := n) hd binade
    have hlt' : (unitsOf m : ℚ) < (binade * 2 ^ gridExponent (n / d) : Nat) := Nat.cast_lt.mpr hlt
    rw [← h, abs_of_nonpos (sub_nonpos.mpr hle), abs_of_nonpos (by linarith)] at hgrid
    linarith

/-! ### Intervals -/

theorem eq_mid_of_above {a b x : ℚ} (h : a < b) (hx : (a + b) / 2 ≤ x) (hle : |a - x| ≤ |b - x|) :
    x = (a + b) / 2 := by
  rw [abs_of_nonpos (a := a - x) (by linarith)] at hle
  rcases abs_cases (b - x) with ⟨heq, -⟩ | ⟨heq, -⟩ <;> linarith

theorem eq_mid_of_below {a b x : ℚ} (h : a < b) (hx : x ≤ (a + b) / 2) (hle : |b - x| ≤ |a - x|) :
    x = (a + b) / 2 := by
  rw [abs_of_nonneg (a := b - x) (by linarith)] at hle
  rcases abs_cases (a - x) with ⟨heq, -⟩ | ⟨heq, -⟩ <;> linarith

theorem abs_mid_symm (a b : ℚ) : |b - (a + b) / 2| = |a - (a + b) / 2| := by
  rw [← abs_neg]
  congr 1
  ring

/-- What lies above the middle between a magnitude and the one before goes no lower than it; the
middle itself only when the magnitude is even. -/
theorem le_place {m : Nat} (hd : 0 < d) (h : (unitsOf (m - 1) + unitsOf m) * d ≤ 2 * n)
    (hodd : m % 2 = 1 → (unitsOf (m - 1) + unitsOf m) * d < 2 * n) : m ≤ place n d := by
  by_contra hlt
  rw [Nat.not_le] at hlt
  have hd' : (0 : ℚ) < d := Nat.cast_pos.mpr hd
  have hbelow : (unitsOf (place n d) : ℚ) ≤ unitsOf (m - 1) :=
    Nat.cast_le.mpr (unitsOf_strictMono.monotone (by omega))
  have hless : (unitsOf (place n d) : ℚ) < unitsOf m := Nat.cast_lt.mpr (unitsOf_lt_unitsOf hlt)
  have hx : ((unitsOf (m - 1) : ℚ) + unitsOf m) / 2 ≤ n / d := by
    rw [div_le_div_iff₀ two_pos hd']
    exact_mod_cast h.trans_eq (Nat.mul_comm 2 n)
  have hmid := eq_mid_of_above hless (by linarith) (place_closest hd m)
  have heven := place_even_of_tie hd (Nat.ne_of_gt hlt) (by rw [hmid]; exact abs_mid_symm _ _)
  have hprev : unitsOf (place n d) = unitsOf (m - 1) := by
    rw [← Nat.cast_inj (R := ℚ)]
    linarith
  have hprev' := unitsOf_strictMono.injective hprev
  have hx' : ((unitsOf (m - 1) : ℚ) + unitsOf m) / 2 < n / d := by
    rw [div_lt_div_iff₀ two_pos hd']
    exact_mod_cast (hodd (by omega)).trans_eq (Nat.mul_comm 2 n)
  linarith

/-- What lies below the middle between a magnitude and the next goes no higher than it; the middle
itself only when the magnitude is even. -/
theorem place_le {m : Nat} (hd : 0 < d) (h : 2 * n ≤ (unitsOf m + unitsOf (m + 1)) * d)
    (hodd : m % 2 = 1 → 2 * n < (unitsOf m + unitsOf (m + 1)) * d) : place n d ≤ m := by
  by_contra hgt
  rw [Nat.not_le] at hgt
  have hd' : (0 : ℚ) < d := Nat.cast_pos.mpr hd
  have habove : (unitsOf (m + 1) : ℚ) ≤ unitsOf (place n d) :=
    Nat.cast_le.mpr (unitsOf_strictMono.monotone hgt)
  have hless : (unitsOf m : ℚ) < unitsOf (place n d) := Nat.cast_lt.mpr (unitsOf_lt_unitsOf hgt)
  have hx : (n / d : ℚ) ≤ ((unitsOf m : ℚ) + unitsOf (m + 1)) / 2 := by
    rw [div_le_div_iff₀ hd' two_pos]
    exact_mod_cast (Nat.mul_comm n 2).trans_le h
  have hmid := eq_mid_of_below hless (by linarith) (place_closest hd m)
  have heven := place_even_of_tie hd (Nat.ne_of_lt hgt)
    (by rw [hmid]; exact (abs_mid_symm _ _).symm)
  have hnext : unitsOf (place n d) = unitsOf (m + 1) := by
    rw [← Nat.cast_inj (R := ℚ)]
    linarith
  have hnext' := unitsOf_strictMono.injective hnext
  have hx' : (n / d : ℚ) < ((unitsOf m : ℚ) + unitsOf (m + 1)) / 2 := by
    rw [div_lt_div_iff₀ hd' two_pos]
    exact_mod_cast (Nat.mul_comm n 2).trans_lt (hodd (by omega))
  linarith

theorem abs_sub_lt_of_between {a b c x : ℚ} (hac : a < c) (hcb : c < b)
    (h : |a - x| = |b - x|) : |c - x| < |a - x| := by
  have hx : x = (a + b) / 2 := by
    rcases abs_eq_abs.mp h with h | h <;> linarith
  rw [abs_of_neg (a := a - x) (by linarith), abs_lt]
  constructor <;> linarith

/-- The place of a quotient is the only magnitude that is as close as it and even in a tie. -/
theorem eq_place {m : Nat} (hd : 0 < d)
    (hclosest : |(unitsOf m : ℚ) - n / d| ≤ |(unitsOf (place n d) : ℚ) - n / d|)
    (heven : place n d ≠ m → |(unitsOf (place n d) : ℚ) - n / d| = |(unitsOf m : ℚ) - n / d| →
      m % 2 = 0) : m = place n d := by
  by_contra hne
  have htie := le_antisymm hclosest (place_closest hd m)
  have hplace := place_even_of_tie hd hne htie
  have hm := heven (Ne.symm hne) htie.symm
  -- Two even magnitudes have one between them, and that would be closer.
  have hbetween {a b : Nat} (h : a + 1 < b)
      (heq : |(unitsOf a : ℚ) - n / d| = |(unitsOf b : ℚ) - n / d|) :
      |(unitsOf (a + 1) : ℚ) - n / d| < |(unitsOf a : ℚ) - n / d| :=
    abs_sub_lt_of_between (Nat.cast_lt.mpr (unitsOf_lt_unitsOf (Nat.lt_succ_self a)))
      (Nat.cast_lt.mpr (unitsOf_lt_unitsOf h)) heq
  rcases Nat.lt_or_gt_of_ne hne with hlt | hgt
  · have hcloser := hbetween (by omega) htie
    exact (hcloser.trans_eq htie).not_ge (place_closest hd (m + 1))
  · exact (hbetween (by omega) htie.symm).not_ge (place_closest hd (place n d + 1))

/-- Past infinity infinity would be closer. -/
theorem place_le_of_closest {m : Nat} (hd : 0 < d) (hm : m < infinityMagnitude)
    (hclosest : |(unitsOf m : ℚ) - n / d| ≤ |(unitsOf infinityMagnitude : ℚ) - n / d|) :
    place n d ≤ infinityMagnitude := by
  by_contra hgt
  have hd' : (0 : ℚ) < d := Nat.cast_pos.mpr hd
  have hless : (unitsOf m : ℚ) < unitsOf infinityMagnitude :=
    Nat.cast_lt.mpr (unitsOf_lt_unitsOf hm)
  have habove : (unitsOf infinityMagnitude : ℚ) ≤ n / d := by
    by_contra hlt
    rw [not_le, div_lt_iff₀ hd'] at hlt
    have hlt' : n < unitsOf infinityMagnitude * d := by exact_mod_cast hlt
    have hnext := Nat.mul_le_mul_right d (Nat.le_of_lt
      (unitsOf_lt_unitsOf (Nat.lt_add_one infinityMagnitude)))
    refine hgt (place_le hd ?_ fun hodd => absurd hodd (by decide))
    rw [Nat.add_mul]
    omega
  rw [abs_of_nonpos (sub_nonpos.mpr habove), abs_of_neg (by linarith)] at hclosest
  linarith

/-- Twice the least quotient that overflows. -/
def overflowUnits : Nat := unitsOf (infinityMagnitude - 1) + unitsOf infinityMagnitude

theorem nearestMagnitude_lt_iff (hd : 0 < d) :
    nearestMagnitude n d < infinityMagnitude ↔ 2 * n < overflowUnits * d := by
  have hmin : nearestMagnitude n d < infinityMagnitude ↔ place n d < infinityMagnitude := by
    rw [nearestMagnitude_eq_min]
    omega
  rw [hmin]
  constructor
  · intro h
    by_contra hge
    have := le_place (m := infinityMagnitude) hd (Nat.le_of_not_lt hge)
      fun hodd => absurd hodd (by decide)
    omega
  · intro h
    have := place_le (m := infinityMagnitude - 1) hd (Nat.le_of_lt h) fun _ => h
    exact Nat.lt_of_le_of_lt this (by decide)

/-- A rounded quotient is off by half a step: in relation to the quotient, unless that is so small
that the steps get no finer. -/
theorem abs_unitsOf_place_sub_le (hd : 0 < d) :
    |(unitsOf (place n d) : ℚ) - n / d| ≤
      max (1 / 2) ((n : ℚ) / d / 2 ^ 53) := by
  refine (abs_unitsOf_place_sub hd).trans ?_
  by_cases h : gridExponent (n / d) = 0
  · rw [h]
    exact (le_of_eq (by norm_num)).trans (le_max_left _ _)
  · refine le_trans ?_ (le_max_right _ _)
    have hle := (Nat.le_div_iff_mul_le hd).mp (le_of_gridExponent h)
    have hle' : (2 ^ 52 * 2 ^ gridExponent (n / d) * d : ℚ) ≤ n := by exact_mod_cast hle
    rw [div_div, div_le_div_iff₀ two_pos (by positivity)]
    linarith

/-- Rounding leaves at least half of a whole number of steps. -/
theorem le_two_mul_unitsOf_nearestMagnitude {n : Nat}
    (h : nearestMagnitude n 1 < infinityMagnitude) :
    n ≤ 2 * unitsOf (nearestMagnitude n 1) := by
  rcases Nat.eq_zero_or_pos n with rfl | hn
  · exact Nat.zero_le _
  have hplace : nearestMagnitude n 1 = place n 1 := by
    have hmin := nearestMagnitude_eq_min n 1
    omega
  have hclose := abs_unitsOf_place_sub_le (n := n) Nat.one_pos
  have hone : (1 : ℚ) ≤ n := by exact_mod_cast hn
  have hhalf : max (1 / 2) ((n : ℚ) / (1 : Nat) / 2 ^ 53) ≤ (n : ℚ) / 2 := by
    refine max_le (by linarith) ?_
    rw [Nat.cast_one, div_one]
    exact div_le_div_of_nonneg_left (by linarith) two_pos (by norm_num)
  have hlow := (abs_le.mp (hclose.trans hhalf)).1
  rw [Nat.cast_one, div_one] at hlow
  have hcast : (n : ℚ) ≤ 2 * unitsOf (place n 1) := by linarith
  rw [hplace]
  exact_mod_cast hcast

theorem one_le_nearestMagnitude {n d : Nat} (hd : 0 < d) (h : d ≤ n) :
    1 ≤ nearestMagnitude n d := by
  have hone : nearestMagnitude 1 1 = 1 := by decide +kernel
  calc 1 = nearestMagnitude 1 1 := hone.symm
    _ ≤ nearestMagnitude n d := nearestMagnitude_mono Nat.one_pos hd (by omega)

end Binary64

end RegressionGate
