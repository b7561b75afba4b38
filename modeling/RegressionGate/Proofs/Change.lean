import RegressionGate.Proofs.Binary64.Arithmetic
import RegressionGate.Proofs.Comparison

/-! The change of one benchmark against the threshold. Where the difference of the durations needs
no rounding and is exactly the threshold's share of the baseline, dividing by the baseline gives
what dividing the threshold by 100 gives, so that the threshold alone decides. -/

namespace RegressionGate

open Binary64

variable {base ns t : Binary64}

/-! ### The sign and the size of a change -/

theorem magnitude_ne_zero_of_pos (h : 0 < base.value) : ¬base.IsZero := by
  rw [value_pos] at h
  intro hzero
  have habs := natAbs_units base
  rw [hzero] at habs
  have hnone : unitsOf 0 = 0 := unitsOf_eq_zero_iff.mpr rfl
  omega

theorem negative_sub (hns : ns.IsFinite) (hbase : base.IsFinite) (hpos : 0 < base.value)
    (hns0 : 0 ≤ ns.value) : (ns - base).negative = decide (ns.value < base.value) := by
  rw [sub_of_isFinite hns hbase]
  by_cases heq : ns.units = base.units
  · have hnot : ¬ns.value < base.value := by
      rw [value_lt_value, heq]
      exact Int.lt_irrefl _
    have hnonzero : ¬ns.IsZero := by
      apply magnitude_ne_zero_of_pos
      rwa [value_pos, heq, ← value_pos]
    rw [if_pos heq, decide_eq_false hnot, negative_of_nonneg hns0 hnonzero]
    rfl
  · rw [if_neg heq]
    exact decide_eq_decide.mpr value_lt_value.symm

/-- A change is a number, and negative when the duration is below the baseline. -/
theorem changePercent_sign (hns : ns.IsFinite) (hbase : base.IsFinite) (hpos : 0 < base.value)
    (hns0 : 0 ≤ ns.value) : ¬(changePercent base ns).IsNaN ∧
      (changePercent base ns).negative = decide (ns.value < base.value) := by
  have hzero := magnitude_ne_zero_of_pos hpos
  have hdiff := isFinite_sub_of_nonneg hns hbase hns0 (Rat.le_of_lt hpos)
  have hquot : ¬((ns - base) / base).IsNaN ∧
      ((ns - base) / base).negative = decide (ns.value < base.value) := by
    rw [div_of_isFinite hdiff hbase hzero]
    refine ⟨not_isNaN_ofRatio _ _ _, ?_⟩
    show ((ns - base).negative ^^ base.negative) = _
    rw [negative_of_nonneg (Rat.le_of_lt hpos) hzero, Bool.xor_false,
      negative_sub hns hbase hpos hns0]
  obtain ⟨hnan, hneg⟩ := mul_of_isFinite (y := 100) hquot.1 (by decide +kernel) (by decide +kernel)
  refine ⟨hnan, hneg.trans ?_⟩
  rw [hquot.2]
  exact Bool.xor_false _

/-- In multiples of the step of all magnitudes: a change is exactly the threshold's share. -/
theorem units_mul_of_exact (hpos : 0 < base.value) (ht0 : 0 ≤ t.value)
    (hexact : |ns.value - base.value| * 100 = t.value * base.value)
    (hsub : (ns - base).value = ns.value - base.value) :
    unitsOf (ns - base).magnitude * (100 * oneUnits) =
      unitsOf t.magnitude * unitsOf base.magnitude := by
  have hone : (oneUnits : ℚ) ≠ 0 := Nat.cast_ne_zero.mpr (Nat.ne_of_gt oneUnits_pos)
  have hdiff : |ns.value - base.value| = (unitsOf (ns - base).magnitude : ℚ) / oneUnits := by
    rw [← hsub, value, abs_div, Nat.abs_cast, ← natAbs_units, Nat.cast_natAbs, Int.cast_abs]
  have hbase : base.value = (unitsOf base.magnitude : ℚ) / oneUnits := by
    rw [value, units_of_nonneg (Rat.le_of_lt hpos), Int.cast_natCast]
  have ht : t.value = (unitsOf t.magnitude : ℚ) / oneUnits := by
    rw [value, units_of_nonneg ht0, Int.cast_natCast]
  rw [hdiff, hbase, ht] at hexact
  field_simp at hexact
  rw [Nat.mul_comm 100, ← Nat.mul_assoc]
  exact_mod_cast hexact

theorem abs_changePercent (hns : ns.IsFinite) (hbase : base.IsFinite) (ht : t.IsFinite)
    (hpos : 0 < base.value) (hns0 : 0 ≤ ns.value) (ht0 : 0 ≤ t.value)
    (hexact : |ns.value - base.value| * 100 = t.value * base.value)
    (hsub : (ns - base).value = ns.value - base.value) :
    (changePercent base ns).abs = (t / 100 * 100).abs := by
  have hzero := magnitude_ne_zero_of_pos hpos
  have hbasePos : 0 < unitsOf base.magnitude :=
    Nat.pos_of_ne_zero (mt unitsOf_eq_zero_iff.mp hzero)
  have hdiff := isFinite_sub_of_nonneg hns hbase hns0 (Rat.le_of_lt hpos)
  have hhundred : unitsOf (100 : Binary64).magnitude = 100 * oneUnits := by decide +kernel
  have hhundredPos : 0 < 100 * oneUnits := Nat.mul_pos (by decide) oneUnits_pos
  have hquot : (ns - base).abs / base.abs = t.abs / Binary64.abs 100 := by
    rw [div_of_isFinite (x := (ns - base).abs) (y := base.abs) hdiff hbase hzero,
      div_of_isFinite (x := t.abs) (y := Binary64.abs 100) ht (by decide +kernel)
        (by decide +kernel)]
    simp only [magnitude_abs, hhundred]
    apply ofRatio_congr rfl hbasePos hhundredPos
    rw [Nat.mul_right_comm, units_mul_of_exact hpos ht0 hexact hsub, Nat.mul_right_comm]
  rw [changePercent, Binary64.abs_mul, Binary64.abs_div, hquot, Binary64.abs_mul, Binary64.abs_div]

/-- Thresholds up to 50, and up to 100 for a duration above the baseline, leave the durations close
enough for an exact difference. -/
theorem value_sub_of_exact (hns : ns.IsFinite) (hbase : base.IsFinite) (hpos : 0 < base.value)
    (hexact : |ns.value - base.value| * 100 = t.value * base.value)
    (ht : t.value ≤ 50 ∨ t.value ≤ 100 ∧ base.value ≤ ns.value) :
    (ns - base).value = ns.value - base.value := by
  have hclose : ns.value ≤ 2 * base.value ∧ base.value ≤ 2 * ns.value := by
    obtain ⟨hlow, hhigh⟩ := abs_le.mp (le_refl |ns.value - base.value|)
    have hshare {k : ℚ} (hk : t.value ≤ k) : |ns.value - base.value| * 100 ≤ k * base.value := by
      rw [hexact]
      exact mul_le_mul_of_nonneg_right hk (Rat.le_of_lt hpos)
    rcases ht with ht | ⟨ht, hle⟩
    · have hhalf := hshare ht
      constructor <;> linarith
    · have hwhole := hshare ht
      constructor <;> linarith
  have hunits := units_sub_of_close hns hbase hclose.1 hclose.2
  rw [value, value, value, hunits, Int.cast_sub, sub_div]

/-! ### One benchmark -/

theorem compareRuns_single (b : Benchmark) (base ns t : Binary64) :
    compareRuns (.ofList [(b, base)]) (.ofList [(b, ns)]) t =
      classify t (Comparison.of? b.name base ns).toList := by
  have hget : (EstimateSet.ofList [(b, base)]).get? b = some base := List.lookup_cons_self
  have hentries : (EstimateSet.ofList [(b, ns)]).entries = [(b, ns)] := rfl
  rw [compareRuns, comparisons, hentries]
  congr 1
  simp only [List.filterMap_cons, hget, Option.bind_some, List.filterMap_nil]
  cases Comparison.of? b.name base ns <;> rfl

theorem classify_singleton (t : Binary64) (e : Comparison) :
    classify t [e] = if e.IsRegression t then ⟨[e], [], []⟩
      else if e.IsImprovement t then ⟨[], [e], []⟩ else ⟨[], [], [e]⟩ := by
  by_cases hr : e.IsRegression t
  · simp [classify, hr, Comparison.IsImprovement]
  · by_cases hi : e.IsImprovement t <;> simp [classify, hr, hi]

/-! ### The threshold -/

theorem lt_abs_iff (ht : t.IsFinite) (ht0 : 0 ≤ t.value) {x : Binary64} (hx : ¬x.IsNaN) :
    t < x.abs ↔ t.magnitude < x.magnitude := by
  have hrank : x.abs.rank = x.magnitude := rfl
  rw [Binary64.lt_def, rank_of_nonneg ht0, hrank, Int.ofNat_lt]
  exact ⟨fun h => h.2.2, fun h => ⟨ht.not_isNaN, hx, h⟩⟩

theorem lt_iff_of_not_negative (ht0 : 0 ≤ t.value) {x : Binary64} (hneg : x.negative = false) :
    (t < x ↔ t < x.abs) ∧ ¬x < -t := by
  have habs : x.abs = x := by
    obtain ⟨n, m, hm⟩ := x
    cases hneg
    rfl
  refine ⟨by rw [habs], fun h => ?_⟩
  obtain ⟨-, -, h⟩ := Binary64.lt_def.mp h
  rw [rank_neg, rank_of_nonneg ht0, rank, hneg] at h
  simp only [Bool.false_eq_true, if_false] at h
  omega

theorem lt_iff_of_negative (ht : t.IsFinite) (ht0 : 0 ≤ t.value) {x : Binary64} (hx : ¬x.IsNaN)
    (hneg : x.negative = true) : ¬t < x ∧ (x < -t ↔ t < x.abs) := by
  have hrank : x.rank = -x.magnitude := by rw [rank, if_pos hneg]
  constructor
  · rw [Binary64.lt_def, rank_of_nonneg ht0, hrank]
    omega
  · rw [lt_abs_iff ht ht0 hx, Binary64.lt_def, rank_neg, rank_of_nonneg ht0, hrank]
    have hnan : ¬(-t).IsNaN := ht.not_isNaN
    constructor
    · rintro ⟨-, -, h⟩
      omega
    · intro h
      exact ⟨hx, hnan, by omega⟩

/-- The size of a change decides whether it counts, its sign where. -/
theorem compareRuns_single_eq (b : Benchmark) (hbase : base.IsFinite) (hns : ns.IsFinite)
    (ht : t.IsFinite) (hpos : 0 < base.value) (hns0 : 0 ≤ ns.value) (ht0 : 0 ≤ t.value)
    {e : Comparison} (he : e = ⟨b.name, base, ns, changePercent base ns⟩) :
    compareRuns (.ofList [(b, base)]) (.ofList [(b, ns)]) t =
      if e.change.IsFinite then
        if t < e.change.abs then
          if ns.value < base.value then ⟨[], [e], []⟩ else ⟨[e], [], []⟩
        else ⟨[], [], [e]⟩
      else ⟨[], [], []⟩ := by
  obtain ⟨hnan, hneg⟩ := changePercent_sign hns hbase hpos hns0
  have hchange : e.change = changePercent base ns := by rw [he]
  rw [compareRuns_single]
  by_cases hfinite : e.change.IsFinite
  · have hof : Comparison.of? b.name base ns = some e :=
      Comparison.of?_eq_some_iff.mpr ⟨magnitude_ne_zero_of_pos hpos, hchange ▸ hfinite, he⟩
    rw [if_pos hfinite, hof, Option.toList_some, classify_singleton]
    simp only [Comparison.IsRegression, Comparison.IsImprovement, hchange]
    by_cases hlt : ns.value < base.value
    · obtain ⟨habove, hbelow⟩ := lt_iff_of_negative ht ht0 hnan (hneg.trans (decide_eq_true hlt))
      simp only [habove, hbelow, hlt, not_false_eq_true, true_and, if_false, if_true]
    · obtain ⟨habove, hbelow⟩ := lt_iff_of_not_negative ht0 (hneg.trans (decide_eq_false hlt))
      simp only [habove, hbelow, hlt, and_false, if_false]
  · have hof : Comparison.of? b.name base ns = none := by
      rw [Comparison.of?, if_neg]
      intro h
      exact hfinite (hchange ▸ h.2)
    rw [if_neg hfinite, hof]
    rfl

/-- A change of exactly the threshold is unchanged if and only if its computed size is not above
the threshold. For thresholds up to 50, up to 100 for a duration above the baseline, and wherever
the difference of the durations needs no rounding, that is a matter of the threshold alone: whether
dividing it by 100 and multiplying it again leads above it. -/
theorem compareRuns_exact_threshold (b : Benchmark) (hbase : base.IsFinite) (hns : ns.IsFinite)
    (ht : t.IsFinite) (hpos : 0 < base.value) (hns0 : 0 ≤ ns.value) (ht0 : 0 ≤ t.value)
    (hexact : |ns.value - base.value| * 100 = t.value * base.value) {e : Comparison}
    (he : e = ⟨b.name, base, ns, changePercent base ns⟩) {c : Classification}
    (hc : c = compareRuns (.ofList [(b, base)]) (.ofList [(b, ns)]) t) :
    (c = ⟨[], [], [e]⟩ ↔ ¬t < e.change.abs) ∧
      (t < e.change.abs → c =
        if e.change.IsFinite then
          if ns.value < base.value then ⟨[], [e], []⟩ else ⟨[e], [], []⟩
        else ⟨[], [], []⟩) ∧
      ((t.value ≤ 50 ∨ t.value ≤ 100 ∧ base.value ≤ ns.value) ∨
          (ns - base).value = ns.value - base.value →
        (t < e.change.abs ↔ t < (t / 100 * 100).abs)) := by
  have hsingle := compareRuns_single_eq b hbase hns ht hpos hns0 ht0 he
  obtain ⟨hnan, -⟩ := changePercent_sign hns hbase hpos hns0
  have hchange : e.change = changePercent base ns := by rw [he]
  have habove (h : t < e.change.abs) : c =
      if e.change.IsFinite then
        if ns.value < base.value then ⟨[], [e], []⟩ else ⟨[e], [], []⟩
      else ⟨[], [], []⟩ := by
    rw [hc, hsingle, if_pos h]
  refine ⟨⟨fun h hlt => ?_, fun h => ?_⟩, habove, fun h => ?_⟩
  · rw [habove hlt] at h
    split at h
    · split at h <;> simp at h
    · simp at h
  · have hfinite : e.change.IsFinite := by
      rw [hchange, lt_abs_iff ht ht0 hnan, Nat.not_lt] at h
      rw [hchange]
      exact Nat.lt_of_le_of_lt h ht
    rw [hc, hsingle, if_pos hfinite, if_neg h]
  · have hsub : (ns - base).value = ns.value - base.value :=
      h.elim (value_sub_of_exact hns hbase hpos hexact) id
    rw [hchange, abs_changePercent hns hbase ht hpos hns0 ht0 hexact hsub]

/-- From 100 to 107 the change is exactly 7 percent, and computed to be above that. -/
theorem compareRuns_at_seven :
    |(107 : Binary64).value - (100 : Binary64).value| * 100 =
        (7 : Binary64).value * (100 : Binary64).value ∧
      compareRuns (.ofList [(⟨"g", "a"⟩, 100)]) (.ofList [(⟨"g", "a"⟩, 107)]) 7 =
        ⟨[⟨"g/a", 100, 107, changePercent 100 107⟩], [], []⟩ := by
  have hexact : |(107 : Binary64).value - (100 : Binary64).value| * 100 =
      (7 : Binary64).value * (100 : Binary64).value := by decide +kernel
  obtain ⟨-, habove, hthreshold⟩ := compareRuns_exact_threshold (t := 7) ⟨"g", "a"⟩
    (by decide +kernel) (by decide +kernel) (by decide +kernel) (by decide +kernel)
    (by decide +kernel) (by decide +kernel) hexact rfl rfl
  have hlt := (hthreshold (.inl (.inl (by decide +kernel)))).mpr (by decide +kernel)
  refine ⟨hexact, ?_⟩
  rw [habove hlt, if_pos (by decide +kernel), if_neg (by decide +kernel)]
  rfl

end RegressionGate
