import RegressionGate.Proofs.Change
import RegressionGate.Proofs.Comparison.Partition

/-! The change of a benchmark as its duration grows: it never falls, and it only leaves the range
upwards. So a growing duration leads from the improvements past the unchanged to the regressions
and, where the change gets too great, out of the comparison, and never back. -/

namespace RegressionGate

open Binary64

variable {base ns ns' t : Binary64}

/-! ### Changes in order -/

theorem isFinite_hundred : (100 : Binary64).IsFinite := by decide +kernel

theorem hundred_pos : (0 : Binary64) < 100 := by decide +kernel

theorem changePercent_mono (hbase : base.IsFinite) (hpos : 0 < base) (hns : ns.IsFinite)
    (hns' : ns'.IsFinite) (h0 : 0 ≤ ns) (hle : ns ≤ ns') :
    changePercent base ns ≤ changePercent base ns' := by
  have hbase0 : 0 ≤ base.value := ((pos_iff hbase).mp hpos).le
  have hns0 : 0 ≤ ns.value := (nonneg_iff hns).mp h0
  have hns0' : 0 ≤ ns'.value := (nonneg_iff hns').mp (Binary64.le_trans h0 hle)
  have hdiff := isFinite_sub_of_nonneg hns hbase hns0 hbase0
  have hdiff' := isFinite_sub_of_nonneg hns' hbase hns0' hbase0
  have hsub := Binary64.sub_le_sub_right hns hns' hbase hle
  have hdiv := Binary64.div_le_div_right hdiff hdiff' hbase hpos hsub
  exact Binary64.mul_le_mul_right isFinite_hundred hundred_pos hdiv

/-- Nothing gets faster by more than all of its time. -/
theorem neg_hundred_le_changePercent (hbase : base.IsFinite) (hpos : 0 < base)
    (hns : ns.IsFinite) (h0 : 0 ≤ ns) : -100 ≤ changePercent base ns := by
  have hbaseValue := (pos_iff hbase).mp hpos
  have hnsValue : 0 ≤ ns.value := (nonneg_iff hns).mp h0
  have hdiff := isFinite_sub_of_nonneg hns hbase hnsValue hbaseValue.le
  have hneg : (-base).IsFinite := hbase
  have hone : (-1 : Binary64).IsFinite := by decide +kernel
  have hsub : -base ≤ ns - base := by
    refine ⟨hneg.not_isNaN, not_isNaN_sub hns hbase, ?_⟩
    rw [rank_sub hns hbase, ← rank_round_value hneg, value_neg]
    exact rank_round_mono (by linarith)
  have hdiv : -1 ≤ (ns - base) / base := by
    have hzero := not_isZero_of_lt hpos
    refine Binary64.le_trans ⟨hone.not_isNaN, not_isNaN_div hneg hbase hzero, ?_⟩
      (Binary64.div_le_div_right hneg hdiff hbase hpos hsub)
    have hvalue : (-1 : Binary64).value = -1 := by decide +kernel
    rw [rank_div hneg hbase hzero, value_neg, neg_div, div_self hbaseValue.ne', ← hvalue,
      rank_round_value hone]
  have hmul := Binary64.mul_le_mul_right isFinite_hundred hundred_pos hdiv
  have hhundred : (-1 : Binary64) * 100 = -100 := by decide +kernel
  rwa [hhundred] at hmul

/-- A change is out of range only when it is too great. -/
theorem changePercent_eq_infinity_iff (hbase : base.IsFinite) (hpos : 0 < base)
    (hns : ns.IsFinite) (h0 : 0 ≤ ns) :
    changePercent base ns = infinity false ↔ ¬(changePercent base ns).IsFinite := by
  constructor
  · intro h
    rw [h]
    decide
  · intro hout
    obtain ⟨-, hnan, hrank⟩ := neg_hundred_le_changePercent hbase hpos hns h0
    have hlow : -(infinityMagnitude : Int) < (-100 : Binary64).rank := by decide +kernel
    have hinf : (changePercent base ns).IsInfinite := by
      by_contra hinf
      exact hout (isFinite_of_not hnan hinf)
    exact eq_infinity_of_rank ((isInfinite_iff_rank.mp hinf).resolve_left (by omega))

theorem isFinite_changePercent_of_le (hbase : base.IsFinite) (hpos : 0 < base)
    (hns : ns.IsFinite) (hns' : ns'.IsFinite) (h0 : 0 ≤ ns) (hle : ns ≤ ns')
    (h : (changePercent base ns').IsFinite) : (changePercent base ns).IsFinite := by
  by_contra hout
  have htop := (changePercent_eq_infinity_iff hbase hpos hns h0).mpr hout
  obtain ⟨-, hnan, hrank⟩ := changePercent_mono hbase hpos hns hns' h0 hle
  have hinf : (infinity false).rank = infinityMagnitude := rfl
  have hbound := (rank_le_of_not_isNaN hnan).2
  rw [htop, hinf] at hrank
  exact h.not_isInfinite (isInfinite_iff_rank.mpr (.inr (by omega)))

/-! ### Stages -/

/-- What a comparison of two runs makes of a benchmark. -/
inductive Stage
  | improvement
  | unchanged
  | regression
  | dropped
deriving DecidableEq, Repr

/-- The place of a stage among those that a growing duration leads through. -/
def Stage.index : Stage → Nat
  | improvement => 0
  | unchanged => 1
  | regression => 2
  | dropped => 3

/-- The stage of a change under a threshold. -/
def Stage.ofChange (t x : Binary64) : Stage :=
  if x.IsFinite then if t < x then regression else if x < -t then improvement else unchanged
  else dropped

theorem Stage.ofChange_eq_dropped_iff {x : Binary64} : ofChange t x = dropped ↔ ¬x.IsFinite := by
  rw [ofChange]
  constructor
  · intro h hfinite
    rw [if_pos hfinite] at h
    split at h
    · cases h
    · split at h <;> cases h
  · exact fun hout => if_neg hout

/-- A greater change is not at an earlier stage. -/
theorem Stage.index_ofChange_mono {x y : Binary64} (hle : x ≤ y)
    (hfinite : y.IsFinite → x.IsFinite) : (ofChange t x).index ≤ (ofChange t y).index := by
  by_cases hy : y.IsFinite
  · have hx := hfinite hy
    rw [ofChange, ofChange, if_pos hx, if_pos hy]
    by_cases hworse : t < x
    · rw [if_pos hworse, if_pos (Binary64.lt_of_lt_of_le hworse hle)]
    · rw [if_neg hworse]
      by_cases hbetter : y < -t
      · rw [if_pos (Binary64.lt_of_le_of_lt hle hbetter)]
        exact Nat.zero_le _
      · rw [if_neg hbetter]
        split <;> split <;> decide
  · rw [ofChange_eq_dropped_iff.mpr hy]
    cases ofChange t x <;> decide

/-- The comparison of two durations of a benchmark, be their change in range or not. -/
def Benchmark.compared (b : Benchmark) (base ns : Binary64) : Comparison :=
  ⟨b.name, base, ns, changePercent base ns⟩

/-- The list of a classification in which a comparison is. -/
def Classification.stage (c : Classification) (e : Comparison) : Stage :=
  if e ∈ c.improvements then .improvement
  else if e ∈ c.unchanged then .unchanged
  else if e ∈ c.regressions then .regression
  else .dropped

section Runs

variable {baseline current current' : EstimateSet} {b : Benchmark}

theorem compared_mem_comparisons (hbase : baseline.get? b = some base)
    (hns : current.get? b = some ns) (hzero : ¬base.IsZero) :
    b.compared base ns ∈ comparisons baseline current ↔ (changePercent base ns).IsFinite := by
  rw [mem_comparisons]
  constructor
  · rintro ⟨b', h⟩
    exact isFinite_of_comparison? h
  · intro hfinite
    exact ⟨b, comparison?_eq_some_iff.mpr ⟨base, ns, hbase, hns,
      Comparison.of?_eq_some_iff.mpr ⟨hzero, hfinite, rfl⟩⟩⟩

/-- The change of a benchmark says where it is. -/
theorem stage_compareRuns (hbase : baseline.get? b = some base) (hns : current.get? b = some ns)
    (hzero : ¬base.IsZero) :
    (compareRuns baseline current t).stage (b.compared base ns) =
      .ofChange t (changePercent base ns) := by
  have hmem := compared_mem_comparisons hbase hns hzero
  have hregression : (b.compared base ns).IsRegression t ↔ t < changePercent base ns := Iff.rfl
  have himprovement : (b.compared base ns).IsImprovement t ↔
      ¬t < changePercent base ns ∧ changePercent base ns < -t := Iff.rfl
  simp only [Classification.stage, Stage.ofChange, compareRuns, classify, List.mem_filter, hmem,
    decide_eq_true_eq, hregression, himprovement]
  by_cases hfinite : (changePercent base ns).IsFinite
  · by_cases hworse : t < changePercent base ns
    · simp [hfinite, hworse]
    · by_cases hbetter : changePercent base ns < -t <;> simp [hfinite, hworse, hbetter]
  · simp [hfinite]

end Runs

/-- Of two durations with the same baseline the less is compared if the greater is, and has the
lesser change. The stage of a benchmark in the comparison of two runs, whatever else these hold and
whatever the threshold, only advances as its duration grows, and it is dropped at the end of all
when its change overflows. -/
theorem compareRuns_monotone (hbase : base.IsFinite) (hpos : 0 < base) (hns : ns.IsFinite)
    (hns' : ns'.IsFinite) (h0 : 0 ≤ ns) (hle : ns ≤ ns') :
    (∀ name e', Comparison.of? name base ns' = some e' →
      ∃ e, Comparison.of? name base ns = some e ∧ e.change ≤ e'.change) ∧
    ∀ (t : Binary64) (b : Benchmark) (baseline current current' : EstimateSet),
      baseline.get? b = some base → current.get? b = some ns → current'.get? b = some ns' →
        ((compareRuns baseline current t).stage (b.compared base ns)).index ≤
          ((compareRuns baseline current' t).stage (b.compared base ns')).index ∧
        ((compareRuns baseline current' t).stage (b.compared base ns') = .dropped ↔
          changePercent base ns' = infinity false) := by
  have hzero := not_isZero_of_lt hpos
  have hmono := changePercent_mono hbase hpos hns hns' h0 hle
  have hkept := isFinite_changePercent_of_le hbase hpos hns hns' h0 hle
  refine ⟨fun name e' he' => ?_, fun t b baseline current current' hb hc hc' => ⟨?_, ?_⟩⟩
  · obtain ⟨-, hfinite, rfl⟩ := Comparison.of?_eq_some_iff.mp he'
    exact ⟨_, Comparison.of?_eq_some_iff.mpr ⟨hzero, hkept hfinite, rfl⟩, hmono⟩
  · rw [stage_compareRuns hb hc hzero, stage_compareRuns hb hc' hzero]
    exact Stage.index_ofChange_mono hmono hkept
  · rw [stage_compareRuns hb hc' hzero, Stage.ofChange_eq_dropped_iff,
      changePercent_eq_infinity_iff hbase hpos hns' (Binary64.le_trans h0 hle)]

/-- From the least number above zero on the way up to 100 the change gets out of range. -/
theorem compareRuns_monotone_least :
    (0 : Binary64) < .ofBits 1 ∧ (.ofBits 1 : Binary64) ≤ 100 ∧
      ∃ e baseline current current',
        baseline = EstimateSet.ofList [(⟨"g", "a"⟩, .ofBits 1)] ∧
        current = EstimateSet.ofList [(⟨"g", "a"⟩, .ofBits 1)] ∧
        current' = EstimateSet.ofList [(⟨"g", "a"⟩, 100)] ∧
        e = Benchmark.compared ⟨"g", "a"⟩ (.ofBits 1) 100 ∧
        ((compareRuns baseline current 10).stage
            (Benchmark.compared ⟨"g", "a"⟩ (.ofBits 1) (.ofBits 1))).index ≤
          ((compareRuns baseline current' 10).stage e).index ∧
        (compareRuns baseline current' 10).stage e = .dropped := by
  have hpos : (0 : Binary64) < .ofBits 1 := by decide +kernel
  have hle : (.ofBits 1 : Binary64) ≤ 100 := by decide +kernel
  obtain ⟨-, hstage⟩ := @compareRuns_monotone (.ofBits 1) (.ofBits 1) 100 (by decide +kernel) hpos
    (by decide +kernel) (by decide +kernel) (by decide +kernel) hle
  obtain ⟨hindex, hdropped⟩ := hstage 10 ⟨"g", "a"⟩ (.ofList [(⟨"g", "a"⟩, .ofBits 1)])
    (.ofList [(⟨"g", "a"⟩, .ofBits 1)]) (.ofList [(⟨"g", "a"⟩, 100)])
    List.lookup_cons_self List.lookup_cons_self List.lookup_cons_self
  exact ⟨hpos, hle, _, _, _, _, rfl, rfl, rfl, rfl, hindex, hdropped.mpr (by decide +kernel)⟩

end RegressionGate
