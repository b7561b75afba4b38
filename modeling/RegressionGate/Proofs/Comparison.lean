import RegressionGate.Comparison
import RegressionGate.Proofs.Estimate.Set

/-! The comparison of two runs as a join: one comparison at most for each benchmark that both runs
have, and each comparison in just one of the three lists. -/

namespace RegressionGate

/-- The comparison of a benchmark that both runs have. -/
def comparison? (baseline current : EstimateSet) (b : Benchmark) : Option Comparison :=
  (baseline.get? b).bind fun base => (current.get? b).bind fun ns => Comparison.of? b.name base ns

variable {baseline current : EstimateSet} {threshold : Binary64} {b : Benchmark} {c : Comparison}

theorem Comparison.of?_eq_some_iff {name : String} {base ns : Binary64} :
    Comparison.of? name base ns = some c ↔ ¬base.IsZero ∧ (changePercent base ns).IsFinite ∧
      c = ⟨name, base, ns, changePercent base ns⟩ := by
  rw [Comparison.of?]
  by_cases h : ¬base.IsZero ∧ (changePercent base ns).IsFinite
  · rw [if_pos h, Option.some.injEq, eq_comm]
    simp [h]
  · rw [if_neg h, ← and_assoc]
    simp [h]

theorem comparison?_eq_some_iff :
    comparison? baseline current b = some c ↔ ∃ base ns, baseline.get? b = some base ∧
      current.get? b = some ns ∧ Comparison.of? b.name base ns = some c := by
  simp [comparison?, Option.bind_eq_some_iff]

theorem comparisons_eq_filterMap (baseline current : EstimateSet) :
    comparisons baseline current =
      (current.entries.map Prod.fst).filterMap (comparison? baseline current) := by
  rw [comparisons, List.filterMap_map]
  apply List.filterMap_congr
  intro e he
  rw [Function.comp_apply, comparison?, EstimateSet.mem_entries_iff.mp he]
  rfl

def Classification.all (c : Classification) : List Comparison :=
  c.regressions ++ c.improvements ++ c.unchanged

/-- What is filtered for regressions, for improvements and for the rest is all there is. -/
theorem filter_perm {α : Type} (threshold : Binary64) (f : α → Comparison) (as : List α) :
    (as.filter (fun a => decide ((f a).IsRegression threshold)) ++
      as.filter (fun a => decide ((f a).IsImprovement threshold)) ++
      as.filter fun a => decide (¬(f a).IsRegression threshold ∧
        ¬(f a).IsImprovement threshold)).Perm as := by
  have hrest : (as.filter (fun a => decide ((f a).IsImprovement threshold)) ++
      as.filter fun a => decide (¬(f a).IsRegression threshold ∧
        ¬(f a).IsImprovement threshold)).Perm
      (as.filter fun a => !decide ((f a).IsRegression threshold)) := by
    have h := List.filter_append_perm (fun a => decide ((f a).IsImprovement threshold))
      (as.filter fun a => !decide ((f a).IsRegression threshold))
    rw [List.filter_filter, List.filter_filter] at h
    refine .trans (.of_eq ?_) h
    congr 1
    · apply List.filter_congr
      intro a _
      by_cases ha : (f a).IsRegression threshold <;> simp [Comparison.IsImprovement, ha]
    · refine List.filter_congr fun a _ => ?_
      simp [and_comm]
  rw [List.append_assoc]
  exact (hrest.append_left _).trans (List.filter_append_perm _ as)

/-- A comparison is in one of the three lists. -/
theorem classify_perm (threshold : Binary64) (cs : List Comparison) :
    (classify threshold cs).all.Perm cs := filter_perm threshold id cs

/-! ### Regressions -/

/-- The comparison of a benchmark that both runs have, if it is a regression. -/
def regression? (threshold : Binary64) (baseline current : EstimateSet) (b : Benchmark) :
    Option Comparison :=
  (comparison? baseline current b).filter fun c => decide (c.IsRegression threshold)

theorem regression?_isSome_iff :
    (regression? threshold baseline current b).isSome ↔ ∃ base ns,
      baseline.get? b = some base ∧ current.get? b = some ns ∧ ¬base.IsZero ∧
        (changePercent base ns).IsFinite ∧ threshold < changePercent base ns := by
  rw [regression?, Option.isSome_filter, Option.any_eq_true]
  constructor
  · rintro ⟨c, hc, hregression⟩
    obtain ⟨base, ns, hbase, hns, hof⟩ := comparison?_eq_some_iff.mp hc
    obtain ⟨hzero, hfinite, rfl⟩ := Comparison.of?_eq_some_iff.mp hof
    exact ⟨base, ns, hbase, hns, hzero, hfinite, of_decide_eq_true hregression⟩
  · rintro ⟨base, ns, hbase, hns, hzero, hfinite, hregression⟩
    let c : Comparison := ⟨b.name, base, ns, changePercent base ns⟩
    have hof : Comparison.of? b.name base ns = some c :=
      Comparison.of?_eq_some_iff.mpr ⟨hzero, hfinite, rfl⟩
    exact ⟨c, comparison?_eq_some_iff.mpr ⟨base, ns, hbase, hns, hof⟩, decide_eq_true hregression⟩

theorem regressions_eq_filterMap (threshold : Binary64) (baseline current : EstimateSet) :
    (compareRuns baseline current threshold).regressions =
      (current.entries.map Prod.fst).filterMap (regression? threshold baseline current) := by
  rw [compareRuns, classify, comparisons_eq_filterMap, List.filter_filterMap]
  rfl

theorem length_regressions (threshold : Binary64) (baseline current : EstimateSet) :
    ∃ bs : List Benchmark, bs.Nodup ∧
      (∀ b, b ∈ bs ↔ (regression? threshold baseline current b).isSome) ∧
      (compareRuns baseline current threshold).regressions.length = bs.length := by
  refine ⟨(current.entries.map Prod.fst).filter fun b =>
    (regression? threshold baseline current b).isSome, current.nodup_keys.filter _, fun b => ?_, ?_⟩
  · rw [List.mem_filter, and_iff_right_iff_imp, regression?_isSome_iff]
    rintro ⟨base, ns, -, hns, -⟩
    exact List.mem_map.mpr ⟨(b, ns), EstimateSet.mem_entries.mpr hns, rfl⟩
  · rw [regressions_eq_filterMap, List.length_filterMap_eq_countP, List.countP_eq_length_filter]

end RegressionGate
