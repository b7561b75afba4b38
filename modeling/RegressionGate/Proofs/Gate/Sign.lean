import RegressionGate.Proofs.Change.Sign
import RegressionGate.Proofs.Gate.Threshold

/-! What the sign of a change means for runs: under a threshold of zero whatever changed is
counted, and in its direction; a run compared with itself passes; and nothing improves by more than
100 percent. -/

namespace RegressionGate

open Binary64 Estimate

variable {baseline current : EstimateSet} {base ns t : Binary64} {e : Comparison}

/-! ### Durations -/

/-- Whether all values of a set are durations: finite numbers that are not below zero. -/
def EstimateSet.HoldsDurations (s : EstimateSet) : Prop :=
  ∀ b ns, s.get? b = some ns → ns.IsFinite ∧ 0 ≤ ns

theorem holdsDurations_loadEstimates (tree : Tree) (root label : Path) :
    (loadEstimates tree root label).estimates.HoldsDurations := by
  intro b ns h
  obtain ⟨n, -, -, hmean, -⟩ := (get?_load tree.lists_list).mp h
  obtain ⟨content, -, hmeasure⟩ := CaseName.mean?_eq_some_iff.mp hmean
  obtain ⟨-, hfinite, hnonneg⟩ := measure_eq_ok_iff.mp hmeasure
  exact ⟨hfinite, nonneg_of_not_lt hfinite hnonneg⟩

/-- Whether the change of a comparison has the sign of the difference of its durations, and is no
less than a loss of all of the time. -/
structure Comparison.SignExact (e : Comparison) : Prop where
  slower : 0 < e.change ↔ e.baseline < e.current
  faster : e.change < 0 ↔ e.current < e.baseline
  same : e.change.IsZero ↔ e.current = e.baseline
  bounded : -100 ≤ e.change

theorem signExact_of_of? (hbase : base.IsFinite) (hbase0 : 0 ≤ base) (hns : ns.IsFinite)
    (hns0 : 0 ≤ ns) {name : String} (h : Comparison.of? name base ns = some e) :
    e.SignExact := by
  obtain ⟨hzero, -, rfl⟩ := Comparison.of?_eq_some_iff.mp h
  have hpos := pos_of_nonneg hbase0 hzero
  have hbounded := neg_hundred_le_changePercent hbase hpos hns hns0
  rcases changePercent_trichotomy hbase hpos hns hns0 with
    ⟨hlt, hchange⟩ | ⟨hlt, hchange⟩ | ⟨rfl, hchange⟩
  · exact ⟨iff_of_true hchange hlt,
      iff_of_false (Binary64.lt_asymm hchange) (Binary64.lt_asymm hlt),
      iff_of_false (not_isZero_of_lt hchange) (Binary64.ne_of_lt hlt).symm, hbounded⟩
  · exact ⟨iff_of_false (Binary64.lt_asymm hchange) (Binary64.lt_asymm hlt),
      iff_of_true hchange hlt,
      iff_of_false (fun h => h.not_neg hchange) (Binary64.ne_of_lt hlt), hbounded⟩
  · exact ⟨iff_of_false hchange.not_pos (Binary64.lt_irrefl _),
      iff_of_false hchange.not_neg (Binary64.lt_irrefl _), iff_of_true hchange rfl, hbounded⟩

theorem signExact_of_comparison? (hbaseline : baseline.HoldsDurations)
    (hcurrent : current.HoldsDurations) {b : Benchmark}
    (h : comparison? baseline current b = some e) : e.SignExact := by
  obtain ⟨base, ns, hbase, hns, hof⟩ := comparison?_eq_some_iff.mp h
  obtain ⟨hbaseFinite, hbase0⟩ := hbaseline b base hbase
  obtain ⟨hnsFinite, hns0⟩ := hcurrent b ns hns
  exact signExact_of_of? hbaseFinite hbase0 hnsFinite hns0 hof

/-! ### Thresholds at the ends -/

/-- Under a threshold of zero the list that a comparison is in says how the duration changed. -/
theorem mem_compareRuns_zero (ht : t.IsZero) (hsign : e.SignExact)
    (he : e ∈ comparisons baseline current) :
    (e ∈ (compareRuns baseline current t).regressions ↔ e.baseline < e.current) ∧
      (e ∈ (compareRuns baseline current t).improvements ↔ e.current < e.baseline) ∧
        (e ∈ (compareRuns baseline current t).unchanged ↔ e.current = e.baseline) := by
  have hneg : (-t).IsZero := ht
  have hregression : e.IsRegression t ↔ e.baseline < e.current :=
    ht.lt_iff.1.trans hsign.slower
  have himprovement : e.IsImprovement t ↔ e.current < e.baseline := by
    rw [Comparison.IsImprovement, hregression, hneg.lt_iff.2, hsign.faster]
    exact and_iff_right_of_imp Binary64.lt_asymm
  simp only [compareRuns, classify, List.mem_filter, he, true_and, decide_eq_true_eq, hregression,
    himprovement]
  rw [← hsign.same, ← hsign.slower, ← hsign.faster]
  exact (isZero_iff hsign.bounded.2.1).symm

theorem improvements_eq_nil (hbaseline : baseline.HoldsDurations)
    (hcurrent : current.HoldsDurations) (ht : 100 ≤ t) :
    (compareRuns baseline current t).improvements = [] := by
  refine List.filter_eq_nil_iff.mpr fun e he himprovement => ?_
  obtain ⟨b, hb⟩ := mem_comparisons.mp he
  have hbound := (signExact_of_comparison? hbaseline hcurrent hb).bounded.2.2
  have hbelow := (of_decide_eq_true himprovement).2.2.2
  have habove := ht.2.2
  rw [rank_neg] at hbelow hbound
  omega

/-! ### A run compared with itself -/

theorem change_isZero_of_self {s : EstimateSet} {b : Benchmark} (h : comparison? s s b = some e) :
    e.change.IsZero := by
  obtain ⟨base, ns, hbase, hns, hof⟩ := comparison?_eq_some_iff.mp h
  obtain rfl := Option.some.inj (hbase.symm.trans hns)
  obtain ⟨hzero, hfinite, rfl⟩ := Comparison.of?_eq_some_iff.mp hof
  exact changePercent_self (isFinite_of_changePercent_self hfinite) hzero

theorem all_unchanged_of_self (s : EstimateSet) (ht : 0 ≤ t) :
    (compareRuns s s t).regressions = [] ∧ (compareRuns s s t).improvements = [] := by
  have hchange {e : Comparison} (he : e ∈ comparisons s s) : e.change.IsZero := by
    obtain ⟨b, hb⟩ := mem_comparisons.mp he
    exact change_isZero_of_self hb
  constructor
  · refine List.filter_eq_nil_iff.mpr fun e he hregression => ?_
    exact (hchange he).not_pos ((of_decide_eq_true hregression).pos ht)
  · refine List.filter_eq_nil_iff.mpr fun e he himprovement => ?_
    exact (hchange he).not_neg ((of_decide_eq_true himprovement).neg ht)

theorem Settings.nonneg_threshold {s : Settings} (hs : s.check = .ok ()) : 0 ≤ s.threshold := by
  obtain ⟨⟨hfinite, hnonneg⟩, -⟩ := check_eq_ok_iff.mp hs
  exact nonneg_of_not_lt hfinite hnonneg

/-- With one label for both runs there is nothing that regresses. -/
theorem Tree.not_regresses_of_self {tree : Tree} {s : Settings} (hs : s.check = .ok ())
    (hlabel : s.baseline = s.current) (b : Benchmark) : ¬tree.Regresses s b := by
  rintro ⟨base, ns, hbase, hns, hzero, hfinite, hlt⟩
  rw [Settings.baselineLabel, hlabel, ← Settings.currentLabel, ← get?_load tree.lists_list] at hbase
  rw [← get?_load tree.lists_list] at hns
  obtain rfl := Option.some.inj (hbase.symm.trans hns)
  have hsame := changePercent_self (isFinite_of_changePercent_self hfinite) hzero
  exact hsame.not_pos (Binary64.lt_of_le_of_lt (Settings.nonneg_threshold hs) hlt)

theorem exitCode_eq_zero_of_self (tree : Tree) {s : Settings} (hs : s.check = .ok ())
    (hlabel : s.baseline = s.current) : ∃ r, runGate tree s = .ok r ∧ r.exitCode = 0 := by
  obtain ⟨v, hv⟩ := exists_judged tree s
  obtain ⟨_, _, -, hrun, -⟩ := runGate_conclude hs hv
  refine ⟨_, hrun, ?_⟩
  by_contra hfail
  obtain ⟨b, hb⟩ := hv.exists_regresses hfail
  exact Tree.not_regresses_of_self hs hlabel b hb

/-- The change of two durations has the sign of their difference, is zero only where they are the
same and never below −100. So under a threshold of zero the list that a benchmark is in says how its
duration changed, which is so of all that is loaded; a set compared with itself has unchanged
benchmarks only, and a run whose labels are the same does not fail; and with a threshold of 100 or
more there are no improvements. -/
theorem sign_of_change :
    (∀ name base ns e, base.IsFinite → 0 ≤ base → ns.IsFinite → 0 ≤ ns →
      Comparison.of? name base ns = some e →
        (0 < e.change ↔ base < ns) ∧ (e.change < 0 ↔ ns < base) ∧ (e.change.IsZero ↔ ns = base) ∧
          -100 ≤ e.change) ∧
    (∀ tree root label, (loadEstimates tree root label).estimates.HoldsDurations) ∧
    (∀ baseline current : EstimateSet, baseline.HoldsDurations → current.HoldsDurations →
      (∀ t b base ns e, t.IsZero → baseline.get? b = some base → current.get? b = some ns →
        Comparison.of? b.name base ns = some e →
          (e ∈ (compareRuns baseline current t).regressions ↔ base < ns) ∧
            (e ∈ (compareRuns baseline current t).improvements ↔ ns < base) ∧
              (e ∈ (compareRuns baseline current t).unchanged ↔ ns = base)) ∧
      ∀ t, 100 ≤ t → (compareRuns baseline current t).improvements = []) ∧
    (∀ s t, 0 ≤ t →
      (compareRuns s s t).regressions = [] ∧ (compareRuns s s t).improvements = []) ∧
    ∀ (tree : Tree) (s : Settings), s.check = .ok () → s.baseline = s.current →
      ∃ r, runGate tree s = .ok r ∧ r.exitCode = 0 := by
  refine ⟨fun name base ns e hbase hbase0 hns hns0 hof => ?_, holdsDurations_loadEstimates,
    fun baseline current hbaseline hcurrent =>
      ⟨fun t b base ns e ht hbase hns hof => ?_, fun t ht =>
        improvements_eq_nil hbaseline hcurrent ht⟩,
    fun s t ht => all_unchanged_of_self s ht, fun tree s hs => exitCode_eq_zero_of_self tree hs⟩
  · have hsign := signExact_of_of? hbase hbase0 hns hns0 hof
    obtain ⟨-, -, rfl⟩ := Comparison.of?_eq_some_iff.mp hof
    exact ⟨hsign.slower, hsign.faster, hsign.same, hsign.bounded⟩
  · have hb := comparison?_eq_some_iff.mpr ⟨base, ns, hbase, hns, hof⟩
    have hlists := mem_compareRuns_zero ht (signExact_of_comparison? hbaseline hcurrent hb)
      (mem_comparisons.mpr ⟨b, hb⟩)
    obtain ⟨-, -, rfl⟩ := Comparison.of?_eq_some_iff.mp hof
    exact hlists

/-- From 100 to the next number the change is above zero; and of two runs of which one case takes
twice its time, that case has regressed under a threshold of zero. -/
theorem sign_of_change_next :
    (∃ e, Comparison.of? "g/a" 100 (.ofBits 0x4059000000000001) = some e ∧ 0 < e.change) ∧
      (∃ baseline current : EstimateSet, baseline.HoldsDurations ∧ current.HoldsDurations ∧
        ⟨"g/a", 100, 200, 100⟩ ∈ (compareRuns baseline current 0).regressions ∧
        (compareRuns baseline current 100).improvements = [] ∧
        (compareRuns baseline baseline 0).regressions = []) ∧
      ∃ r, runGate doubled { current := "main" } = .ok r ∧ r.exitCode = 0 := by
  obtain ⟨hsign, hloaded, hsets, hself, hruns⟩ := sign_of_change
  refine ⟨?_, ?_, hruns doubled { current := "main" } (by decide +kernel) rfl⟩
  · let e : Comparison := ⟨"g/a", 100, .ofBits 0x4059000000000001,
      changePercent 100 (.ofBits 0x4059000000000001)⟩
    have hof : Comparison.of? "g/a" 100 (.ofBits 0x4059000000000001) = some e := by decide +kernel
    obtain ⟨hslower, -⟩ := hsign _ _ _ _ (by decide +kernel) (by decide +kernel) (by decide +kernel)
      (by decide +kernel) hof
    exact ⟨e, hof, hslower.mpr (by decide +kernel)⟩
  · let s : Settings := {}
    have hbaseline := hloaded doubled s.root s.baselineLabel
    have hcurrent := hloaded doubled s.root s.currentLabel
    obtain ⟨hzero, hgreat⟩ := hsets _ _ hbaseline hcurrent
    have hplace := hzero 0 ⟨"g", "a"⟩ 100 200 ⟨"g/a", 100, 200, 100⟩ (by decide +kernel)
      ((get?_load doubled.lists_list).mpr (by decide +kernel))
      ((get?_load doubled.lists_list).mpr (by decide +kernel)) (by decide +kernel)
    exact ⟨_, _, hbaseline, hcurrent, hplace.1.mpr (by decide +kernel),
      hgreat 100 (by decide +kernel), (hself _ 0 (by decide +kernel)).1⟩

end RegressionGate
