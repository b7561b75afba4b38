import RegressionGate.Proofs.Binary64.Closest
import RegressionGate.Proofs.Gate.Report

/-! Runs under two thresholds. A greater threshold leaves the comparisons as they are and counts
more of them as unchanged, so a run that passes under the lesser one passes under the greater one,
and what is missing is missing under both. -/

namespace RegressionGate

open Binary64

/-! ### Thresholds in order -/

theorem Binary64.rank_le_rank {x y : Binary64} (hx : 0 ≤ x.value) (h : x.value ≤ y.value) :
    x.rank ≤ y.rank := by
  have hunits : x.units ≤ y.units := by
    rw [← not_lt, value_lt_value, not_lt] at h
    exact h
  have hy : 0 ≤ y.value := le_trans hx h
  rw [units_of_nonneg hx, units_of_nonneg hy, Int.ofNat_le, unitsOf_strictMono.le_iff_le] at hunits
  rw [rank_of_nonneg hx, rank_of_nonneg hy]
  exact Int.ofNat_le.mpr hunits

theorem Binary64.rank_nonneg {x : Binary64} (hx : 0 ≤ x.value) : 0 ≤ x.rank := by
  rw [rank_of_nonneg hx]
  exact Int.natCast_nonneg _

namespace Comparison

variable {low high : Binary64} {c : Comparison}

theorem IsRegression.of_le (hlow : low.IsFinite) (hle : low.rank ≤ high.rank)
    (h : c.IsRegression high) : c.IsRegression low :=
  ⟨hlow.not_isNaN, h.2.1, Int.lt_of_le_of_lt hle h.2.2⟩

/-- What is below the greater threshold's negative is below the lesser one's, which is not above
zero, and so no regression there either. -/
theorem IsImprovement.of_le (hlow : low.IsFinite) (hzero : 0 ≤ low.rank)
    (hle : low.rank ≤ high.rank) (h : c.IsImprovement high) : c.IsImprovement low := by
  obtain ⟨hnan, -, hrank⟩ := h.2
  rw [rank_neg] at hrank
  refine ⟨fun hregression => ?_, hnan, hlow.not_isNaN, ?_⟩
  · have := hregression.2.2
    omega
  · rw [rank_neg]
    omega

end Comparison

/-! ### Comparisons under either threshold -/

/-- Whether one classification is another with some of the changes moved to the unchanged ones. -/
structure Classification.Milder (c d : Classification) : Prop where
  all : c.all.Perm d.all
  regressions : c.regressions.Sublist d.regressions
  improvements : c.improvements.Sublist d.improvements
  unchanged : d.unchanged.Sublist c.unchanged

theorem classify_milder {low high : Binary64} (hlow : low.IsFinite) (hzero : 0 ≤ low.rank)
    (hle : low.rank ≤ high.rank) (cs : List Comparison) :
    (classify high cs).Milder (classify low cs) where
  all := (classify_perm high cs).trans (classify_perm low cs).symm
  regressions := List.monotone_filter_right cs fun _ h =>
    decide_eq_true ((of_decide_eq_true h).of_le hlow hle)
  improvements := List.monotone_filter_right cs fun _ h =>
    decide_eq_true ((of_decide_eq_true h).of_le hlow hzero hle)
  unchanged := List.monotone_filter_right cs fun _ h => by
    obtain ⟨hregression, himprovement⟩ := of_decide_eq_true h
    exact decide_eq_true ⟨mt (·.of_le hlow hle) hregression,
      mt (·.of_le hlow hzero hle) himprovement⟩

/-- Whatever the threshold, a classification has the comparison of each benchmark that can be
compared, and no other. -/
theorem corresponds_compareRuns (baseline current : EstimateSet) (threshold : Binary64) :
    Corresponds (fun b c => comparison? baseline current b = some c)
      (compareRuns baseline current threshold).all := by
  have hperm : (compareRuns baseline current threshold).all.Perm
      (comparisons baseline current) := classify_perm threshold _
  rw [comparisons_eq_filterMap] at hperm
  refine .filterMap current.nodup_keys (fun b c => ?_) hperm
  rw [iff_and_self, comparison?_eq_some_iff]
  rintro ⟨base, ns, -, hns, -⟩
  exact List.mem_map.mpr ⟨(b, ns), EstimateSet.mem_entries.mpr hns, rfl⟩

/-! ### Runs under either threshold -/

variable {t : Tree} {s s' : Settings}

/-- The settings with another threshold. -/
def Settings.withThreshold (s : Settings) (threshold : Binary64) : Settings := { s with threshold }

theorem Settings.check_withThreshold (hs : s.check = .ok ()) {threshold : Binary64}
    (hfinite : threshold.IsFinite) (h0 : 0 ≤ threshold.value) :
    (s.withThreshold threshold).check = .ok () := by
  obtain ⟨-, hlabels⟩ := check_eq_ok_iff.mp hs
  refine check_eq_ok_iff.mpr ⟨⟨hfinite, fun h => ?_⟩, hlabels⟩
  exact absurd h.2.2 (not_lt.mpr (rank_nonneg h0))

namespace Tree

theorem Judged.unique (hs : s.check = .ok ()) {v w : Verdict} (hv : t.Judged s v)
    (hw : t.Judged s w) : v = w := by
  obtain ⟨_, _, -, hrun, -⟩ := runGate_conclude hs hv
  obtain ⟨_, _, -, hrun', -⟩ := runGate_conclude hs hw
  exact congrArg GateRun.verdict (Except.ok.inj (hrun.symm.trans hrun'))

theorem Regresses.exitCode {b : Benchmark} (hb : t.Regresses s b) {v : Verdict}
    (hv : t.Judged s v) : v.exitCode = 1 := by
  cases hv with
  | noMeasurements absent => exact absurd hb.measured.1.isDirectory absent
  | noBaseline present missing => exact absurd hb.measured.1 missing
  | noCurrent baseline missing => exact absurd hb.measured.2 missing
  | pass baseline current steady => exact absurd hb (steady b)
  | fail => rfl

theorem Judged.exists_regresses {v : Verdict} (hv : t.Judged s v) (h : v.exitCode ≠ 0) :
    ∃ b, t.Regresses s b := by
  cases hv with
  | @fail bs nodup regress some =>
    obtain ⟨b, hb⟩ := List.exists_mem_of_ne_nil bs some
    exact ⟨b, (regress b).mp hb⟩
  | _ => exact absurd rfl h

theorem Regresses.of_le {threshold : Binary64} (hs : s.threshold.IsFinite)
    (hle : s.threshold.rank ≤ threshold.rank) {b : Benchmark}
    (hb : t.Regresses (s.withThreshold threshold) b) : t.Regresses s b := by
  obtain ⟨base, ns, hbase, hns, hzero, hfinite, hlt⟩ := hb
  exact ⟨base, ns, hbase, hns, hzero, hfinite, hs.not_isNaN, hlt.2.1,
    Int.lt_of_le_of_lt hle hlt.2.2⟩

/-- The threshold has no say in what is missing. -/
theorem Judged.withThreshold {v : Verdict} (hv : t.Judged s v) (h : v.IsMissing)
    (threshold : Binary64) : t.Judged (s.withThreshold threshold) v := by
  cases hv with
  | noMeasurements absent => exact .noMeasurements absent
  | noBaseline present missing => exact .noBaseline present missing
  | noCurrent baseline missing => exact .noCurrent baseline missing
  | pass => exact h.elim
  | fail => exact h.elim

end Tree

/-- Under a greater threshold the same benchmarks are compared with the same results, no more of
them count as regressions or improvements, and no fewer as unchanged. So no run fails that passes
under the lesser one, and the runs that find measurements missing are the same. -/
theorem compareRuns_milder {low high : Binary64} (hlow : low.IsFinite) (hhigh : high.IsFinite)
    (h0 : 0 ≤ low.value) (hle : low.value ≤ high.value) :
    (∀ baseline current,
      Corresponds (fun b c => comparison? baseline current b = some c)
        (compareRuns baseline current low).all ∧
      Corresponds (fun b c => comparison? baseline current b = some c)
        (compareRuns baseline current high).all ∧
      (compareRuns baseline current high).Milder (compareRuns baseline current low)) ∧
    ∀ (t : Tree) (s : Settings), s.threshold = low → s.check = .ok () →
      (s.withThreshold high).check = .ok () ∧
      ∃ r r', runGate t s = .ok r ∧ runGate t (s.withThreshold high) = .ok r' ∧
        (r.exitCode = 0 → r'.exitCode = 0) ∧
        ∀ v : Verdict, v.IsMissing → (r.verdict = v ↔ r'.verdict = v) := by
  have hrank := rank_le_rank h0 hle
  refine ⟨fun baseline current => ⟨corresponds_compareRuns baseline current low,
    corresponds_compareRuns baseline current high,
    classify_milder hlow (rank_nonneg h0) hrank _⟩, ?_⟩
  rintro t s rfl hs
  have hs' := Settings.check_withThreshold hs hhigh (le_trans h0 hle)
  obtain ⟨v, hv⟩ := exists_judged t s
  obtain ⟨v', hv'⟩ := exists_judged t (s.withThreshold high)
  obtain ⟨_, _, -, hrun, -⟩ := runGate_conclude hs hv
  obtain ⟨_, _, -, hrun', -⟩ := runGate_conclude hs' hv'
  refine ⟨hs', _, _, hrun, hrun', fun hpass => ?_, fun w hw => ⟨?_, ?_⟩⟩
  · by_contra hfail
    obtain ⟨b, hb⟩ := hv'.exists_regresses hfail
    have hcode : v.exitCode = 1 := (hb.of_le hlow hrank).exitCode hv
    have hzero : v.exitCode = 0 := hpass
    omega
  · rintro rfl
    exact hv'.unique hs' (hv.withThreshold hw high)
  · rintro rfl
    exact hv.unique hs (hv'.withThreshold hw s.threshold)

/-- A case that takes twice its time is unchanged under a threshold of 100 percent, and so under one
of 150 percent. -/
theorem compareRuns_milder_doubled :
    (100 : Binary64).value ≤ (150 : Binary64).value ∧
      ∃ r r', runGate doubled { threshold := 100 } = .ok r ∧ r.exitCode = 0 ∧
        runGate doubled { threshold := 150 } = .ok r' ∧ r'.exitCode = 0 := by
  have hle : (100 : Binary64).value ≤ (150 : Binary64).value := by decide +kernel
  have hlow : (100 : Binary64).IsFinite := by decide +kernel
  have hhigh : (150 : Binary64).IsFinite := by decide +kernel
  obtain ⟨-, hruns⟩ := compareRuns_milder hlow hhigh (by decide +kernel) hle
  let s : Settings := { threshold := 100 }
  have hs : s.check = .ok () := by decide +kernel
  obtain ⟨-, r, r', hr, hr', hcode, -⟩ := hruns doubled s rfl hs
  have hsteady : ∀ m ∈ Tree.caseNames (doubled.directories doubled.list) s.root,
      ∀ n ∈ Tree.caseNames (doubled.directories doubled.list) s.root,
        ∀ base ∈ m.mean? doubled s.root s.baselineLabel,
          ∀ ns ∈ n.mean? doubled s.root s.currentLabel,
            m.benchmark = n.benchmark → ¬(100 : Binary64) < changePercent base ns := by
    decide +kernel
  have hpass : r.exitCode = 0 := by
    obtain ⟨v, hv⟩ := exists_judged doubled s
    obtain ⟨_, _, -, hrun, -⟩ := runGate_conclude hs hv
    obtain rfl := Except.ok.inj (hr.symm.trans hrun)
    by_contra hfail
    obtain ⟨b, base, ns, ⟨m, hm, rfl, hbase, -⟩, ⟨n, hn, hb, hns, -⟩, -, -, hlt⟩ :=
      hv.exists_regresses hfail
    exact hsteady m (Tree.mem_caseNames_list.mpr hm) n (Tree.mem_caseNames_list.mpr hn) base hbase
      ns hns hb.symm hlt
  exact ⟨hle, r, r', hr, hpass, hr', hcode hpass⟩

end RegressionGate
