import RegressionGate.Proofs.Binary64.Order
import RegressionGate.Proofs.Comparison

/-! A classification divides the benchmarks that can be compared: each of them is in one of the
three lists, once, and each list is in the order of the benchmarks. A threshold that is not below
zero, be it infinite, cuts the changes at itself and at its negative. -/

namespace RegressionGate

open Binary64

variable {baseline current : EstimateSet} {t : Binary64}

/-! ### Comparisons with their benchmarks -/

/-- The benchmarks that can be compared, each with its comparison. -/
def matched (baseline current : EstimateSet) : List (Benchmark × Comparison) :=
  (current.entries.map Prod.fst).filterMap fun b =>
    (comparison? baseline current b).map (Prod.mk b)

theorem map_snd_matched (baseline current : EstimateSet) :
    (matched baseline current).map Prod.snd = comparisons baseline current := by
  rw [matched, comparisons_eq_filterMap, List.map_filterMap]
  simp [Function.comp_def]

theorem mem_matched {b : Benchmark} {e : Comparison} :
    (b, e) ∈ matched baseline current ↔ comparison? baseline current b = some e := by
  simp only [matched, List.mem_filterMap, Option.map_eq_some_iff, Prod.mk.injEq]
  constructor
  · rintro ⟨b', -, e', he, rfl, rfl⟩
    exact he
  · intro he
    obtain ⟨base, ns, -, hns, -⟩ := comparison?_eq_some_iff.mp he
    exact ⟨b, List.mem_map_of_mem (EstimateSet.mem_entries.mpr hns), e, he, rfl, rfl⟩

theorem matched_ordered (baseline current : EstimateSet) :
    (matched baseline current).Pairwise fun p q => p.1 < q.1 := by
  refine List.pairwise_filterMap.mpr ((List.pairwise_map.mpr current.ordered).imp ?_)
  intro b b' hlt p hp q hq
  obtain ⟨e, -, rfl⟩ := Option.map_eq_some_iff.mp hp
  obtain ⟨e', -, rfl⟩ := Option.map_eq_some_iff.mp hq
  exact hlt

theorem mem_comparisons {e : Comparison} :
    e ∈ comparisons baseline current ↔ ∃ b, comparison? baseline current b = some e := by
  rw [← map_snd_matched, List.mem_map]
  constructor
  · rintro ⟨⟨b, e'⟩, hmem, rfl⟩
    exact ⟨b, mem_matched.mp hmem⟩
  · rintro ⟨b, he⟩
    exact ⟨(b, e), mem_matched.mpr he, rfl⟩

theorem isFinite_of_comparison? {b : Benchmark} {e : Comparison}
    (h : comparison? baseline current b = some e) : e.change.IsFinite := by
  obtain ⟨base, ns, -, -, hof⟩ := comparison?_eq_some_iff.mp h
  obtain ⟨-, hfinite, rfl⟩ := Comparison.of?_eq_some_iff.mp hof
  exact hfinite

/-! ### Thresholds that are not below zero -/

namespace Comparison

variable {e : Comparison}

theorem isImprovement_iff (h0 : 0 ≤ t) : e.IsImprovement t ↔ e.change < -t := by
  refine ⟨And.right, fun hlt => ⟨fun hgt => ?_, hlt⟩⟩
  have hbelow := hlt.2.2
  have habove := hgt.2.2
  have hzero := h0.2.2
  rw [rank_neg] at hbelow
  rw [rank_zero] at hzero
  omega

theorem unchanged_iff (h0 : 0 ≤ t) (he : e.change.IsFinite) :
    ¬e.IsRegression t ∧ ¬e.IsImprovement t ↔ -t ≤ e.change ∧ e.change ≤ t := by
  have ht : ¬t.IsNaN := h0.2.1
  have hneg : ¬(-t).IsNaN := ht
  rw [isImprovement_iff h0, IsRegression, Binary64.not_lt ht he.not_isNaN,
    Binary64.not_lt he.not_isNaN hneg, and_comm]

theorem IsRegression.pos (h0 : 0 ≤ t) (h : e.IsRegression t) : 0 < e.change :=
  Binary64.lt_of_le_of_lt h0 h

theorem IsImprovement.neg (h0 : 0 ≤ t) (h : e.IsImprovement t) : e.change < 0 := by
  obtain ⟨hnan, -, hrank⟩ := h.2
  have hzero := h0.2.2
  rw [rank_neg] at hrank
  rw [rank_zero] at hzero
  refine ⟨hnan, isFinite_zero.not_isNaN, ?_⟩
  rw [rank_zero]
  omega

end Comparison

/-! ### The three lists -/

/-- Whether three lists of benchmarks with their comparisons are those of a classification, and
hold what `R` relates, each benchmark once and in order. -/
structure Classification.Divides (c : Classification) (R : Benchmark → Comparison → Prop)
    (worse better same : List (Benchmark × Comparison)) : Prop where
  regressions : c.regressions = worse.map Prod.snd
  improvements : c.improvements = better.map Prod.snd
  unchanged : c.unchanged = same.map Prod.snd
  ordered (ps : List (Benchmark × Comparison)) (h : ps ∈ [worse, better, same]) :
    ps.Pairwise fun p q => p.1 < q.1
  once : ((worse ++ better ++ same).map Prod.fst).Nodup
  complete (b : Benchmark) (e : Comparison) : (b, e) ∈ worse ++ better ++ same ↔ R b e

theorem compareRuns_eq (baseline current : EstimateSet) (t : Binary64) :
    compareRuns baseline current t =
      { regressions := ((matched baseline current).filter fun p =>
          decide (p.2.IsRegression t)).map Prod.snd
        improvements := ((matched baseline current).filter fun p =>
          decide (p.2.IsImprovement t)).map Prod.snd
        unchanged := ((matched baseline current).filter fun p =>
          decide (¬p.2.IsRegression t ∧ ¬p.2.IsImprovement t)).map Prod.snd } := by
  rw [compareRuns, ← map_snd_matched]
  simp only [classify, List.filter_map]
  rfl

/-- Each benchmark that can be compared is in one list, once, with its comparison, and nothing else
is; the lists are in the order of the benchmarks. Under a threshold that is not below zero the
regressions are the changes above it, the improvements those below its negative, and unchanged are
those between the two. -/
theorem compareRuns_divides (baseline current : EstimateSet) (t : Binary64) :
    ∃ worse better same : List (Benchmark × Comparison),
      (compareRuns baseline current t).Divides
        (fun b e => comparison? baseline current b = some e) worse better same ∧
      (compareRuns baseline current t).total = (worse ++ better ++ same).length ∧
      (∀ p ∈ worse ++ better ++ same, p.2.change.IsFinite) ∧
      (0 ≤ t → ∀ p ∈ worse ++ better ++ same, (p ∈ worse ↔ t < p.2.change) ∧
        (p ∈ better ↔ p.2.change < -t) ∧ (p ∈ same ↔ -t ≤ p.2.change ∧ p.2.change ≤ t)) := by
  have hperm := filter_perm t Prod.snd (matched baseline current)
  have hfinite : ∀ p ∈ matched baseline current, p.2.change.IsFinite := fun p hp =>
    isFinite_of_comparison? (mem_matched.mp hp)
  have hdivides : (compareRuns baseline current t).Divides
      (fun b e => comparison? baseline current b = some e) _ _ _ :=
    { regressions := congrArg Classification.regressions (compareRuns_eq baseline current t)
      improvements := congrArg Classification.improvements (compareRuns_eq baseline current t)
      unchanged := congrArg Classification.unchanged (compareRuns_eq baseline current t)
      ordered := fun ps hps => by
        simp only [List.mem_cons, List.not_mem_nil, or_false] at hps
        rcases hps with rfl | rfl | rfl <;> exact (matched_ordered baseline current).filter _
      once := by
        refine (hperm.map Prod.fst).nodup_iff.mpr ?_
        exact List.pairwise_map.mpr ((matched_ordered baseline current).imp ne_of_irrefl)
      complete := fun b e => hperm.mem_iff.trans mem_matched }
  refine ⟨_, _, _, hdivides, ?_, fun p hp => hfinite p (hperm.mem_iff.mp hp), ?_⟩
  · rw [Classification.total, hdivides.regressions, hdivides.improvements, hdivides.unchanged]
    simp only [List.length_map, List.length_append]
  · intro h0 p hp
    have hmem := hperm.mem_iff.mp hp
    simp only [List.mem_filter, hmem, true_and, decide_eq_true_eq]
    exact ⟨Iff.rfl, Comparison.isImprovement_iff h0, Comparison.unchanged_iff h0 (hfinite p hmem)⟩

/-- Of three benchmarks one is slower, one has no baseline to speak of and one is as before. -/
theorem compareRuns_divides_three :
    (0 : Binary64) ≤ 10 ∧ ∃ worse better same : List (Benchmark × Comparison),
      (compareRuns (.ofList [(⟨"g", "a"⟩, 100), (⟨"g", "b"⟩, 0), (⟨"h", "a"⟩, 100)])
          (.ofList [(⟨"h", "a"⟩, 100), (⟨"g", "a"⟩, 120), (⟨"g", "b"⟩, 5)]) 10).Divides
        (fun b e => comparison?
          (.ofList [(⟨"g", "a"⟩, 100), (⟨"g", "b"⟩, 0), (⟨"h", "a"⟩, 100)])
          (.ofList [(⟨"h", "a"⟩, 100), (⟨"g", "a"⟩, 120), (⟨"g", "b"⟩, 5)]) b = some e)
        worse better same ∧
      (⟨"g", "a"⟩, ⟨"g/a", 100, 120, 20⟩) ∈ worse ∧ (⟨"h", "a"⟩, ⟨"h/a", 100, 100, 0⟩) ∈ same := by
  have h0 : (0 : Binary64) ≤ 10 := by decide +kernel
  obtain ⟨worse, better, same, hdivides, -, -, hplace⟩ := compareRuns_divides
    (.ofList [(⟨"g", "a"⟩, 100), (⟨"g", "b"⟩, 0), (⟨"h", "a"⟩, 100)])
    (.ofList [(⟨"h", "a"⟩, 100), (⟨"g", "a"⟩, 120), (⟨"g", "b"⟩, 5)]) 10
  have hslower := (hdivides.complete ⟨"g", "a"⟩ ⟨"g/a", 100, 120, 20⟩).mpr (by decide +kernel)
  have hsteady := (hdivides.complete ⟨"h", "a"⟩ ⟨"h/a", 100, 100, 0⟩).mpr (by decide +kernel)
  exact ⟨h0, worse, better, same, hdivides, (hplace h0 _ hslower).1.mpr (by decide +kernel),
    (hplace h0 _ hsteady).2.2.mpr (by decide +kernel)⟩

end RegressionGate
