import RegressionGate.Binary64.Arithmetic
import RegressionGate.Estimate.Set

/-! The comparison of two runs: the change of each benchmark that both have, in percent of the
baseline, and the division of the changes into regressions, improvements and unchanged ones. A
change of exactly the threshold counts as unchanged. -/

namespace RegressionGate

/-- One benchmark present in both runs, with its durations in nanoseconds and the signed change in
percent of the baseline. -/
structure Comparison where
  name : String
  baseline : Binary64
  current : Binary64
  change : Binary64
deriving DecidableEq, Repr

/-- The change from `baseline` to `current` in percent. -/
def changePercent (baseline current : Binary64) : Binary64 :=
  (current - baseline) / baseline * 100

/-- The comparison of two durations; there is none when the baseline is zero or the change is not
finite. -/
def Comparison.of? (name : String) (baseline current : Binary64) : Option Comparison :=
  let change := changePercent baseline current
  if ¬baseline.IsZero ∧ change.IsFinite then some ⟨name, baseline, current, change⟩ else none

/-- The comparisons of the benchmarks that both runs have, in the order of the benchmarks. -/
def comparisons (baseline current : EstimateSet) : List Comparison :=
  current.entries.filterMap fun (benchmark, ns) =>
    (baseline.get? benchmark).bind fun base => Comparison.of? benchmark.name base ns

def Comparison.IsRegression (threshold : Binary64) (c : Comparison) : Prop := threshold < c.change

def Comparison.IsImprovement (threshold : Binary64) (c : Comparison) : Prop :=
  ¬c.IsRegression threshold ∧ c.change < -threshold

instance (threshold : Binary64) (c : Comparison) : Decidable (c.IsRegression threshold) :=
  inferInstanceAs (Decidable (_ < _))

instance (threshold : Binary64) (c : Comparison) : Decidable (c.IsImprovement threshold) :=
  inferInstanceAs (Decidable (_ ∧ _))

/-- Comparisons divided by how they changed. -/
structure Classification where
  regressions : List Comparison
  improvements : List Comparison
  unchanged : List Comparison
deriving DecidableEq, Repr

def classify (threshold : Binary64) (cs : List Comparison) : Classification where
  regressions := cs.filter fun c => decide (c.IsRegression threshold)
  improvements := cs.filter fun c => decide (c.IsImprovement threshold)
  unchanged := cs.filter fun c =>
    decide (¬c.IsRegression threshold ∧ ¬c.IsImprovement threshold)

def compareRuns (baseline current : EstimateSet) (threshold : Binary64) : Classification :=
  classify threshold (comparisons baseline current)

namespace Classification

def hasRegressions (c : Classification) : Bool := !c.regressions.isEmpty

def total (c : Classification) : Nat :=
  c.regressions.length + c.improvements.length + c.unchanged.length

/-- The regressions, the worst first; equal changes keep their order. -/
def worstFirst (c : Classification) : List Comparison :=
  c.regressions.mergeSort fun a b => decide (b.change.totalRank ≤ a.change.totalRank)

/-- The improvements, the greatest first; equal changes keep their order. -/
def greatestFirst (c : Classification) : List Comparison :=
  c.improvements.mergeSort fun a b => decide (a.change.totalRank ≤ b.change.totalRank)

end Classification

end RegressionGate
