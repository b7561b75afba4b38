import RegressionGate.Comparison
import RegressionGate.Decimal.Layout

/-! The verdict of a run: what was found, the exit code that goes with it and its wording. Missing
measurements pass, so that a first run without a saved baseline blocks nothing; only a regression
fails. -/

namespace RegressionGate

inductive Verdict
  /-- The build directory, as it is shown, holds no measurements. -/
  | noMeasurements (build baseline : String)
  | noBaseline (label : String)
  | noCurrent (label : String)
  | pass
  | fail (regressions : Nat) (threshold : Binary64) (strict : Bool)
deriving DecidableEq, Repr

namespace Verdict

/-- The verdict of a completed comparison. Strictness has a say in the wording only. -/
def ofClassification (c : Classification) (threshold : Binary64) (strict : Bool) : Verdict :=
  if c.hasRegressions then .fail c.regressions.length threshold strict else .pass

def exitCode : Verdict → Nat
  | fail .. => 1
  | _ => 0

def diagnostics : Verdict → List String
  | noMeasurements build baseline =>
    ["Warning: No criterion benchmark data found in " ++ build ++ ".",
      "Run benchmarks first: cargo bench --bench <name> -- --save-baseline " ++ baseline]
  | noBaseline label => ["Warning: No baseline '" ++ label ++ "' benchmark data found."]
  | noCurrent label => ["Warning: No current '" ++ label ++ "' benchmark data found."]
  | pass => ["✅ PASS: No significant regressions detected"]
  | fail regressions threshold strict =>
    if strict then ["❌ FAIL: Regressions detected (--strict mode)"]
    else
      ["❌ FAIL: " ++ toString regressions ++ " benchmark(s) regressed >" ++ threshold.plain ++ "%"]

end Verdict

end RegressionGate
