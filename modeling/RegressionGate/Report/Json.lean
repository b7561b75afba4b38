import RegressionGate.Comparison
import RegressionGate.Json.Writer

/-! The report for machines: one JSON object with the threshold, the regressions and improvements
in the order of the text report, and the number of unchanged benchmarks. -/

namespace RegressionGate.Report

def comparisonValue (c : Comparison) : Json.Value :=
  .object
    [("name", .string c.name),
      ("baseline_ns", .amount c.baseline),
      ("current_ns", .amount c.current),
      ("diff_pct", .amount c.change)]

def value (c : Classification) (threshold : Binary64) : Json.Value :=
  .object
    [("threshold", .amount threshold),
      ("regressions", .list (c.worstFirst.map comparisonValue)),
      ("improvements", .list (c.greatestFirst.map comparisonValue)),
      ("unchanged_count", .natural c.unchanged.length),
      ("has_regressions", .boolean c.hasRegressions)]

def json (c : Classification) (threshold : Binary64) : String := (value c threshold).text 0

end RegressionGate.Report
