import RegressionGate.Estimate.Load
import RegressionGate.Report.Json
import RegressionGate.Report.Text
import RegressionGate.Settings.Basic
import RegressionGate.Verdict

/-! The gate: both runs are loaded and compared, and the comparison is reported and judged. Runs
that lack measurements end in a verdict of their own, without a report. -/

namespace RegressionGate

/-- What the gate finds: its verdict, the report if there was something to compare, and the lines
that tell what was left out and what the verdict is. -/
structure GateRun where
  verdict : Verdict
  report : Option String
  diagnostics : List String
deriving DecidableEq, Repr

namespace GateRun

def exitCode (r : GateRun) : Nat := r.verdict.exitCode

/-- The run that ends in a verdict, with the warnings that came up on the way. -/
def conclude (warnings : List LoadWarning) (verdict : Verdict) (report : Option String) : GateRun :=
  ⟨verdict, report, warnings.map LoadWarning.message ++ verdict.diagnostics⟩

end GateRun

/-- The report on a classification in the format of the settings. -/
def Settings.report (s : Settings) (c : Classification) : String :=
  match s.format with
  | .text => Report.text c s.threshold
  | .json => Report.json c s.threshold

def judge (s : Settings) (baseline current : LoadedEstimates) : GateRun :=
  let warnings := baseline.warnings ++ current.warnings
  if baseline.estimates.isEmpty then .conclude warnings (.noBaseline s.baseline) none
  else if current.estimates.isEmpty then .conclude warnings (.noCurrent s.current) none
  else
    let c := compareRuns baseline.estimates current.estimates s.threshold
    .conclude warnings (.ofClassification c s.threshold s.strict) (some (s.report c))

/-- The gate on a file tree. Settings that make no sense are refused before the tree is looked
at. -/
def runGate (tree : Tree) (s : Settings) : Except SettingsError GateRun := do
  s.check
  match Estimate.findDirectory? tree s.build with
  | none => .ok (.conclude [] (.noMeasurements s.build.shown s.baseline) none)
  | some root =>
    .ok (judge s (loadEstimates tree root (.ofString s.baseline))
      (loadEstimates tree root (.ofString s.current)))

end RegressionGate
