import RegressionGate.Binary64.Arithmetic
import RegressionGate.Decimal.Layout
import RegressionGate.Text.Blank
import RegressionGate.Tree.Path

/-! The settings of a run, their defaults, the layers that override them and the settings that make
no sense. -/

namespace RegressionGate

inductive ReportFormat
  | text
  | json
deriving DecidableEq, Repr

/-- The settings of a run. The threshold is in percent; measurements lie below the build
directory. -/
structure Settings where
  threshold : Binary64 := 10
  baseline : String := "main"
  current : String := "pr"
  build : Path := .ofString "target"
  format : ReportFormat := .text
  strict : Bool := false
deriving DecidableEq, Repr

/-- Values for some of the settings. -/
structure Overrides where
  threshold : Option Binary64 := none
  baseline : Option String := none
  current : Option String := none
  build : Option Path := none
  format : Option ReportFormat := none
  strict : Option Bool := none
deriving DecidableEq, Repr

inductive SettingsError
  | threshold (value : Binary64)
  | blankBaseline
  | blankCurrent
deriving DecidableEq, Repr

def SettingsError.message : SettingsError → String
  | threshold value =>
    "Invalid configuration: threshold must be a non-negative number, got " ++ value.plain
  | blankBaseline => "Invalid configuration: baseline label must not be empty"
  | blankCurrent => "Invalid configuration: current label must not be empty"

namespace Settings

/-- The settings with those values that `o` has taken from it. -/
def override (s : Settings) (o : Overrides) : Settings where
  threshold := o.threshold.getD s.threshold
  baseline := o.baseline.getD s.baseline
  current := o.current.getD s.current
  build := o.build.getD s.build
  format := o.format.getD s.format
  strict := o.strict.getD s.strict

/-- Whether a run with these settings makes sense: the threshold is a finite number not below zero
and neither label is blank. -/
def check (s : Settings) : Except SettingsError Unit :=
  if ¬s.threshold.IsFinite ∨ s.threshold < Binary64.zero false then .error (.threshold s.threshold)
  else if Text.isBlank s.baseline then .error .blankBaseline
  else if Text.isBlank s.current then .error .blankCurrent
  else .ok ()

end Settings

end RegressionGate
