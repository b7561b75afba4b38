import RegressionGate.Json.Record

/-! The content of an estimates file: a JSON document with the mean's point estimate, in
nanoseconds. Everything else in the document is passed over. -/

namespace RegressionGate.Estimate

/-- Why an estimates file gives no measure. -/
inductive MeasureError
  | document (error : Json.Error)
  | negative (value : Binary64)
deriving DecidableEq, Repr

def MeasureError.message : MeasureError → String
  | document e => e.message
  | negative x => "mean.point_estimate must be a non-negative number, got " ++ x.plain

def readEstimates : Json.Reader Binary64 :=
  Json.readRecord "struct Estimates" "mean"
    (Json.readRecord "struct Estimate" "point_estimate" Json.readBinary64)

/-- The mean in nanoseconds, finite and not below zero. -/
def measure (content : Bytes) : Except MeasureError Binary64 := do
  let x ← (Json.readDocument readEstimates content).mapError .document
  if x.IsFinite ∧ ¬x < Binary64.zero false then .ok x else .error (.negative x)

end RegressionGate.Estimate
