import RegressionGate.Binary64.Arithmetic
import RegressionGate.Decimal.Layout

/-! How durations and changes are written in the text report. -/

namespace RegressionGate.Report

/-- A unit of time: the nanoseconds in it, the places that are shown and its sign. -/
structure TimeUnit where
  nanoseconds : Nat
  places : Nat
  sign : String
deriving DecidableEq, Repr

def nanosecond : TimeUnit := ⟨1, 0, "ns"⟩

def largerUnits : List TimeUnit :=
  [⟨1000000000, 2, "s"⟩, ⟨1000000, 2, "ms"⟩, ⟨1000, 2, "µs"⟩]

/-- The largest unit of which a duration has at least one. -/
def timeUnit (ns : Binary64) : TimeUnit :=
  (largerUnits.find? fun u => decide (.ofNat u.nanoseconds < ns ∨ ns = .ofNat u.nanoseconds)).getD
    nanosecond

theorem timeUnit_mem (ns : Binary64) : timeUnit ns ∈ nanosecond :: largerUnits := by
  rw [timeUnit]
  cases hfind : largerUnits.find? _ with
  | none => exact List.mem_cons_self
  | some u => exact List.mem_cons_of_mem _ (List.mem_of_find?_eq_some hfind)

def duration (ns : Binary64) : String :=
  let unit := timeUnit ns
  (if unit.nanoseconds = 1 then ns else ns / .ofNat unit.nanoseconds).fixed unit.places ++ unit.sign

def percentage (change : Binary64) : String :=
  (if change.negative ∨ change.IsNaN then "" else "+") ++ change.fixed 1 ++ "%"

end RegressionGate.Report
