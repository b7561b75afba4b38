import RegressionGate.Comparison
import RegressionGate.Report.Amount

/-! The report for reading: the regressions, the improvements and a summary, a section being left
out when it has nothing to show. -/

namespace RegressionGate.Report

def wideRule : String := String.ofList (List.replicate 60 '=')

def narrowRule : String := String.ofList (List.replicate 40 '-')

def entryLines (c : Comparison) : List String :=
  ["  " ++ c.name,
    "    Baseline: " ++ duration c.baseline,
    "    Current:  " ++ duration c.current,
    "    Change:   " ++ percentage c.change]

/-- The lines of a section under a heading, none at all for an empty one. -/
def sectionLines (heading : String) (cs : List Comparison) : List String :=
  if cs.isEmpty then [] else heading :: narrowRule :: cs.flatMap entryLines ++ [""]

def summaryLines (c : Classification) (threshold : Binary64) : List String :=
  ["📊 SUMMARY:",
    narrowRule,
    "  Regressions:  " ++ toString c.regressions.length,
    "  Improvements: " ++ toString c.improvements.length,
    "  Unchanged:    " ++ toString c.unchanged.length,
    "  Threshold:    ±" ++ threshold.plain ++ "%"]

def textLines (c : Classification) (threshold : Binary64) : List String :=
  ["", wideRule, "BENCHMARK REGRESSION CHECK", wideRule, ""] ++
    sectionLines ("⚠️  REGRESSIONS (>" ++ threshold.plain ++ "% slower):") c.worstFirst ++
    sectionLines ("✅ IMPROVEMENTS (>" ++ threshold.plain ++ "% faster):") c.greatestFirst ++
    summaryLines c threshold

def text (c : Classification) (threshold : Binary64) : String :=
  String.join ((textLines c threshold).map (· ++ "\n"))

end RegressionGate.Report
