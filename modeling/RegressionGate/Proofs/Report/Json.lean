import RegressionGate.Proofs.Json.Unambiguous
import RegressionGate.Proofs.Json.Writer
import RegressionGate.Report.Json

/-! Reading the report for machines: its text is one JSON document without a null in it, and what a
consumer reads from that is what was reported. -/

namespace RegressionGate

/-! ### Reading values -/

namespace Json.Raw

/-- A value in which no null stands at any depth. -/
inductive NullFree : Raw → Prop
  | boolean {b : Bool} : NullFree (.boolean b)
  | number {l : Literal} : NullFree (.number l)
  | string {body : Bytes} : NullFree (.string body)
  | list {vs : List Raw} (h : ∀ v ∈ vs, NullFree v) : NullFree (.list vs)
  | object {ms : List (Bytes × Raw)} (h : ∀ m ∈ ms, NullFree m.2) : NullFree (.object ms)

/-- The text between two quotes. -/
def bodyText? (body : Bytes) : Option String :=
  match readText (body ++ [0x22]) with
  | .ok (text, []) => some text
  | _ => none

def text? : Raw → Option String
  | string body => bodyText? body
  | _ => none

/-- A number, read as the nearest binary64 one. -/
def amount? : Raw → Option Binary64
  | number l => some l.nearest
  | _ => none

def natural? : Raw → Option Nat
  | number l =>
    if !l.negative ∧ l.fraction = [] ∧ l.exponent = none then some (numeral l.whole) else none
  | _ => none

def boolean? : Raw → Option Bool
  | boolean b => some b
  | _ => none

def elements? : Raw → Option (List Raw)
  | list vs => some vs
  | _ => none

def keys? : Raw → Option (List String)
  | object ms => ms.mapM fun m => bodyText? m.1
  | _ => none

/-- The value of the first member with a key. -/
def member? (key : String) : Raw → Option Raw
  | object ms => (ms.find? fun m => bodyText? m.1 = some key).map Prod.snd
  | _ => none

@[simp] theorem bodyText?_escapedBody (s : String) : bodyText? (escapedBody s) = some s := by
  rw [bodyText?, (spells_escapedBody s).readText]

@[simp] theorem text?_escapedBody (s : String) : (string (escapedBody s)).text? = some s :=
  bodyText?_escapedBody s

@[simp] theorem natural?_natLiteral (n : Nat) : (number (natLiteral n)).natural? = some n := by
  simp [natural?, natLiteral, numeral_digitsOf]

end Json.Raw

/-- Whether all numbers of a comparison are finite. -/
structure Comparison.IsFinite (c : Comparison) : Prop where
  baseline : c.baseline.IsFinite
  current : c.current.IsFinite
  change : c.change.IsFinite

namespace Report

open Json

/-! ### Reading the report -/

/-- What the report for machines says. -/
structure Content where
  threshold : Binary64
  regressions : List Comparison
  improvements : List Comparison
  unchanged : Nat
  hasRegressions : Bool
deriving DecidableEq, Repr

def content (c : Classification) (threshold : Binary64) : Content where
  threshold
  regressions := c.worstFirst
  improvements := c.greatestFirst
  unchanged := c.unchanged.length
  hasRegressions := c.hasRegressions

/-- The members of a report. -/
def contentKeys : List String :=
  ["threshold", "regressions", "improvements", "unchanged_count", "has_regressions"]

def readComparison? (v : Raw) : Option Comparison := do
  let name ← (← v.member? "name").text?
  let baseline ← (← v.member? "baseline_ns").amount?
  let current ← (← v.member? "current_ns").amount?
  let change ← (← v.member? "diff_pct").amount?
  some { name, baseline, current, change }

def readContent? (v : Raw) : Option Content := do
  let threshold ← (← v.member? "threshold").amount?
  let regressions ← (← (← v.member? "regressions").elements?).mapM readComparison?
  let improvements ← (← (← v.member? "improvements").elements?).mapM readComparison?
  let unchanged ← (← v.member? "unchanged_count").natural?
  let hasRegressions ← (← v.member? "has_regressions").boolean?
  some { threshold, regressions, improvements, unchanged, hasRegressions }

/-! ### What is written is read -/

theorem exists_raw_comparison {c : Comparison} (h : c.IsFinite) :
    ∃ raw, (comparisonValue c).Written raw ∧ raw.NullFree ∧ readComparison? raw = some c := by
  obtain ⟨baseline, hbaseline, wbaseline⟩ := Value.exists_written_amount h.baseline
  obtain ⟨current, hcurrent, wcurrent⟩ := Value.exists_written_amount h.current
  obtain ⟨change, hchange, wchange⟩ := Value.exists_written_amount h.change
  refine ⟨.object [(escapedBody "name", .string (escapedBody c.name)),
    (escapedBody "baseline_ns", .number baseline), (escapedBody "current_ns", .number current),
    (escapedBody "diff_pct", .number change)], ?_, ?_, ?_⟩
  · exact Value.Written.object (.cons ⟨rfl, .string _⟩ (.cons ⟨rfl, wbaseline⟩
      (.cons ⟨rfl, wcurrent⟩ (.cons ⟨rfl, wchange⟩ .nil))))
  · refine .object ?_
    simp only [List.forall_mem_cons]
    exact ⟨.string, .number, .number, .number, fun _ h => absurd h List.not_mem_nil⟩
  · simp [readComparison?, Raw.member?, Raw.amount?, hbaseline, hcurrent, hchange]

theorem exists_raw_comparisons {cs : List Comparison} (h : ∀ c ∈ cs, c.IsFinite) :
    ∃ raws, List.Forall₂ Value.Written (cs.map comparisonValue) raws ∧
      (∀ raw ∈ raws, raw.NullFree) ∧ raws.mapM readComparison? = some cs := by
  induction cs with
  | nil => exact ⟨[], .nil, by simp, rfl⟩
  | cons c cs ih =>
    obtain ⟨hc, hcs⟩ := List.forall_mem_cons.mp h
    obtain ⟨raw, hraw, hfree, hread⟩ := exists_raw_comparison hc
    obtain ⟨raws, hraws, hfrees, hreads⟩ := ih hcs
    exact ⟨raw :: raws, .cons hraw hraws, List.forall_mem_cons.mpr ⟨hfree, hfrees⟩,
      by simp [hread, hreads]⟩

theorem exists_raw_value {c : Classification} {threshold : Binary64}
    (hthreshold : threshold.IsFinite) (hregressions : ∀ d ∈ c.worstFirst, d.IsFinite)
    (himprovements : ∀ d ∈ c.greatestFirst, d.IsFinite) :
    ∃ raw, (value c threshold).Written raw ∧ raw.NullFree ∧ raw.keys? = some contentKeys ∧
      readContent? raw = some (content c threshold) := by
  obtain ⟨number, hnumber, wnumber⟩ := Value.exists_written_amount hthreshold
  obtain ⟨regressions, wregressions, hfree, hread⟩ := exists_raw_comparisons hregressions
  obtain ⟨improvements, wimprovements, hfree', hread'⟩ := exists_raw_comparisons himprovements
  refine ⟨.object [(escapedBody "threshold", .number number),
    (escapedBody "regressions", .list regressions),
    (escapedBody "improvements", .list improvements),
    (escapedBody "unchanged_count", .number (natLiteral c.unchanged.length)),
    (escapedBody "has_regressions", .boolean c.hasRegressions)], ?_, ?_, ?_, ?_⟩
  · exact Value.Written.object (.cons ⟨rfl, wnumber⟩ (.cons ⟨rfl, .list wregressions⟩
      (.cons ⟨rfl, .list wimprovements⟩ (.cons ⟨rfl, .natural _⟩
        (.cons ⟨rfl, .boolean _⟩ .nil)))))
  · refine .object ?_
    simp only [List.forall_mem_cons]
    exact ⟨.number, .list hfree, .list hfree', .number, .boolean,
      fun _ h => absurd h List.not_mem_nil⟩
  · simp [Raw.keys?, contentKeys]
  · simp [readContent?, Raw.member?, Raw.amount?, Raw.elements?, Raw.boolean?, hnumber, hread,
      hread', content]

/-- The report for machines is one document, and it says what was classified. -/
theorem json_reads {c : Classification} {threshold : Binary64} (hthreshold : threshold.IsFinite)
    (hregressions : ∀ d ∈ c.worstFirst, d.IsFinite)
    (himprovements : ∀ d ∈ c.greatestFirst, d.IsFinite) :
    ∃ raw, (∀ v, Document v (Utf8.encode (json c threshold)) ↔ v = raw) ∧ raw.NullFree ∧
      raw.keys? = some contentKeys ∧ readContent? raw = some (content c threshold) := by
  obtain ⟨raw, hwritten, hfree, hkeys, hread⟩ :=
    exists_raw_value hthreshold hregressions himprovements
  have hdocument : Document raw (Utf8.encode (json c threshold)) := by
    have hderives := hwritten 0 [] stops_nil
    rw [List.append_nil] at hderives
    exact ⟨_, [], .done, hderives, .done⟩
  exact ⟨raw, fun v => ⟨hdocument.unique, fun h => h ▸ hdocument⟩, hfree, hkeys, hread⟩

end Report

end RegressionGate
