import RegressionGate.Proofs.Estimate.Measure
import RegressionGate.Proofs.Gate.Pairing
import RegressionGate.Proofs.Report.Json
import RegressionGate.Proofs.Report.Text

/-! The report of a run. All numbers that get into it are finite, so the one for machines can be
read back; the format and strictness of a run make no difference to what is found. -/

namespace RegressionGate

open Estimate Json

variable {t : Tree} {s : Settings} {r : GateRun}

/-! ### Finite numbers -/

theorem Tree.FirstMean.isFinite {root label : Path} {b : Benchmark} {ns : Binary64}
    (h : t.FirstMean root label b ns) : ns.IsFinite := by
  obtain ⟨n, -, -, hmean, -⟩ := h
  obtain ⟨content, -, hmeasure⟩ := CaseName.mean?_eq_some_iff.mp hmean
  exact (measure_eq_ok_iff.mp hmeasure).2.1

theorem isFinite_of_mem_classification {c : Comparison} (h : c ∈ (s.classification t).all) :
    c.IsFinite := by
  obtain ⟨b, base, ns, hbase, hns, -, hchange, rfl⟩ := (corresponds_compares t s).mem_iff.mp h
  exact ⟨hbase.isFinite, hns.isFinite, hchange⟩

theorem Settings.isFinite_threshold (hs : s.check = .ok ()) : s.threshold.IsFinite := by
  by_contra h
  rw [Settings.check, if_pos (.inl h)] at hs
  contradiction

/-! ### Runs with a report -/

theorem check_of_runGate (h : runGate t s = .ok r) : s.check = .ok () := by
  rw [runGate] at h
  cases hs : s.check with
  | ok u => rfl
  | error e =>
    rw [hs] at h
    contradiction

/-- The settings with another format and strictness. -/
def Settings.shownAs (s : Settings) (format : ReportFormat) (strict : Bool) : Settings :=
  { s with format, strict }

/-- A verdict that no strictness has a say in. -/
def Verdict.IsMissing : Verdict → Prop
  | noMeasurements .. | noBaseline _ | noCurrent _ => True
  | pass | fail .. => False

/-- How the runs end that differ in format and strictness only: for lack of measurements without a
report, or with the verdict on a classification and the report on it. -/
theorem runGate_shownAs (t : Tree) (hs : s.check = .ok ()) :
    ∃ warnings,
      (∃ v : Verdict, v.IsMissing ∧
        ∀ format strict, runGate t (s.shownAs format strict) = .ok (.conclude warnings v none)) ∨
      ∀ format strict, runGate t (s.shownAs format strict) =
        .ok (.conclude warnings (.ofClassification (s.classification t) s.threshold strict)
          (some ((s.shownAs format strict).report (s.classification t)))) := by
  by_cases hroot : t.isDirectory s.root
  · have hrun (format : ReportFormat) (strict : Bool) : runGate t (s.shownAs format strict) =
        .ok (judge (s.shownAs format strict) (loadEstimates t s.root s.baselineLabel)
          (loadEstimates t s.root s.currentLabel)) :=
      runGate_present (s := s.shownAs format strict) hs hroot
    refine ⟨(loadEstimates t s.root s.baselineLabel).warnings ++
      (loadEstimates t s.root s.currentLabel).warnings, ?_⟩
    by_cases hbaseline : t.Measured s.root s.baselineLabel
    · by_cases hcurrent : t.Measured s.root s.currentLabel
      · right
        intro format strict
        exact runGate_measured (s := s.shownAs format strict) hs hbaseline hcurrent
      · left
        refine ⟨.noCurrent s.current, trivial, fun format strict => ?_⟩
        rw [hrun, judge, if_neg (mt isEmpty_loadEstimates.mp (not_not.mpr hbaseline)),
          if_pos (isEmpty_loadEstimates.mpr hcurrent)]
        rfl
    · left
      refine ⟨.noBaseline s.baseline, trivial, fun format strict => ?_⟩
      rw [hrun, judge, if_pos (isEmpty_loadEstimates.mpr hbaseline)]
      rfl
  · exact ⟨[], .inl ⟨.noMeasurements s.build.shown s.baseline, trivial, fun format strict =>
      runGate_absent (s := s.shownAs format strict) hs hroot⟩⟩

theorem report_of_runGate (h : runGate t s = .ok r) {report : String}
    (hreport : r.report = some report) :
    s.check = .ok () ∧ report = s.report (s.classification t) := by
  have hs := check_of_runGate h
  refine ⟨hs, ?_⟩
  obtain ⟨warnings, ⟨v, -, hrun⟩ | hrun⟩ := runGate_shownAs t hs
  · rw [Except.ok.inj (h.symm.trans (hrun s.format s.strict))] at hreport
    contradiction
  · rw [Except.ok.inj (h.symm.trans (hrun s.format s.strict))] at hreport
    exact (Option.some.inj hreport).symm

/-! ### The report for machines -/

theorem json_classification_reads (t : Tree) (hs : s.check = .ok ()) :
    ∃ raw,
      (∀ v, Document v (Utf8.encode (Report.json (s.classification t) s.threshold)) ↔ v = raw) ∧
      raw.NullFree ∧ raw.keys? = some Report.contentKeys ∧
        Report.readContent? raw = some (Report.content (s.classification t) s.threshold) := by
  refine Report.json_reads (Settings.isFinite_threshold hs) (fun c hc => ?_) fun c hc => ?_
  · have hmem : c ∈ (s.classification t).regressions := (List.mergeSort_perm _ _).mem_iff.mp hc
    exact isFinite_of_mem_classification (List.mem_append_left _ (List.mem_append_left _ hmem))
  · have hmem : c ∈ (s.classification t).improvements := (List.mergeSort_perm _ _).mem_iff.mp hc
    exact isFinite_of_mem_classification (List.mem_append_left _ (List.mem_append_right _ hmem))

/-- The report for machines is one JSON document without a null in it, with just the members of a
report, and what is read from it is what the run compared. -/
theorem runGate_json (hformat : s.format = .json) (h : runGate t s = .ok r) {report : String}
    (hreport : r.report = some report) :
    ∃ raw, (∀ v, Document v (Utf8.encode report) ↔ v = raw) ∧ raw.NullFree ∧
      raw.keys? = some Report.contentKeys ∧
        Report.readContent? raw = some (Report.content (s.classification t) s.threshold) := by
  obtain ⟨hs, rfl⟩ := report_of_runGate h hreport
  rw [Settings.report, hformat]
  exact json_classification_reads t hs

theorem runGate_json_doubled :
    ∃ r report raw, runGate doubled { format := .json } = .ok r ∧ r.report = some report ∧
      Document raw (Utf8.encode report) ∧ raw.NullFree := by
  have hs : ({ format := .json } : Settings).check = .ok () := by decide +kernel
  have hbaseline : doubled.Measured ({ format := .json } : Settings).root
      ({ format := .json } : Settings).baselineLabel := ⟨⟨"g", "a"⟩, 100, by decide +kernel⟩
  have hcurrent : doubled.Measured ({ format := .json } : Settings).root
      ({ format := .json } : Settings).currentLabel := ⟨⟨"g", "a"⟩, 200, by decide +kernel⟩
  obtain ⟨r, hrun, report, hreport⟩ : ∃ r, runGate doubled { format := .json } = .ok r ∧
      ∃ report, r.report = some report :=
    ⟨_, (runGate_present hs hbaseline.isDirectory).trans
      (congrArg Except.ok (judge_measured hbaseline hcurrent)), _, rfl⟩
  obtain ⟨raw, hraw, hfree, -⟩ := runGate_json rfl hrun hreport
  exact ⟨r, report, raw, hrun, hreport, (hraw raw).mpr rfl, hfree⟩

/-! ### Agreement -/

/-- The verdict with another strictness. -/
def Verdict.withStrict (strict : Bool) : Verdict → Verdict
  | fail regressions threshold _ => fail regressions threshold strict
  | v => v

theorem Verdict.IsMissing.withStrict_eq {v : Verdict} (h : v.IsMissing) (strict : Bool) :
    v.withStrict strict = v := by
  cases v with
  | fail => exact h.elim
  | _ => rfl

theorem Verdict.withStrict_ofClassification (c : Classification) (threshold : Binary64)
    (strict strict' : Bool) :
    (ofClassification c threshold strict).withStrict strict' =
      ofClassification c threshold strict' := by
  rw [ofClassification, ofClassification]
  split <;> rfl

theorem Verdict.exitCode_ofClassification (c : Classification) (threshold : Binary64)
    (strict : Bool) : (ofClassification c threshold strict).exitCode = 1 ↔ c.hasRegressions := by
  rw [ofClassification]
  split
  · rename_i h
    exact iff_of_true rfl h
  · rename_i h
    exact iff_of_false (by decide) h

/-- Whether the diagnostics of two runs differ in the last line of a failure at most. -/
def SameButLast (v : Verdict) (lines lines' : List String) : Prop :=
  lines = lines' ∨ ∃ n threshold strict front line line', v = .fail n threshold strict ∧
    lines = front ++ [line] ∧ lines' = front ++ [line']

/-- Whether the two reports and the verdict of a run say the same. -/
structure Agree (summary : Report.Summary) (content : Report.Content) (v : Verdict) : Prop where
  exitCode : content.hasRegressions ↔ v.exitCode = 1
  regressions : content.regressions.length = summary.regressions
  improvements : content.improvements.length = summary.improvements
  unchanged : content.unchanged = summary.unchanged
  verdict : v = .pass ∧ content.regressions.length = 0 ∨
    ∃ strict, v = .fail content.regressions.length content.threshold strict

theorem Verdict.diagnostics_fail (n : Nat) (threshold : Binary64) (strict : Bool) :
    ∃ line, (fail n threshold strict).diagnostics = [line] := by
  rw [Verdict.diagnostics]
  split <;> exact ⟨_, rfl⟩

theorem Verdict.exitCode_withStrict (v : Verdict) (strict : Bool) :
    (v.withStrict strict).exitCode = v.exitCode := by
  cases v <;> rfl

theorem exitCode_conclude (warnings : List LoadWarning) (v : Verdict) (report : Option String) :
    (GateRun.conclude warnings v report).exitCode = v.exitCode := rfl

theorem diagnostics_conclude (warnings : List LoadWarning) (v : Verdict) (report : Option String) :
    (GateRun.conclude warnings v report).diagnostics =
      warnings.map LoadWarning.message ++ v.diagnostics := rfl

theorem sameButLast_withStrict (warnings : List LoadWarning) (v : Verdict) (strict : Bool)
    (report report' : Option String) :
    SameButLast v (GateRun.conclude warnings v report).diagnostics
      (GateRun.conclude warnings (v.withStrict strict) report').diagnostics := by
  cases v with
  | fail n threshold strict' =>
    obtain ⟨line, hline⟩ := Verdict.diagnostics_fail n threshold strict'
    obtain ⟨line', hline'⟩ := Verdict.diagnostics_fail n threshold strict
    exact .inr ⟨n, threshold, strict', warnings.map LoadWarning.message, line, line', rfl,
      congrArg (_ ++ ·) hline, congrArg (_ ++ ·) hline'⟩
  | _ => exact .inl rfl

theorem agree_classification (c : Classification) (threshold : Binary64) (strict : Bool) :
    Agree ⟨c.regressions.length, c.improvements.length, c.unchanged.length⟩
      (Report.content c threshold) (.ofClassification c threshold strict) where
  exitCode := (Verdict.exitCode_ofClassification c threshold strict).symm
  regressions := List.length_mergeSort _
  improvements := List.length_mergeSort _
  unchanged := rfl
  verdict := by
    have hlength : (Report.content c threshold).regressions.length = c.regressions.length :=
      List.length_mergeSort _
    rw [hlength]
    rcases Nat.eq_zero_or_pos c.regressions.length with h | h
    · exact .inl ⟨Verdict.ofClassification_pass h, h⟩
    · exact .inr ⟨strict, Verdict.ofClassification_fail h⟩

/-- Runs that differ in format and strictness only find the same: their verdicts, exit codes and
diagnostics agree, and so do the two reports, with each other and with the verdict. -/
theorem runGate_agree (t : Tree) {s s' : Settings} (hs : s.check = .ok ())
    (hsame : s' = s.shownAs s'.format s'.strict) :
    ∃ r r', runGate t s = .ok r ∧ runGate t s' = .ok r' ∧
      r'.verdict = r.verdict.withStrict s'.strict ∧ r'.exitCode = r.exitCode ∧
      r'.report.isSome = r.report.isSome ∧ (s'.strict = s.strict → r'.diagnostics = r.diagnostics) ∧
      SameButLast r.verdict r.diagnostics r'.diagnostics ∧
      ∀ text json, s.format = .text → s'.format = .json → r.report = some text →
        r'.report = some json → ∃ raw content summary,
          (∀ v, Document v (Utf8.encode json) ↔ v = raw) ∧ Report.readContent? raw = some content ∧
            Report.summary? text = some summary ∧ Agree summary content r'.verdict := by
  obtain ⟨warnings, ⟨v, hv, hrun⟩ | hrun⟩ := runGate_shownAs t hs
  · have hrun' : runGate t s' = .ok (.conclude warnings v none) := by
      rw [hsame]
      exact hrun s'.format s'.strict
    exact ⟨_, _, hrun s.format s.strict, hrun', (hv.withStrict_eq s'.strict).symm, rfl, rfl,
      fun _ => rfl, .inl rfl, fun _ _ _ _ h => by contradiction⟩
  · have hrun' : runGate t s' = .ok (.conclude warnings
        (.ofClassification (s.classification t) s.threshold s'.strict)
        (some (s'.report (s.classification t)))) := by
      rw [hsame]
      exact hrun s'.format s'.strict
    have hverdict := Verdict.withStrict_ofClassification (s.classification t) s.threshold s.strict
      s'.strict
    refine ⟨_, _, hrun s.format s.strict, hrun', hverdict.symm, ?_,
      Option.isSome_some.trans Option.isSome_some.symm, ?_, ?_, ?_⟩
    · rw [exitCode_conclude, exitCode_conclude, ← hverdict, Verdict.exitCode_withStrict]
    · intro hstrict
      rw [diagnostics_conclude, diagnostics_conclude, hstrict]
    · rw [← hverdict]
      exact sameButLast_withStrict _ _ _ _ _
    · intro text json htext hjson hreport hreport'
      have hthreshold : s'.threshold = s.threshold := by
        rw [hsame]
        rfl
      have htext' : s.report (s.classification t) = text := Option.some.inj hreport
      have hjson' : s'.report (s.classification t) = json := Option.some.inj hreport'
      rw [Settings.report, htext] at htext'
      rw [Settings.report, hjson, hthreshold] at hjson'
      obtain ⟨raw, hraw, -, -, hread⟩ := json_classification_reads t hs
      rw [← htext', ← hjson']
      exact ⟨raw, _, _, hraw, hread, Report.summary?_text _ _,
        agree_classification (s.classification t) s.threshold s'.strict⟩

/-- The runs on a tree with a regression, shown in either way. -/
theorem runGate_agree_doubled :
    ∃ r r', runGate doubled {} = .ok r ∧
      runGate doubled { format := .json, strict := true } = .ok r' ∧ r'.exitCode = r.exitCode ∧
      SameButLast r.verdict r.diagnostics r'.diagnostics := by
  have hsame : ({ format := .json, strict := true } : Settings) =
      Settings.shownAs {} .json true := rfl
  have hs : ({} : Settings).check = .ok () := by decide +kernel
  obtain ⟨r, r', hr, hr', -, hcode, -, -, hlast, -⟩ := runGate_agree doubled hs hsame
  exact ⟨r, r', hr, hr', hcode, hlast⟩

end RegressionGate
