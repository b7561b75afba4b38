import RegressionGate.Gate
import RegressionGate.Proofs.Comparison
import RegressionGate.Proofs.Estimate.Load

/-! The verdict of a run, read off the tree: what is missing is told in a fixed order, and what is
there fails by its number of regressions. -/

namespace RegressionGate

namespace Settings

def root (s : Settings) : Path := s.build.join Estimate.directoryName

def baselineLabel (s : Settings) : Path := .ofString s.baseline

def currentLabel (s : Settings) : Path := .ofString s.current

/-- The classification of the two runs in a tree. -/
def classification (s : Settings) (t : Tree) : Classification :=
  compareRuns (loadEstimates t s.root s.baselineLabel).estimates
    (loadEstimates t s.root s.currentLabel).estimates s.threshold

theorem check_eq_ok_iff {s : Settings} :
    s.check = .ok () ↔ (s.threshold.IsFinite ∧ ¬s.threshold < Binary64.zero false) ∧
      ¬Text.isBlank s.baseline ∧ ¬Text.isBlank s.current := by
  rw [check]
  split
  · rename_i h
    simp only [reduceCtorEq, false_iff]
    rintro ⟨⟨hfinite, hzero⟩, -⟩
    exact h.elim (· hfinite) hzero
  · rename_i h
    rw [not_or, not_not] at h
    split
    · simp [*]
    · split <;> simp [*]

end Settings

namespace Tree

variable {t : Tree} {s : Settings}

def Measured (t : Tree) (root label : Path) : Prop := ∃ b ns, t.FirstMean root label b ns

/-- Whether a benchmark has a mean under both labels of the settings, and their change is above the
threshold. -/
def Regresses (t : Tree) (s : Settings) (b : Benchmark) : Prop :=
  ∃ base ns, t.FirstMean s.root s.baselineLabel b base ∧ t.FirstMean s.root s.currentLabel b ns ∧
    ¬base.IsZero ∧ (changePercent base ns).IsFinite ∧ s.threshold < changePercent base ns

/-- What a tree calls for under given settings. -/
inductive Judged (t : Tree) (s : Settings) : Verdict → Prop
  | noMeasurements (absent : ¬t.isDirectory s.root) :
      Judged t s (.noMeasurements s.build.shown s.baseline)
  | noBaseline (present : t.isDirectory s.root) (missing : ¬t.Measured s.root s.baselineLabel) :
      Judged t s (.noBaseline s.baseline)
  | noCurrent (baseline : t.Measured s.root s.baselineLabel)
      (missing : ¬t.Measured s.root s.currentLabel) : Judged t s (.noCurrent s.current)
  | pass (baseline : t.Measured s.root s.baselineLabel) (current : t.Measured s.root s.currentLabel)
      (steady : ∀ b, ¬t.Regresses s b) : Judged t s .pass
  | fail {bs : List Benchmark} (nodup : bs.Nodup) (regress : ∀ b, b ∈ bs ↔ t.Regresses s b)
      (some : bs ≠ []) : Judged t s (.fail bs.length s.threshold s.strict)

theorem Measured.isDirectory {root label : Path} (h : t.Measured root label) :
    t.isDirectory root := by
  obtain ⟨b, ns, n, hn, -⟩ := h
  exact hn.isDirectory

theorem Regresses.measured {b : Benchmark} (h : t.Regresses s b) :
    t.Measured s.root s.baselineLabel ∧ t.Measured s.root s.currentLabel := by
  obtain ⟨base, ns, hbase, hns, -⟩ := h
  exact ⟨⟨b, base, hbase⟩, ⟨b, ns, hns⟩⟩

theorem Judged.exitCode {v : Verdict} (h : t.Judged s v) :
    v.exitCode = 1 ∧ (∃ n, v = .fail n s.threshold s.strict) ∨
      v.exitCode = 0 ∧ ¬∃ n, v = .fail n s.threshold s.strict := by
  cases h with
  | fail => exact .inl ⟨rfl, _, rfl⟩
  | _ => exact .inr ⟨rfl, by simp⟩

end Tree

namespace Verdict

variable {c : Classification} {threshold : Binary64} {strict : Bool}

theorem ofClassification_pass (h : c.regressions.length = 0) :
    ofClassification c threshold strict = .pass := by
  simp [ofClassification, Classification.hasRegressions, List.length_eq_zero_iff.mp h]

theorem ofClassification_fail (h : 0 < c.regressions.length) :
    ofClassification c threshold strict = .fail c.regressions.length threshold strict := by
  simp [ofClassification, Classification.hasRegressions, List.length_pos_iff.mp h]

end Verdict

open Estimate

variable {t : Tree} {s : Settings} {v : Verdict}

theorem isEmpty_loadEstimates {root label : Path} :
    (loadEstimates t root label).estimates.isEmpty ↔ ¬t.Measured root label := by
  rw [EstimateSet.isEmpty_iff, Tree.Measured, not_exists]
  apply forall_congr'
  intro b
  rw [Option.eq_none_iff_forall_ne_some, not_exists]
  exact forall_congr' fun ns => not_congr (get?_load t.lists_list)

theorem regression?_loadEstimates {b : Benchmark} :
    (regression? s.threshold (loadEstimates t s.root s.baselineLabel).estimates
      (loadEstimates t s.root s.currentLabel).estimates b).isSome ↔ t.Regresses s b := by
  simp only [regression?_isSome_iff, loadEstimates, get?_load t.lists_list, Tree.Regresses]

theorem length_regressions_loadEstimates (t : Tree) (s : Settings) :
    ∃ bs : List Benchmark, bs.Nodup ∧ (∀ b, b ∈ bs ↔ t.Regresses s b) ∧
      (s.classification t).regressions.length = bs.length := by
  obtain ⟨bs, hnodup, hmem, hlength⟩ := length_regressions s.threshold
    (loadEstimates t s.root s.baselineLabel).estimates
    (loadEstimates t s.root s.currentLabel).estimates
  exact ⟨bs, hnodup, fun b => (hmem b).trans regression?_loadEstimates, hlength⟩

theorem exists_judged (t : Tree) (s : Settings) : ∃ v, t.Judged s v := by
  by_cases hroot : t.isDirectory s.root
  · by_cases hbaseline : t.Measured s.root s.baselineLabel
    · by_cases hcurrent : t.Measured s.root s.currentLabel
      · obtain ⟨bs, hnodup, hmem, -⟩ := length_regressions_loadEstimates t s
        by_cases hbs : bs = []
        · subst hbs
          exact ⟨_, .pass hbaseline hcurrent fun b hb => List.not_mem_nil ((hmem b).mpr hb)⟩
        · exact ⟨_, .fail hnodup hmem hbs⟩
      · exact ⟨_, .noCurrent hbaseline hcurrent⟩
    · exact ⟨_, .noBaseline hroot hbaseline⟩
  · exact ⟨_, .noMeasurements hroot⟩

theorem runGate_absent (hs : s.check = .ok ()) (hroot : ¬t.isDirectory s.root) :
    runGate t s = .ok (.conclude [] (.noMeasurements s.build.shown s.baseline) none) := by
  rw [Settings.root] at hroot
  rw [runGate, hs, findDirectory?]
  simp only [hroot]
  rfl

theorem runGate_present (hs : s.check = .ok ()) (hroot : t.isDirectory s.root) :
    runGate t s = .ok (judge s (loadEstimates t s.root s.baselineLabel)
      (loadEstimates t s.root s.currentLabel)) := by
  rw [Settings.root] at *
  rw [runGate, hs, findDirectory?]
  simp only [hroot]
  rfl

theorem judge_measured (hbaseline : t.Measured s.root s.baselineLabel)
    (hcurrent : t.Measured s.root s.currentLabel) :
    judge s (loadEstimates t s.root s.baselineLabel) (loadEstimates t s.root s.currentLabel) =
      .conclude ((loadEstimates t s.root s.baselineLabel).warnings ++
        (loadEstimates t s.root s.currentLabel).warnings)
        (.ofClassification (s.classification t) s.threshold s.strict)
        (some (s.report (s.classification t))) := by
  rw [judge, if_neg (mt isEmpty_loadEstimates.mp (not_not.mpr hbaseline)),
    if_neg (mt isEmpty_loadEstimates.mp (not_not.mpr hcurrent))]
  rfl

/-- A run with measurements under both labels reports on their comparison. -/
theorem runGate_measured (hs : s.check = .ok ()) (hbaseline : t.Measured s.root s.baselineLabel)
    (hcurrent : t.Measured s.root s.currentLabel) :
    runGate t s = .ok (.conclude ((loadEstimates t s.root s.baselineLabel).warnings ++
      (loadEstimates t s.root s.currentLabel).warnings)
      (.ofClassification (s.classification t) s.threshold s.strict)
      (some (s.report (s.classification t)))) := by
  rw [runGate_present hs hbaseline.isDirectory, judge_measured hbaseline hcurrent]

/-- Two loaded runs end in the verdict that the tree calls for. -/
theorem judge_loadEstimates (hroot : t.isDirectory s.root) (h : t.Judged s v) :
    ∃ report, judge s (loadEstimates t s.root s.baselineLabel)
        (loadEstimates t s.root s.currentLabel) =
      .conclude ((loadEstimates t s.root s.baselineLabel).warnings ++
        (loadEstimates t s.root s.currentLabel).warnings) v report ∧
      (report.isSome ↔ v = .pass ∨ ∃ n, v = .fail n s.threshold s.strict) := by
  obtain ⟨regressing, hnodup, hmem, hlength⟩ := length_regressions_loadEstimates t s
  cases h with
  | noMeasurements absent => exact absurd hroot absent
  | noBaseline present missing =>
    rw [judge, if_pos (isEmpty_loadEstimates.mpr missing)]
    exact ⟨none, rfl, by simp⟩
  | noCurrent baseline missing =>
    rw [judge, if_neg (mt isEmpty_loadEstimates.mp (not_not.mpr baseline)),
      if_pos (isEmpty_loadEstimates.mpr missing)]
    exact ⟨none, rfl, by simp⟩
  | pass baseline current steady =>
    have hnone : regressing = [] :=
      List.eq_nil_iff_forall_not_mem.mpr fun b hb => steady b ((hmem b).mp hb)
    rw [hnone, List.length_nil] at hlength
    rw [judge_measured baseline current, Verdict.ofClassification_pass hlength]
    exact ⟨_, rfl, by simp⟩
  | @fail bs nodup regress some =>
    obtain ⟨b, hb⟩ := List.exists_mem_of_ne_nil bs some
    obtain ⟨hbaseline, hcurrent⟩ := ((regress b).mp hb).measured
    have hperm : regressing.Perm bs :=
      (List.perm_ext_iff_of_nodup hnodup nodup).mpr fun b => (hmem b).trans (regress b).symm
    have hpos : 0 < (s.classification t).regressions.length := by
      rw [hlength, hperm.length_eq]
      exact List.length_pos_iff.mpr some
    rw [judge_measured hbaseline hcurrent, Verdict.ofClassification_fail hpos, hlength,
      hperm.length_eq]
    exact ⟨_, rfl, by simp⟩

theorem warnings_loadEstimates {root label : Path} (hroot : t.isDirectory root) :
    (loadEstimates t root label).warnings =
      (caseNames t t.list root).filterMap (CaseName.warning? t root label) := by
  rw [loadEstimates, load_directory t.lists_list hroot]

/-- A run ends in the verdict that the tree calls for, after the warnings about the refused files of
both labels in the order of their case directories. -/
theorem runGate_conclude (hs : s.check = .ok ()) (h : t.Judged s v) :
    ∃ ns report, t.Cases s.root ns ∧
      runGate t s = .ok (.conclude (ns.filterMap (CaseName.warning? t s.root s.baselineLabel) ++
        ns.filterMap (CaseName.warning? t s.root s.currentLabel)) v report) ∧
      (report.isSome ↔ v = .pass ∨ ∃ n, v = .fail n s.threshold s.strict) := by
  have hcases := cases_caseNames t.lists_list s.root
  by_cases hroot : t.isDirectory s.root
  · obtain ⟨report, hjudge, hreport⟩ := judge_loadEstimates hroot h
    refine ⟨_, report, hcases, ?_, hreport⟩
    rw [runGate_present hs hroot, hjudge, warnings_loadEstimates hroot,
      warnings_loadEstimates hroot]
  · have hnone : caseNames t t.list s.root = [] :=
      List.eq_nil_iff_forall_not_mem.mpr fun n hn => hroot ((hcases.mem_iff n).mp hn).isDirectory
    rw [hnone] at hcases
    have hv : v = .noMeasurements s.build.shown s.baseline := by
      cases h with
      | noMeasurements absent => rfl
      | noBaseline present missing => exact absurd present hroot
      | noCurrent baseline missing => exact absurd baseline.isDirectory hroot
      | pass baseline current steady => exact absurd baseline.isDirectory hroot
      | @fail bs nodup regress some =>
        obtain ⟨b, hb⟩ := List.exists_mem_of_ne_nil bs some
        exact absurd ((regress b).mp hb).measured.1.isDirectory hroot
    refine ⟨[], none, hcases, ?_, by simp [hv]⟩
    rw [runGate_absent hs hroot, hv]
    rfl

/-- The run on a tree: its verdict is the one the tree calls for, it fails only for regressions, it
reports what it compared, and it tells of the refused files and of the verdict. -/
theorem runGate_judged (t : Tree) (hs : s.check = .ok ()) :
    ∃ r, runGate t s = .ok r ∧ (∀ v, r.verdict = v ↔ t.Judged s v) ∧
      (r.exitCode = 1 ∧ (∃ n, r.verdict = .fail n s.threshold s.strict) ∨
        r.exitCode = 0 ∧ ¬∃ n, r.verdict = .fail n s.threshold s.strict) ∧
      (r.report.isSome ↔ r.verdict = .pass ∨ ∃ n, r.verdict = .fail n s.threshold s.strict) ∧
      ∃ ns, t.Cases s.root ns ∧
        r.diagnostics = (ns.filterMap (CaseName.warning? t s.root s.baselineLabel) ++
          ns.filterMap (CaseName.warning? t s.root s.currentLabel)).map LoadWarning.message ++
          r.verdict.diagnostics := by
  obtain ⟨v, hv⟩ := exists_judged t s
  obtain ⟨ns, report, hcases, hrun, hreport⟩ := runGate_conclude hs hv
  -- Whatever the tree calls for is what the run ends in, so it calls for nothing else.
  have hunique (w : Verdict) (hw : t.Judged s w) : v = w := by
    obtain ⟨ns', report', -, hrun', -⟩ := runGate_conclude hs hw
    have h := Except.ok.inj (hrun.symm.trans hrun')
    exact congrArg GateRun.verdict h
  have hverdict (w : Verdict) : v = w ↔ t.Judged s w := ⟨fun h => h ▸ hv, hunique w⟩
  exact ⟨_, hrun, hverdict, hv.exitCode, hreport, ns, hcases, rfl⟩

/-- A case that takes twice its time and one that is measured under the first label only. -/
def doubled : Tree :=
  .ofMeasurements
    [(Utf8.encode "g", [(Utf8.encode "a", [("main", "[[100]]"), ("pr", "[[200]]")]),
      (Utf8.encode "b", [("main", "[[1]]")])])]

theorem runGate_doubled :
    ∃ r, runGate doubled {} = .ok r ∧ r.verdict = .fail 1 10 false ∧ r.exitCode = 1 ∧
      r.report.isSome := by
  obtain ⟨r, hrun, hverdict, hcode, hreport, -⟩ :=
    runGate_judged doubled (s := {}) (by decide +kernel)
  have hregress (b : Benchmark) : b ∈ [⟨"g", "a"⟩] ↔ doubled.Regresses {} b := by
    constructor
    · rintro hb
      obtain rfl := List.mem_singleton.mp hb
      exact ⟨100, 200, by decide +kernel, by decide +kernel, by decide +kernel, by decide +kernel,
        by decide +kernel⟩
    · rintro ⟨base, ns, -, ⟨n, hn, rfl, hmean, -⟩, -⟩
      have hone : ∀ n ∈ Tree.caseNames (doubled.directories doubled.list) ({} : Settings).root,
          (n.mean? doubled ({} : Settings).root ({} : Settings).currentLabel).isSome →
            n.benchmark = ⟨"g", "a"⟩ := by
        decide +kernel
      exact List.mem_singleton.mpr (hone n (Tree.mem_caseNames_list.mpr hn) (by simp [hmean]))
  have hfail : r.verdict = .fail 1 10 false :=
    (hverdict _).mpr (.fail (by decide) hregress (by decide))
  refine ⟨r, hrun, hfail, ?_, hreport.mpr (.inr ⟨1, hfail⟩)⟩
  rcases hcode with ⟨hcode, -⟩ | ⟨-, hnot⟩
  · exact hcode
  · exact absurd ⟨1, hfail⟩ hnot

end RegressionGate
