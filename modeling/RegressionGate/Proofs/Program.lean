import RegressionGate.Program
import RegressionGate.Proofs.Gate.Report

/-! The outcome of a command line. It is refused for its arguments, its settings file or the
settings that come of both, without a look at the measurements; otherwise the gate runs, and the
outcome is what the gate has found. -/

namespace RegressionGate

open CommandLine

variable {t t' : Tree} {arguments : List String} {a : Arguments} {o : Overrides} {s : Settings}

/-- The overrides in the settings file that arguments name; without one there are none. -/
inductive Tree.Provides (t : Tree) : Option Path → Overrides → Prop
  | nothing : Provides t none {}
  | file {path : Path} {text : String} {o : Overrides} (read : t.readText path = .ok text)
      (accepted : Settings.ofText text = .ok o) : Provides t (some path) o

/-- Why a command line is refused in a tree. -/
inductive Tree.Refuses (t : Tree) (arguments : List String) : ProgramError → Prop
  | arguments {e : ArgumentError} (refused : CommandLine.read arguments = .error e) :
      Refuses t arguments (.arguments e)
  | unreadable {a : Arguments} {path : Path} {e : AccessError}
      (run : CommandLine.read arguments = .ok (.run a)) (named : a.config = some path)
      (refused : t.readText path = .error e) : Refuses t arguments (.settingsFile path (.access e))
  | unaccepted {a : Arguments} {path : Path} {text : String} {e : Settings.FileError}
      (run : CommandLine.read arguments = .ok (.run a)) (named : a.config = some path)
      (readable : t.readText path = .ok text) (refused : Settings.ofText text = .error e) :
      Refuses t arguments (.settingsFile path e)
  | settings {a : Arguments} {o : Overrides} {e : SettingsError}
      (run : CommandLine.read arguments = .ok (.run a)) (provided : t.Provides a.config o)
      (refused : (a.settings o).check = .error e) : Refuses t arguments (.settings e)

/-- Whether a command line in a tree asks for a run with the settings `s`. -/
def Tree.AsksFor (t : Tree) (arguments : List String) (s : Settings) : Prop :=
  ∃ a o, CommandLine.read arguments = .ok (.run a) ∧ t.Provides a.config o ∧ s = a.settings o

/-- Whether two trees give the same when the settings file of a command line is read. -/
def SameSettingsFile (arguments : List String) (t t' : Tree) : Prop :=
  ∀ a path, CommandLine.read arguments = .ok (.run a) → a.config = some path →
    t'.readText path = t.readText path

/-! ### Settings files -/

theorem Settings.ofFile_unreadable {path : Path} {e : AccessError}
    (h : t.readText path = .error e) : ofFile t path = .error (.access e) := by
  rw [ofFile, h]
  rfl

theorem Settings.ofFile_readable {path : Path} {text : String} (h : t.readText path = .ok text) :
    ofFile t path = ofText text := by
  rw [ofFile, h]
  rfl

theorem CommandLine.Arguments.load_provided (h : t.Provides a.config o) :
    a.load t = .ok (a.settings o) := by
  rw [Arguments.load]
  generalize a.config = config at h
  cases h with
  | nothing => rfl
  | file hread haccepted =>
    simp only [Settings.ofFile_readable hread, haccepted]
    rfl

theorem CommandLine.Arguments.load_error {path : Path} {e : Settings.FileError}
    (hpath : a.config = some path) (h : Settings.ofFile t path = .error e) :
    a.load t = .error (.settingsFile path e) := by
  rw [Arguments.load, hpath]
  simp only [h]
  rfl

/-! ### Refusals -/

theorem runGate_error {e : SettingsError} (h : s.check = .error e) : runGate t s = .error e := by
  rw [runGate, h]
  rfl

theorem CommandLine.Arguments.runGate_load_error {e : ProgramError} (h : a.load t = .error e) :
    a.runGate t = .error e := by
  rw [Arguments.runGate, h]
  rfl

theorem CommandLine.Arguments.runGate_load (h : a.load t = .ok s) :
    a.runGate t = (RegressionGate.runGate t s).mapError .settings := by
  rw [Arguments.runGate, h]
  rfl

theorem runProgram_ok (h : CommandLine.read arguments = .ok (.run a)) {r : GateRun}
    (hr : a.runGate t = .ok r) : runProgram arguments t = .ofGateRun r := by
  simp only [runProgram, h, hr]

theorem runProgram_error (h : CommandLine.read arguments = .ok (.run a)) {e : ProgramError}
    (he : a.runGate t = .error e) : runProgram arguments t = .ofError e := by
  simp only [runProgram, h, he]

namespace Tree

theorem Refuses.runProgram_eq {e : ProgramError} (h : t.Refuses arguments e) :
    runProgram arguments t = .ofError e := by
  cases h with
  | arguments refused => rw [runProgram, refused]
  | unreadable run named refused =>
    have hload := Arguments.load_error named (Settings.ofFile_unreadable refused)
    exact runProgram_error run (Arguments.runGate_load_error hload)
  | unaccepted run named readable refused =>
    have hload := Arguments.load_error named ((Settings.ofFile_readable readable).trans refused)
    exact runProgram_error run (Arguments.runGate_load_error hload)
  | settings run provided refused =>
    refine runProgram_error run ?_
    rw [Arguments.runGate_load (Arguments.load_provided provided), runGate_error refused]
    rfl

/-- A refusal depends on nothing in the tree but the settings file. -/
theorem Refuses.congr {e : ProgramError} (h : t.Refuses arguments e)
    (hsame : SameSettingsFile arguments t t') : t'.Refuses arguments e := by
  cases h with
  | arguments refused => exact .arguments refused
  | unreadable run named refused =>
    exact .unreadable run named ((hsame _ _ run named).trans refused)
  | unaccepted run named readable refused =>
    exact .unaccepted run named ((hsame _ _ run named).trans readable) refused
  | @settings a o e run provided refused =>
    refine .settings run ?_ refused
    have hsame := hsame a
    generalize a.config = config at provided hsame
    cases provided with
    | nothing => exact .nothing
    | file hread haccepted => exact .file ((hsame _ run rfl).trans hread) haccepted

/-- A command line that asks for a run is refused, or asks for settings that make sense. -/
theorem refuses_or_asksFor (t : Tree) (h : CommandLine.read arguments = .ok (.run a)) :
    (∃ e, t.Refuses arguments e) ∨ ∃ s, t.AsksFor arguments s ∧ s.check = .ok () := by
  suffices hprovided : (∃ e, t.Refuses arguments e) ∨ ∃ o, t.Provides a.config o by
    rcases hprovided with hrefused | ⟨o, ho⟩
    · exact .inl hrefused
    · cases hcheck : (a.settings o).check with
      | error e => exact .inl ⟨_, .settings h ho hcheck⟩
      | ok _ => exact .inr ⟨_, ⟨a, o, h, ho, rfl⟩, hcheck⟩
  cases hconfig : a.config with
  | none => exact .inr ⟨{}, .nothing⟩
  | some path =>
    cases hread : t.readText path with
    | error e => exact .inl ⟨_, .unreadable h hconfig hread⟩
    | ok text =>
      cases haccepted : Settings.ofText text with
      | error e => exact .inl ⟨_, .unaccepted h hconfig hread haccepted⟩
      | ok o => exact .inr ⟨o, .file hread haccepted⟩

theorem AsksFor.runProgram_eq (h : t.AsksFor arguments s) {r : GateRun}
    (hr : runGate t s = .ok r) : runProgram arguments t = .ofGateRun r := by
  obtain ⟨a, o, hrun, hprovided, rfl⟩ := h
  refine runProgram_ok hrun ?_
  rw [Arguments.runGate_load (Arguments.load_provided hprovided), hr]
  rfl

end Tree

/-! ### Outcomes -/

theorem Verdict.exitCode_eq_zero_or_one (v : Verdict) : v.exitCode = 0 ∨ v.exitCode = 1 := by
  cases v <;> simp [exitCode]

/-- A run has no report when measurements are missing, and otherwise the one on its
classification. -/
theorem report_runGate (t : Tree) (hs : s.check = .ok ()) :
    ∃ r, runGate t s = .ok r ∧ (r.verdict.IsMissing → r.report = none) ∧
      (¬r.verdict.IsMissing → r.report = some (s.report (s.classification t))) := by
  obtain ⟨warnings, ⟨v, hv, hrun⟩ | hrun⟩ := runGate_shownAs t hs
  · exact ⟨_, hrun s.format s.strict, fun _ => rfl, fun hnot => absurd hv hnot⟩
  · refine ⟨_, hrun s.format s.strict, fun hmissing => ?_, fun _ => rfl⟩
    have hnot :
        ¬(Verdict.ofClassification (s.classification t) s.threshold s.strict).IsMissing := by
      rw [Verdict.ofClassification]
      split <;> exact id
    exact absurd hmissing hnot

/-- A command line that asks for a run ends with the exit code 2 just when it is refused, and then
prints nothing but the reason, whatever the tree holds beside the settings file. Of a reason the
errors have what `ProgramError.message` has: the first line alone where it is an argument, and no
account of a settings file that is not TOML. Otherwise the exit code is that of the verdict, the
output is the report if measurements were there to compare, and the errors are the diagnostics, a
line for each. -/
theorem runProgram_outcome (t : Tree) (arguments : List String)
    (h : ∀ request, CommandLine.read arguments = .ok request → ∃ a, request = .run a) :
    ((runProgram arguments t).exitCode = 2 ↔ ∃ e, t.Refuses arguments e) ∧
    (∀ e, t.Refuses arguments e →
      (runProgram arguments t).output = "" ∧
      (runProgram arguments t).errors = e.message ++ "\n" ∧
      ∀ t', SameSettingsFile arguments t t' →
        runProgram arguments t' = runProgram arguments t) ∧
    ((¬∃ e, t.Refuses arguments e) → ∃ s r, t.AsksFor arguments s ∧ runGate t s = .ok r ∧
      (runProgram arguments t).exitCode = r.exitCode ∧ (r.exitCode = 0 ∨ r.exitCode = 1) ∧
      (r.verdict.IsMissing → (runProgram arguments t).output = "") ∧
      (¬r.verdict.IsMissing →
        (runProgram arguments t).output = s.report (s.classification t) ++ "\n") ∧
      (runProgram arguments t).errors = String.join (r.diagnostics.map (· ++ "\n"))) := by
  have hjudged (hnot : ¬∃ e, t.Refuses arguments e) :
      ∃ s, t.AsksFor arguments s ∧ s.check = .ok () := by
    cases hread : CommandLine.read arguments with
    | error e => exact absurd ⟨_, .arguments hread⟩ hnot
    | ok request =>
      obtain ⟨a, rfl⟩ := h request hread
      exact (t.refuses_or_asksFor hread).resolve_left hnot
  refine ⟨⟨fun hcode => ?_, fun ⟨e, he⟩ => ?_⟩, fun e he => ?_, fun hnot => ?_⟩
  · by_contra hnot
    obtain ⟨s, hasks, hs⟩ := hjudged hnot
    obtain ⟨r, hr, -⟩ := report_runGate t hs
    rw [hasks.runProgram_eq hr] at hcode
    rcases r.verdict.exitCode_eq_zero_or_one with hzero | hone
    · exact absurd (hzero.symm.trans hcode) (by decide)
    · exact absurd (hone.symm.trans hcode) (by decide)
  · rw [he.runProgram_eq]
    rfl
  · rw [he.runProgram_eq]
    exact ⟨rfl, rfl, fun t' hsame => (he.congr hsame).runProgram_eq⟩
  · obtain ⟨s, hasks, hs⟩ := hjudged hnot
    obtain ⟨r, hr, hmissing, hreport⟩ := report_runGate t hs
    rw [hasks.runProgram_eq hr]
    refine ⟨s, r, hasks, hr, rfl, r.verdict.exitCode_eq_zero_or_one, fun hv => ?_, fun hv => ?_,
      rfl⟩
    · rw [Outcome.ofGateRun, hmissing hv]
      rfl
    · rw [Outcome.ofGateRun, hreport hv]
      rfl

/-- A blank label is refused, with measurements and without. -/
theorem runProgram_outcome_blank :
    CommandLine.read ["--baseline= "] = .ok (.run { baseline := some " " }) ∧
      (runProgram ["--baseline= "] doubled).exitCode = 2 ∧
      (runProgram ["--baseline= "] doubled).output = "" ∧
      runProgram ["--baseline= "] ⟨.directory [], []⟩ = runProgram ["--baseline= "] doubled := by
  have hread : CommandLine.read ["--baseline= "] = .ok (.run { baseline := some " " }) := by
    decide +kernel
  have hrefused : doubled.Refuses ["--baseline= "] (.settings .blankBaseline) :=
    .settings hread .nothing (by decide +kernel)
  obtain ⟨hcode, hclean, -⟩ := runProgram_outcome doubled ["--baseline= "]
    fun request h => ⟨_, Except.ok.inj (h.symm.trans hread)⟩
  obtain ⟨houtput, -, hsame⟩ := hclean _ hrefused
  refine ⟨hread, hcode.mpr ⟨_, hrefused⟩, houtput, hsame _ fun a path h hpath => ?_⟩
  have hrun : Request.run a = .run { baseline := some " " } := Except.ok.inj (h.symm.trans hread)
  have hnone : a.config = none := congrArg Arguments.config (Request.run.inj hrun)
  simp [hnone] at hpath

end RegressionGate
