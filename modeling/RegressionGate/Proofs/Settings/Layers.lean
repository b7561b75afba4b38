import Mathlib.Data.List.Induction
import RegressionGate.CommandLine.Option
import RegressionGate.Proofs.Gate.Report

/-! Settings in layers. Each layer sets some of the settings: the defaults all of them, settings
files and a command line what they give. The highest layer that sets a setting decides it, whatever
the layers below hold and whatever becomes of the other settings, and a run is accepted by what the
settings come to. -/

namespace RegressionGate

/-- One of the settings of a run. -/
inductive Setting
  | threshold
  | baseline
  | current
  | build
  | format
  | strict
deriving DecidableEq, Repr

namespace Setting

/-- What a setting holds. -/
def Value : Setting → Type
  | threshold => Binary64
  | baseline | current => String
  | build => Path
  | format => ReportFormat
  | strict => Bool

/-- Whether a run makes sense with a value of a setting. -/
def Accepts : (f : Setting) → f.Value → Prop
  | threshold => fun x : Binary64 => x.IsFinite ∧ ¬x < Binary64.zero false
  | baseline | current => fun label : String => ¬Text.isBlank label
  | build | format | strict => fun _ => True

end Setting

/-- Values for some of the settings. -/
def Layer : Type := (f : Setting) → Option f.Value

def Settings.get (s : Settings) : (f : Setting) → f.Value
  | .threshold => s.threshold
  | .baseline => s.baseline
  | .current => s.current
  | .build => s.build
  | .format => s.format
  | .strict => s.strict

def Overrides.layer (o : Overrides) : Layer
  | .threshold => o.threshold
  | .baseline => o.baseline
  | .current => o.current
  | .build => o.build
  | .format => o.format
  | .strict => o.strict

/-- What a command line sets. Asking for JSON sets the format, and strictness is set by asking for
it only. -/
def CommandLine.Arguments.layer (a : Arguments) : Layer
  | .threshold => a.threshold
  | .baseline => a.baseline
  | .current => a.current
  | .build => a.build
  | .format => if a.json then some .json else a.format
  | .strict => if a.strict then some true else none

/-- The value of a setting in the last of the layers that set it; the default when none does. -/
def lastSet (layers : List Layer) (f : Setting) : f.Value :=
  ((layers.filterMap fun layer => layer f).getLast?).getD (({} : Settings).get f)

section Layers

variable {t : Tree} {s : Settings} {layers lower : List Layer} {higher : Layer} {f : Setting}

theorem lastSet_concat :
    lastSet (lower ++ [higher]) f = (higher f).getD (lastSet lower f) := by
  rw [lastSet, List.filterMap_append]
  cases h : higher f with
  | none => simp [h, lastSet]
  | some v => simp [h]

/-- Of two layers the higher one decides where it sets anything. -/
theorem lastSet_pair {lower higher : Layer} :
    lastSet [lower, higher] f =
      (higher f).getD ((lower f).getD (({} : Settings).get f)) := by
  have h : [lower, higher] = ([] ++ [lower]) ++ [higher] := rfl
  rw [h, lastSet_concat, lastSet_concat]
  rfl

theorem Settings.get_override (s : Settings) (o : Overrides) (f : Setting) :
    (s.override o).get f = (o.layer f).getD (s.get f) := by
  cases f <;> rfl

/-- Overrides applied one after another, the last of them on top. -/
theorem Settings.get_overrides (os : List Overrides) (f : Setting) :
    (os.foldl Settings.override {}).get f = lastSet (os.map Overrides.layer) f := by
  induction os using List.reverseRecOn with
  | nil => rfl
  | append_singleton os o ih =>
    rw [List.foldl_append, List.map_append, List.map_singleton, lastSet_concat, ← ih]
    exact Settings.get_override _ _ _

theorem CommandLine.Arguments.format_settings (a : Arguments) (o : Overrides) :
    (a.settings o).format = if a.json then .json else (a.format.or o.format).getD .text := by
  rw [settings, Settings.override]
  cases a.json with
  | true => rfl
  | false => cases a.format <;> rfl

theorem CommandLine.Arguments.strict_settings (a : Arguments) (o : Overrides) :
    (a.settings o).strict = (a.strict || o.strict.getD false) := by
  rw [settings, Settings.override]
  cases a.strict <;> rfl

theorem CommandLine.Arguments.get_settings (a : Arguments) (o : Overrides) (f : Setting) :
    (a.settings o).get f = lastSet [o.layer, a.layer] f := by
  rw [lastSet_pair]
  cases f <;> rfl

/-! ### Acceptance -/

theorem Settings.check_eq_ok_iff_accepts :
    s.check = .ok () ↔ ∀ f : Setting, f.Accepts (s.get f) := by
  rw [check_eq_ok_iff]
  constructor
  · rintro ⟨hthreshold, hbaseline, hcurrent⟩ f
    cases f with
    | threshold => exact hthreshold
    | baseline => exact hbaseline
    | current => exact hcurrent
    | build | format | strict => trivial
  · exact fun h => ⟨h .threshold, h .baseline, h .current⟩

theorem runGate_accepted_iff : (∃ r, runGate t s = .ok r) ↔ ∀ f : Setting, f.Accepts (s.get f) := by
  rw [← Settings.check_eq_ok_iff_accepts]
  constructor
  · exact fun ⟨r, hr⟩ => check_of_runGate hr
  · intro hs
    obtain ⟨v, hv⟩ := exists_judged t s
    obtain ⟨ns, report, -, hrun, -⟩ := runGate_conclude hs hv
    exact ⟨_, hrun⟩

/-- Settings in layers are those of the last layers that set them: settings files one above the
other over the defaults, and a command line over a settings file, where asking for JSON settles the
format and strictness is asked for by either. A setting depends on its own values only, and on those
of the file just when the command line has none. A run is accepted by what each setting comes to, so
a value that makes no sense is refused when it is on top and of no account below another. -/
theorem settings_layered (t : Tree) (os : List Overrides) (a : CommandLine.Arguments)
    (o : Overrides) :
    (∀ f, (os.foldl Settings.override {}).get f = lastSet (os.map Overrides.layer) f) ∧
    (∀ f, (a.settings o).get f = lastSet [o.layer, a.layer] f) ∧
    (a.settings o).format = (if a.json then .json else (a.format.or o.format).getD .text) ∧
    (a.settings o).strict = (a.strict || o.strict.getD false) ∧
    ((∃ r, runGate t (os.foldl Settings.override {}) = .ok r) ↔
      ∀ f : Setting, f.Accepts (lastSet (os.map Overrides.layer) f)) ∧
    ((∃ r, runGate t (a.settings o) = .ok r) ↔
      ∀ f : Setting, f.Accepts (lastSet [o.layer, a.layer] f)) ∧
    (∀ (a' : CommandLine.Arguments) (o' : Overrides) (f : Setting), a'.layer f = a.layer f →
      (a.layer f = none → o'.layer f = o.layer f) →
        (a'.settings o').get f = (a.settings o).get f) ∧
    ∀ f v, a.layer f = some v → ¬f.Accepts v → ¬∃ r, runGate t (a.settings o) = .ok r := by
  refine ⟨Settings.get_overrides os, a.get_settings o, a.format_settings o, a.strict_settings o,
    ?_, ?_, fun a' o' f ha ho => ?_, fun f v hv hnot => ?_⟩
  · simp only [runGate_accepted_iff, Settings.get_overrides]
  · simp only [runGate_accepted_iff, CommandLine.Arguments.get_settings]
  · rw [a'.get_settings, a.get_settings, lastSet_pair, lastSet_pair, ha]
    cases h : a.layer f with
    | none => rw [ho h]
    | some v => rfl
  · rw [runGate_accepted_iff]
    intro haccepts
    have hf := haccepts f
    rw [a.get_settings, lastSet_pair, hv] at hf
    exact hnot hf

/-- A threshold below zero in the settings file is of no account below another on the command line,
and on the command line it is refused, although the file alone would do. -/
theorem settings_layered_negative :
    let mild : CommandLine.Arguments := { threshold := some 5 }
    let negative : CommandLine.Arguments := { threshold := some (-5) }
    (∃ r, runGate doubled (mild.settings { threshold := some (-5) }) = .ok r) ∧
      (∃ r, runGate doubled (({} : CommandLine.Arguments).settings { threshold := some 5 }) =
        .ok r) ∧
      ¬∃ r, runGate doubled (negative.settings { threshold := some 5 }) = .ok r := by
  have haccepts {layers : List Layer}
      (hset : ∀ f, lastSet layers f = ({ threshold := 5 } : Settings).get f) (f : Setting) :
      f.Accepts (lastSet layers f) := by
    rw [hset]
    exact Settings.check_eq_ok_iff_accepts.mp (by decide +kernel) f
  obtain ⟨-, -, -, -, -, hmild, -, -⟩ :=
    settings_layered doubled [] { threshold := some 5 } { threshold := some (-5) }
  obtain ⟨-, -, -, -, -, hfile, -, -⟩ := settings_layered doubled [] {} { threshold := some 5 }
  obtain ⟨-, -, -, -, -, -, -, hnegative⟩ :=
    settings_layered doubled [] { threshold := some (-5) } { threshold := some 5 }
  refine ⟨hmild.mpr (haccepts fun f => ?_), hfile.mpr (haccepts fun f => ?_), ?_⟩
  · cases f <;> rfl
  · cases f <;> rfl
  · refine hnegative .threshold (-5 : Binary64) rfl fun hfive => ?_
    exact absurd hfive.2 (by decide +kernel)

end Layers

end RegressionGate
