import RegressionGate.CommandLine.Help
import RegressionGate.CommandLine.Parse
import RegressionGate.Gate
import RegressionGate.Settings.File

/-! The program: what a command line does in a file tree. Its exit code is 0 for a pass, 1 for a
regression and 2 when there is no verdict at all. Two messages are not modelled to their end: below
the first line about an argument the program adds advice and its usage, and it says where a settings
file leaves the grammar of TOML. -/

namespace RegressionGate

/-- What a program leaves behind. Where it ends without a verdict, `errors` goes as far as
`ProgramError.message` and no further. -/
structure Outcome where
  exitCode : Nat
  output : String := ""
  errors : String := ""
deriving DecidableEq, Repr

/-- Why the program ends without a verdict. -/
inductive ProgramError
  | arguments (error : CommandLine.ArgumentError)
  | settingsFile (path : Path) (error : Settings.FileError)
  | settings (error : SettingsError)

def Settings.FileError.messageAt (path : Path) (e : FileError) : String :=
  "Failed to load config file " ++ path.shown ++ ": " ++ e.message

def SettingsError.gateMessage (e : SettingsError) : String :=
  "Invalid benchgate configuration: " ++ e.message

/-- What the program prints before it ends without a verdict: all of it, but for the lines below the
first one about an argument, and for the account of a settings file that is not TOML, in place of
which nothing stands. -/
def ProgramError.message : ProgramError → String
  | arguments e => e.shown .suspends
  | settingsFile path e => "Error: Failed to load " ++ path.shown ++ ": " ++ e.messageAt path
  | settings e => "Error: " ++ e.gateMessage

namespace Outcome

def exitError : Nat := 2

def ofGateRun (r : GateRun) : Outcome where
  exitCode := r.exitCode
  output := (r.report.map (· ++ "\n")).getD ""
  errors := String.join (r.diagnostics.map (· ++ "\n"))

def ofError (e : ProgramError) : Outcome where
  exitCode := exitError
  errors := e.message ++ "\n"

end Outcome

/-- The settings that arguments ask for, those of the settings file they name included. -/
def CommandLine.Arguments.load (a : Arguments) (tree : Tree) : Except ProgramError Settings :=
  match a.config with
  | none => .ok (a.settings {})
  | some path => ((Settings.ofFile tree path).mapError (.settingsFile path)).map a.settings

def CommandLine.Arguments.runGate (a : Arguments) (tree : Tree) :
    Except ProgramError GateRun := do
  (RegressionGate.runGate tree (← a.load tree)).mapError .settings

/-- The program on arguments that are texts. It also takes other bytes as the name of a build
directory or a settings file; such command lines have no counterpart here. -/
def runProgram (arguments : List String) (tree : Tree) : Outcome :=
  match CommandLine.read arguments with
  | .error e => .ofError (.arguments e)
  | .ok .shortHelp => { exitCode := 0, output := CommandLine.shortHelpText }
  | .ok .longHelp => { exitCode := 0, output := CommandLine.longHelpText }
  | .ok .version => { exitCode := 0, output := CommandLine.versionText }
  | .ok (.run a) =>
    match a.runGate tree with
    | .ok r => .ofGateRun r
    | .error e => .ofError e

end RegressionGate
