import RegressionGate.Settings.Basic

/-! The options of the command line and the arguments that a command line can give. -/

namespace RegressionGate.CommandLine

/-- An option that takes a value. -/
inductive ValueOption
  | threshold
  | baseline
  | current
  | build
  | format
  | config
deriving DecidableEq, Repr

/-- An option without a value. -/
inductive Flag
  | json
  | strict
  | debug
deriving DecidableEq, Repr

namespace ValueOption

def all : List ValueOption := [threshold, baseline, current, build, format, config]

def long : ValueOption → String
  | threshold => "--threshold"
  | baseline => "--baseline"
  | current => "--current"
  | build => "--target-dir"
  | format => "--format"
  | config => "--config"

def placeholder : ValueOption → String
  | threshold => "<PCT>"
  | baseline | current => "<NAME>"
  | build => "<DIR>"
  | format => "<FORMAT>"
  | config => "<FILE>"

def shown (o : ValueOption) : String := o.long ++ " " ++ o.placeholder

def ofLong? (name : String) : Option ValueOption := all.find? fun o => o.long == name

end ValueOption

namespace Flag

def all : List Flag := [json, strict, debug]

def long : Flag → String
  | json => "--json"
  | strict => "--strict"
  | debug => "--debug"

def ofLong? (name : String) : Option Flag := all.find? fun f => f.long == name

end Flag

/-- What a command line gives. -/
structure Arguments where
  threshold : Option Binary64 := none
  baseline : Option String := none
  current : Option String := none
  build : Option Path := none
  format : Option ReportFormat := none
  config : Option Path := none
  json : Bool := false
  strict : Bool := false
  debug : Bool := false
deriving DecidableEq, Repr

namespace Arguments

def has (a : Arguments) : ValueOption → Bool
  | .threshold => a.threshold.isSome
  | .baseline => a.baseline.isSome
  | .current => a.current.isSome
  | .build => a.build.isSome
  | .format => a.format.isSome
  | .config => a.config.isSome

def hasFlag (a : Arguments) : Flag → Bool
  | .json => a.json
  | .strict => a.strict
  | .debug => a.debug

def setFlag (a : Arguments) : Flag → Arguments
  | .json => { a with json := true }
  | .strict => { a with strict := true }
  | .debug => { a with debug := true }

/-- The settings of a run: what the command line gives, else what the settings file gives, else the
default. Asking for JSON settles the format. -/
def settings (a : Arguments) (file : Overrides) : Settings :=
  let given : Overrides :=
    { threshold := a.threshold
      baseline := a.baseline
      current := a.current
      build := a.build
      format := if a.json then some .json else a.format
      strict := if a.strict then some true else none }
  (({} : Settings).override file).override given

end Arguments

end RegressionGate.CommandLine
