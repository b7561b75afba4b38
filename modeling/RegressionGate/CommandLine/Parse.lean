import RegressionGate.CommandLine.Option
import RegressionGate.Decimal.Literal
import RegressionGate.Text.Terminal

/-! Reading a command line. An option's value is judged when the next option that is known comes up
or the line ends; an argument that is not known ends the reading at once. Arguments are texts:
bytes that are no text, which can name a build directory or a settings file, are not modelled. -/

namespace RegressionGate.CommandLine

inductive ArgumentError
  | unexpectedArgument (argument : String)
  | unexpectedValue (value option : String)
  | missingValue (option : ValueOption)
  | invalidFormat (value : String)
  | invalidThreshold (value : String)
  | repeated (option : String)
  | conflict (first second : String)
deriving DecidableEq, Repr

def given (i : Text.Interruption) (s : String) : String :=
  "'" ++ Text.shownOnTerminal i s ++ "'"

/-- What the message about an error says at its beginning, up to the end of a line. The advice and
the usage that follow on further lines are not modelled. -/
def ArgumentError.shown (i : Text.Interruption) : ArgumentError → String
  | unexpectedArgument argument => "error: unexpected argument " ++ given i argument ++ " found"
  | unexpectedValue value option =>
    "error: unexpected value " ++ given i value ++ " for '" ++ option ++
      "' found; no more were expected"
  | missingValue option =>
    "error: a value is required for '" ++ option.shown ++ "' but none was supplied"
  | invalidFormat value =>
    "error: invalid value " ++ given i value ++ " for '" ++ ValueOption.format.shown ++ "'"
  | invalidThreshold value =>
    "error: invalid value " ++ given i value ++ " for '" ++ ValueOption.threshold.shown ++ "': " ++
      if value = "" then "cannot parse float from empty string" else "invalid float literal"
  | repeated option => "error: the argument '" ++ option ++ "' cannot be used multiple times"
  | conflict first second =>
    "error: the argument '" ++ first ++ "' cannot be used with '" ++ second ++ "'"

/-- The same of the message as a text on its own. -/
def ArgumentError.message : ArgumentError → String := shown .breaksOff

/-- What a command line asks for. -/
inductive Request
  | run (arguments : Arguments)
  | shortHelp
  | longHelp
  | version
deriving DecidableEq, Repr

def Arguments.set (a : Arguments) (option : ValueOption) (value : String) :
    Except ArgumentError Arguments :=
  match option with
  | .threshold =>
    match Decimal.read? value.toList with
    | some x => .ok { a with threshold := some x }
    | none => .error (.invalidThreshold value)
  | .baseline => .ok { a with baseline := some value }
  | .current => .ok { a with current := some value }
  | .build =>
    if value = "" then .error (.missingValue option)
    else .ok { a with build := some (.ofString value) }
  | .format =>
    if value = "text" then .ok { a with format := some .text }
    else if value = "json" then .ok { a with format := some .json }
    else if value = "" then .error (.missingValue option)
    else .error (.invalidFormat value)
  | .config =>
    if value = "" then .error (.missingValue option)
    else .ok { a with config := some (.ofString value) }

/-- How far the reading of a command line has come: what is settled, the last option with its value
if it has got one yet, and the one given first of the two that ask for a format. -/
structure Progress where
  settled : Arguments := {}
  pending : Option (ValueOption × Option String) := none
  jsonFirst : Bool := false

namespace Progress

def settle (p : Progress) : Except ArgumentError Progress :=
  match p.pending with
  | none => .ok p
  | some (option, none) => .error (.missingValue option)
  | some (option, some value) =>
    if p.settled.has option then .error (.repeated option.shown)
    else do .ok { p with settled := ← p.settled.set option value, pending := none }

def takeFlag (p : Progress) (flag : Flag) : Except ArgumentError Progress := do
  let p ← p.settle
  if p.settled.hasFlag flag then .error (.repeated flag.long)
  else
    let jsonFirst := if flag = .json then p.settled.format.isNone else p.jsonFirst
    .ok { p with settled := p.settled.setFlag flag, jsonFirst }

def finish (p : Progress) : Except ArgumentError Request := do
  let p ← p.settle
  if p.settled.json && p.settled.format.isSome then
    if p.jsonFirst then .error (.conflict Flag.json.long ValueOption.format.shown)
    else .error (.conflict ValueOption.format.shown Flag.json.long)
  else .ok (.run p.settled)

end Progress

def splitAttached (argument : String) : String × Option String :=
  let cs := argument.toList
  match cs.dropWhile (· ≠ '=') with
  | _ :: value => (String.ofList (cs.takeWhile (· ≠ '=')), some (String.ofList value))
  | [] => (argument, none)

def readFrom : Progress → List String → Except ArgumentError Request
  | p, [] => p.finish
  | p, argument :: rest =>
    match argument.toList with
    | ['-', '-'] =>
      match rest with
      | [] => p.finish
      | next :: _ => .error (.unexpectedArgument next)
    | '-' :: '-' :: _ =>
      let (name, attached) := splitAttached argument
      match ValueOption.ofLong? name with
      | some option => do
        let p ← p.settle
        let p : Progress := { p with pending := some (option, attached) }
        let p ← if attached.isSome then p.settle else .ok p
        readFrom p rest
      | none =>
        match Flag.ofLong? name, attached with
        | some flag, none => do readFrom (← p.takeFlag flag) rest
        | some flag, some value => .error (.unexpectedValue value flag.long)
        | none, _ =>
          if name = "--help" ∨ name = "--version" then
            match attached with
            | some value => .error (.unexpectedValue value name)
            | none => do
              let _ ← p.settle
              .ok (if name = "--help" then .longHelp else .version)
          else .error (.unexpectedArgument name)
    | '-' :: c :: _ =>
      if c = 'h' ∨ c = 'V' then do
        let _ ← p.settle
        .ok (if c = 'h' then .shortHelp else .version)
      else .error (.unexpectedArgument (String.ofList ['-', c]))
    | _ =>
      match p.pending with
      | some (option, none) => readFrom { p with pending := some (option, some argument) } rest
      | _ => .error (.unexpectedArgument argument)

/-- The request that a command line makes, each of its arguments being a text. -/
def read (arguments : List String) : Except ArgumentError Request := readFrom {} arguments

end RegressionGate.CommandLine
