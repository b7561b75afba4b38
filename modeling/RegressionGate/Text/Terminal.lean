/-! What a terminal shows of a text: its control sequences are left out, and so are the control
characters that make no white space. -/

namespace RegressionGate.Text

/-- What the characters so far make of the next one. -/
inductive TerminalState
  | text
  /-- Behind an escape character. -/
  | escape
  /-- Behind an escape character and intermediate characters. -/
  | intermediates
  /-- Within a control sequence. -/
  | sequence
  /-- Within a command for the operating system, which the bell ends. -/
  | command
  /-- At the beginning of a string for a device. -/
  | device
  /-- Within the parameters of a string for a device. -/
  | deviceParameters
  /-- Behind the parameters of a string for a device. -/
  | deviceIntermediates
  /-- Within a string for a device or an application, which the terminator ends. -/
  | string
deriving DecidableEq, Repr

/-- What becomes of a control sequence with white space in it: a text that is shown on its own takes
its rest for text, and a stream goes on with it as soon as the text behind the white space is
interrupted. -/
inductive Interruption
  | breaksOff
  | suspends
deriving DecidableEq, Repr

namespace TerminalState

def escapeCharacter : Char := '\x1b'

def bell : Char := '\x07'

/-- The byte that ends a string, also as part of a character. -/
def terminator : UInt8 := 0x9c

def isCancel (c : Char) : Bool := c = '\x18' || c = '\x1a'

def isLayout (c : Char) : Bool := c = '\t' || c = '\n' || c = '\x0c' || c = '\r'

def isControl (c : Char) : Bool := c < ' ' || c = '\x7f'

def isBeyondAscii (c : Char) : Bool := '\x7f' < c

def isShown (c : Char) : Bool := !isControl c || isLayout c

def endsString (c : Char) : Bool := (String.utf8EncodeChar c).contains terminator

/-- The state behind a character that is `next` for a visible ASCII character and stays as it is
for any other. -/
def unlessVisible (state next : TerminalState) (c : Char) : TerminalState :=
  if isControl c || isBeyondAscii c then state else next

/-- Whether a character is shown, and what it makes of the next one. -/
def step (state : TerminalState) (c : Char) : Bool × TerminalState :=
  if c = escapeCharacter then (false, escape)
  else if isCancel c then (false, text)
  else
    match state with
    | text => (isShown c, text)
    | escape =>
      (isLayout c, state.unlessVisible
        (if c < '0' then intermediates
        else if c = '[' then sequence
        else if c = ']' then command
        else if c = 'P' then device
        else if c ∈ ['X', '^', '_'] then string
        else text) c)
    | intermediates => (isLayout c, state.unlessVisible (if c < '0' then state else text) c)
    | sequence => (isLayout c, state.unlessVisible (if c < '@' then state else text) c)
    | command => (false, if c = bell then text else state)
    | device =>
      (false, state.unlessVisible
        (if c < '0' then deviceIntermediates else if c < '@' then deviceParameters else string) c)
    | deviceParameters =>
      (false, state.unlessVisible
        (if c < '0' then deviceIntermediates else if c < '<' then state else string) c)
    | deviceIntermediates => (false, state.unlessVisible (if c < '0' then state else string) c)
    | string => (false, if endsString c then text else state)

end TerminalState

/-- The characters that are shown from a state on. While text is `running`, it goes on to the next
character that is not shown as text, and the state is that of what the text interrupts. -/
def shownFrom (i : Interruption) (state : TerminalState) (running : Bool) : List Char → List Char
  | [] => []
  | c :: r =>
    if running && TerminalState.isShown c then
      c :: shownFrom i (if TerminalState.isBeyondAscii c then .text else state) true r
    else
      match state.step c with
      | (true, next) => c :: shownFrom i (if i = .breaksOff then .text else next) true r
      | (false, next) => shownFrom i next false r

def shownOnTerminal (i : Interruption) (s : String) : String :=
  String.ofList (shownFrom i .text false s.toList)

end RegressionGate.Text
