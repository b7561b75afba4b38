import RegressionGate.Json.Number
import RegressionGate.Json.Text

/-! Passing over a value whose content does not matter: its syntax is checked, and the brackets
still open are kept on a stack, so that nesting may be of any depth. -/

namespace RegressionGate.Json

def isBlank (b : UInt8) : Bool := b = 0x20 || b = 0x0a || b = 0x09 || b = 0x0d

def skipBlanks (s : Bytes) : Bytes := s.dropWhile isBlank

/-- The rest of a literal word such as `null`, of which the first letter has been passed. -/
def skipWord : (letters : Bytes) → Bytes → Except Fault Bytes
  | [], s => .ok s
  | l :: ls, b :: r => if b = l then skipWord ls r else .error (.before .expectedWord r)
  | _ :: _, [] => .error ⟨.endInValue, 0⟩

def skipColon (s : Bytes) : Except Fault Bytes :=
  match skipBlanks s with
  | 0x3a :: r => .ok r
  | s => .error (.missing .endInObject .expectedColon s)

/-- A list or an object whose closing bracket is still to come. -/
inductive Bracket
  | list
  | object
deriving DecidableEq, Repr

namespace Bracket

def closing : Bracket → UInt8
  | list => 0x5d
  | object => 0x7d

def atEnd : Bracket → Cause
  | list => .endInList
  | object => .endInObject

def expectedComma : Bracket → Cause
  | list => .expectedCommaOrListEnd
  | object => .expectedCommaOrObjectEnd

/-- What stands before a value between these brackets: nothing in a list, a key and a colon in an
object. -/
def skipKey (b : Bracket) (s : Bytes) : Except Fault Bytes :=
  match b with
  | list => .ok s
  | object =>
    match skipBlanks s with
    | 0x22 :: r => do skipColon (← skim r)
    | s => .error (.missing .endInObject .keyNotString s)

end Bracket

/-- Goes on behind a complete value: closes brackets until a comma calls for another value or none
is left open. -/
def leave : List Bracket → Bytes → Except Fault (List Bracket × Bytes)
  | [], s => .ok ([], s)
  | b :: bs, s =>
    match skipBlanks s with
    | [] => .error ⟨b.atEnd, 0⟩
    | c :: r =>
      if c = b.closing then leave bs r
      else if c = 0x2c then do .ok (b :: bs, ← b.skipKey r)
      else .error (.before b.expectedComma r)

/-- Opens a bracket: goes to its first value, or behind it when it is empty. -/
def enter (b : Bracket) (bs : List Bracket) (s : Bytes) : Except Fault (List Bracket × Bytes) :=
  match skipBlanks s with
  | [] => .error ⟨b.atEnd, 0⟩
  | c :: r => if c = b.closing then leave bs r else do .ok (b :: bs, ← b.skipKey (c :: r))

/-- Passes one word, number, string or opening bracket where a value is due. No bracket is left
open when the value that all began with is complete. -/
def skipToken (bs : List Bracket) (s : Bytes) : Except Fault (List Bracket × Bytes) :=
  match skipBlanks s with
  | [] => .error ⟨.endInValue, 0⟩
  | c :: r =>
    if c = 0x6e then do leave bs (← skipWord [0x75, 0x6c, 0x6c] r)
    else if c = 0x74 then do leave bs (← skipWord [0x72, 0x75, 0x65] r)
    else if c = 0x66 then do leave bs (← skipWord [0x61, 0x6c, 0x73, 0x65] r)
    else if c = 0x22 then do leave bs (← skim r)
    else if c = 0x5b then enter .list bs r
    else if c = 0x7b then enter .object bs r
    else if c = 0x2d ∨ isDigit c then do
      let (_, rest) ← scanLiteral .invalidNumber (c :: r)
      leave bs rest
    else .error (.before .expectedValue r)

/-- Passes tokens until no bracket is open. Each takes at least one byte, so their number is
bounded by that of the bytes. -/
def skipTokens : (bound : Nat) → List Bracket → Bytes → Except Fault Bytes
  | 0, _, s => .error (.missing .endInValue .expectedValue s)
  | bound + 1, bs, s => do
    match ← skipToken bs s with
    | ([], rest) => .ok rest
    | (bs, rest) => skipTokens bound bs rest

def skipValue (s : Bytes) : Except Fault Bytes := skipTokens (s.length + 1) [] s

end RegressionGate.Json
