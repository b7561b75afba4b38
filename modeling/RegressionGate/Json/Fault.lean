import RegressionGate.Text.Quoted
import RegressionGate.Text.Utf8
import RegressionGate.Json.Amount

/-! What can be wrong with a JSON document, and where: the causes, the position of each in lines and
columns, and their wording. -/

namespace RegressionGate.Json

/-- A value met where another kind of value is due. -/
inductive Found
  | null
  | boolean (b : Bool)
  | integer (n : Int)
  | float (x : Binary64)
  | string (s : String)
  | list
  | object
deriving DecidableEq, Repr

inductive Cause
  | endInValue
  | endInList
  | endInObject
  | endInString
  | expectedColon
  | expectedCommaOrListEnd
  | expectedCommaOrObjectEnd
  | expectedWord
  | expectedValue
  | invalidEscape
  | invalidNumber
  | numberOutOfRange
  | malformedText
  | controlCharacter
  | keyNotString
  | loneSurrogate
  | endOfSurrogatePair
  | trailingComma
  | trailingCharacters
  | wrongKind (found : Found) (expected : String)
  | noElement (record : String)
  | missingMember (key : String)
  | repeatedMember (key : String)
deriving DecidableEq, Repr

/-- A cause, and how many bytes of the document lie behind the place where it shows. -/
structure Fault where
  cause : Cause
  left : Nat
deriving DecidableEq, Repr

namespace Fault

/-- A fault at the next byte of `rest`, or at the end when nothing is left. -/
def atNext (cause : Cause) (rest : Bytes) : Fault := ⟨cause, rest.length - 1⟩

def before (cause : Cause) (rest : Bytes) : Fault := ⟨cause, rest.length⟩

/-- The fault `atEnd` when nothing is left, and otherwise `cause` at the next byte. -/
def missing (atEnd cause : Cause) (rest : Bytes) : Fault :=
  match rest with
  | [] => ⟨atEnd, 0⟩
  | _ :: r => ⟨cause, r.length⟩

end Fault

/-- A place in a document: lines count from 1, columns count the bytes since the line began. -/
structure Position where
  line : Nat
  column : Nat
deriving DecidableEq, Repr

def Position.after (read : Bytes) : Position :=
  ⟨read.count 0x0a + 1, (read.reverse.takeWhile fun b => b != 0x0a).length⟩

/-- A fault in a known document. -/
structure Error where
  cause : Cause
  position : Position
deriving DecidableEq, Repr

def Fault.inDocument (f : Fault) (document : Bytes) : Error :=
  ⟨f.cause, .after (document.take (document.length - f.left))⟩

def Found.message : Found → String
  | null => "null"
  | boolean b => "boolean `" ++ toString b ++ "`"
  | integer n => "integer `" ++ toString n ++ "`"
  | float x => "floating point `" ++ amountText x ++ "`"
  | string s => "string " ++ Text.quoted s
  | list => "sequence"
  | object => "map"

def Cause.message : Cause → String
  | endInValue => "EOF while parsing a value"
  | endInList => "EOF while parsing a list"
  | endInObject => "EOF while parsing an object"
  | endInString => "EOF while parsing a string"
  | expectedColon => "expected `:`"
  | expectedCommaOrListEnd => "expected `,` or `]`"
  | expectedCommaOrObjectEnd => "expected `,` or `\x7d`"
  | expectedWord => "expected ident"
  | expectedValue => "expected value"
  | invalidEscape => "invalid escape"
  | invalidNumber => "invalid number"
  | numberOutOfRange => "number out of range"
  | malformedText => "invalid unicode code point"
  | controlCharacter => "control character (\\u0000-\\u001F) found while parsing a string"
  | keyNotString => "key must be a string"
  | loneSurrogate => "lone leading surrogate in hex escape"
  | endOfSurrogatePair => "unexpected end of hex escape"
  | trailingComma => "trailing comma"
  | trailingCharacters => "trailing characters"
  | wrongKind found expected => "invalid type: " ++ found.message ++ ", expected " ++ expected
  | noElement record => "invalid length 0, expected " ++ record ++ " with 1 element"
  | missingMember key => "missing field `" ++ key ++ "`"
  | repeatedMember key => "duplicate field `" ++ key ++ "`"

def Error.message (e : Error) : String :=
  e.cause.message ++ " at line " ++ toString e.position.line ++
    " column " ++ toString e.position.column

end RegressionGate.Json
