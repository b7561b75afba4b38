import RegressionGate.Json.Amount

/-! JSON values and their indented text: two blanks for each level, a member or element on each
line, and nothing between the brackets of an empty list or object. -/

namespace RegressionGate.Json

/-- A JSON value, its numbers either whole or binary64. Members keep their order. -/
inductive Value
  | boolean (b : Bool)
  | natural (n : Nat)
  | amount (x : Binary64)
  | string (s : String)
  | list (elements : List Value)
  | object (members : List (String × Value))

def escapedChar (c : Char) : List Char :=
  if c = '"' ∨ c = '\\' then ['\\', c]
  else if c = '\x08' then ['\\', 'b']
  else if c = '\x0c' then ['\\', 'f']
  else if c = '\n' then ['\\', 'n']
  else if c = '\r' then ['\\', 'r']
  else if c = '\t' then ['\\', 't']
  else if c < ' ' then
    ['\\', 'u', '0', '0', Nat.digitChar (c.toNat / 16), Nat.digitChar (c.toNat % 16)]
  else [c]

def stringText (s : String) : String :=
  String.ofList ('"' :: s.toList.flatMap escapedChar ++ ['"'])

/-- Ends a line and indents the next by a number of levels. -/
def newLine (level : Nat) : String := "\n" ++ String.ofList (List.replicate (2 * level) ' ')

/-- Texts between two brackets at a level, each on a line of its own. -/
def bracketed (opening closing : String) (level : Nat) (texts : List String) : String :=
  if texts.isEmpty then opening ++ closing
  else
    opening ++ String.intercalate "," (texts.map (newLine (level + 1) ++ ·)) ++ newLine level ++
      closing

mutual

def Value.text (level : Nat) : Value → String
  | .boolean b => toString b
  | .natural n => toString n
  | .amount x => amountText x
  | .string s => stringText s
  | .list elements => bracketed "[" "]" level (elementTexts (level + 1) elements)
  | .object members => bracketed "\x7b" "\x7d" level (memberTexts (level + 1) members)

def elementTexts (level : Nat) : List Value → List String
  | [] => []
  | v :: vs => v.text level :: elementTexts level vs

def memberTexts (level : Nat) : List (String × Value) → List String
  | [] => []
  | (key, v) :: ms => (stringText key ++ ": " ++ v.text level) :: memberTexts level ms

end

end RegressionGate.Json
