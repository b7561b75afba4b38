import RegressionGate.Json.Skip

/-! Records with a single member, written as an object with that member among others or as a list
of one element. -/

namespace RegressionGate.Json

/-- The fault of a value of the wrong kind at the front of `s`. A value that is malformed itself
has the fault of that. -/
def unexpected (expected : String) (s : Bytes) : Fault :=
  let wrong (found : Found) (rest : Bytes) : Fault := .before (.wrongKind found expected) rest
  let word (found : Found) (letters r : Bytes) : Fault :=
    match skipWord letters r with
    | .ok rest => wrong found rest
    | .error f => f
  match s with
  | [] => ⟨.endInValue, 0⟩
  | c :: r =>
    if c = 0x6e then word .null [0x75, 0x6c, 0x6c] r
    else if c = 0x74 then word (.boolean true) [0x72, 0x75, 0x65] r
    else if c = 0x66 then word (.boolean false) [0x61, 0x6c, 0x73, 0x65] r
    else if c = 0x22 then
      match readText r with
      | .ok (text, rest) => wrong (.string text) rest
      | .error f => f
    else if c = 0x5b then wrong .list s
    else if c = 0x7b then wrong .object s
    else if c = 0x2d ∨ isDigit c then
      match readNumber s with
      | .ok (n, rest) => wrong n.found rest
      | .error f => f
    else .before .expectedValue r

/-- A reader of one kind of value: the value at the front of the bytes and what follows it. -/
abbrev Reader (α : Type) := Bytes → Except Fault (α × Bytes)

def readBinary64 : Reader Binary64 := fun s =>
  match skipBlanks s with
  | [] => .error ⟨.endInValue, 0⟩
  | c :: r =>
    if c = 0x2d ∨ isDigit c then do
      let (n, rest) ← readNumber (c :: r)
      .ok (n.toBinary64, rest)
    else .error (unexpected "f64" (c :: r))

def endList (s : Bytes) : Except Fault Bytes :=
  match skipBlanks s with
  | [] => .error ⟨.endInList, 0⟩
  | 0x5d :: r => .ok r
  | 0x2c :: r =>
    match skipBlanks r with
    | 0x5d :: r => .error (.before .trailingComma r)
    | s => .error (.atNext .trailingCharacters s)
  | _ :: r => .error (.before .trailingCharacters r)

/-- Where reading stands once the end of the object has been tried for. -/
def pastObject (s : Bytes) : Bytes :=
  match skipBlanks s with
  | 0x7d :: r => r
  | s => s

/-- The key that begins the next member of an object, and what follows it; `none` at the end of
the object. -/
def nextKey? (first : Bool) (s : Bytes) : Except Fault (Option String × Bytes) := do
  let key (s : Bytes) : Except Fault (Option String × Bytes) := do
    let (text, rest) ← readText s
    .ok (some text, rest)
  match skipBlanks s with
  | [] => .error ⟨.endInObject, 0⟩
  | 0x7d :: r => .ok (none, r)
  | c :: r =>
    if first then
      if c = 0x22 then key r else .error (.before .keyNotString r)
    else if c = 0x2c then
      match skipBlanks r with
      | [] => .error ⟨.endInValue, 0⟩
      | 0x22 :: r => key r
      | 0x7d :: r => .error (.before .trailingComma r)
      | _ :: r => .error (.before .keyNotString r)
    else .error (.before .expectedCommaOrObjectEnd r)

/-- The members of an object from one of them on, with the value of the wanted one when it has
been read already. Each takes at least one byte, which bounds their number. -/
def readMembers (key : String) (value : Reader α) :
    (bound : Nat) → (found : Option α) → (first : Bool) → Reader α
  | 0, _, _, s => .error (.missing .endInObject .keyNotString s)
  | bound + 1, found, first, s => do
    match ← nextKey? first s with
    | (none, rest) =>
      match found with
      | some v => .ok (v, rest)
      | none => .error (.before (.missingMember key) rest)
    | (some k, rest) =>
      if k = key then
        if found.isSome then .error (.before (.repeatedMember key) (pastObject rest))
        else
          let (v, rest) ← value (← skipColon rest)
          readMembers key value bound (some v) false rest
      else
        readMembers key value bound found false (← skipValue (← skipColon rest))

/-- The value of the member `key` of a record of the given name. -/
def readRecord (name key : String) (value : Reader α) : Reader α := fun s =>
  match skipBlanks s with
  | [] => .error ⟨.endInValue, 0⟩
  | 0x5b :: r =>
    match skipBlanks r with
    | [] => .error ⟨.endInList, 0⟩
    | 0x5d :: r => .error (.before (.noElement name) r)
    | r => do
      let (v, rest) ← value r
      .ok (v, ← endList rest)
  | 0x7b :: r => readMembers key value (r.length + 1) none true r
  | s => .error (unexpected name s)

/-- The value of a whole document, with nothing but blanks behind it. -/
def readDocument (value : Reader α) (document : Bytes) : Except Error α :=
  let result : Except Fault α := do
    let (v, rest) ← value document
    match skipBlanks rest with
    | [] => .ok v
    | _ :: r => .error (.before .trailingCharacters r)
  result.mapError (Fault.inDocument · document)

end RegressionGate.Json
