import RegressionGate.Json.Fault
import RegressionGate.Text.Hexadecimal

/-! String literals: skimming over one, which checks its escapes only, and reading its text, which
also needs surrogates in pairs and well-formed bytes. -/

namespace RegressionGate.Json

def hexUnit? (a b c d : UInt8) : Option Nat :=
  Text.hexNat? ([a, b, c, d].map fun x => Char.ofNat x.toNat)

/-- The byte that a backslash and a single character stand for. -/
def shortEscape? (b : UInt8) : Option UInt8 :=
  match b with
  | 0x22 => some 0x22
  | 0x5c => some 0x5c
  | 0x2f => some 0x2f
  | 0x62 => some 0x08
  | 0x66 => some 0x0c
  | 0x6e => some 0x0a
  | 0x72 => some 0x0d
  | 0x74 => some 0x09
  | _ => none

/-- What follows the string literal whose opening quote has just been passed. -/
def skim : Bytes → Except Fault Bytes
  | [] => .error ⟨.endInString, 0⟩
  | 0x22 :: r => .ok r
  | 0x5c :: 0x75 :: a :: b :: c :: d :: r =>
    if (hexUnit? a b c d).isSome then skim r else .error (.before .invalidEscape r)
  | 0x5c :: 0x75 :: _ => .error ⟨.endInString, 0⟩
  | 0x5c :: e :: r =>
    if (shortEscape? e).isSome then skim r else .error (.before .invalidEscape r)
  | [0x5c] => .error ⟨.endInString, 0⟩
  | b :: r => if b < 0x20 then .error (.before .controlCharacter (b :: r)) else skim r

def isLeadSurrogate (n : Nat) : Bool := 0xd800 ≤ n && n ≤ 0xdbff

def isTrailSurrogate (n : Nat) : Bool := 0xdc00 ≤ n && n ≤ 0xdfff

def pairChar (lead trail : Nat) : Char :=
  Char.ofNat (0x10000 + (lead - 0xd800) * 0x400 + (trail - 0xdc00))

/-- The bytes of the string literal whose opening quote has just been passed, added to `done` in
reverse, and what follows it. -/
def unescape (done : Bytes) : Bytes → Except Fault (Bytes × Bytes)
  | [] => .error ⟨.endInString, 0⟩
  | 0x22 :: r => .ok (done.reverse, r)
  | 0x5c :: 0x75 :: a :: b :: c :: d :: r =>
    match hexUnit? a b c d with
    | none => .error (.before .invalidEscape r)
    | some n =>
      if isTrailSurrogate n then .error (.before .loneSurrogate r)
      else if !isLeadSurrogate n then
        unescape ((String.utf8EncodeChar (Char.ofNat n)).reverse ++ done) r
      else
        match r with
        | 0x5c :: 0x75 :: a :: b :: c :: d :: r =>
          match hexUnit? a b c d with
          | none => .error (.before .invalidEscape r)
          | some m =>
            if isTrailSurrogate m then
              unescape ((String.utf8EncodeChar (pairChar n m)).reverse ++ done) r
            else .error (.before .loneSurrogate r)
        | 0x5c :: 0x75 :: _ => .error ⟨.endInString, 0⟩
        | 0x5c :: r => .error (.missing .endInString .endOfSurrogatePair r)
        | r => .error (.missing .endInString .endOfSurrogatePair r)
  | 0x5c :: 0x75 :: _ => .error ⟨.endInString, 0⟩
  | 0x5c :: e :: r =>
    match shortEscape? e with
    | some b => unescape (b :: done) r
    | none => .error (.before .invalidEscape r)
  | [0x5c] => .error ⟨.endInString, 0⟩
  | b :: r => if b < 0x20 then .error (.before .controlCharacter r) else unescape (b :: done) r

/-- The text of the string literal whose opening quote has just been passed, and what follows. The
place of malformed bytes is counted back from the closing quote in bytes of the text, so it is that
of the first of them only when no escape follows it. -/
def readText (s : Bytes) : Except Fault (String × Bytes) := do
  let (bytes, rest) ← unescape [] s
  match Utf8.decode? bytes with
  | some text => .ok (text, rest)
  | none =>
    let sound := (Utf8.malformedAt? bytes).getD 0
    .error ⟨.malformedText, rest.length + (bytes.length - sound)⟩

end RegressionGate.Json
