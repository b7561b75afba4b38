import RegressionGate.Binary64.Arithmetic
import RegressionGate.Json.Fault

/-! Number literals: their parts, the scanner that finds them, and the conversion to binary64. The
conversion keeps as many leading digits as 64 bits hold and applies the power of ten in floating
point, so its result can differ from the nearest number by a few units in the last place. -/

namespace RegressionGate.Json

def isDigit (b : UInt8) : Bool := 0x30 ≤ b && b ≤ 0x39

def digitValue (b : UInt8) : Nat := b.toNat - 0x30

/-- The parts of a number literal. The digit runs are kept as they are written; an absent fraction
is empty, and an exponent comes with whether its sign is a minus. -/
structure Literal where
  negative : Bool
  whole : Bytes
  fraction : Bytes
  exponent : Option (Bool × Bytes)
deriving DecidableEq, Repr

/-! ### Scanning -/

/-- A run of at least one digit. `atEnd` is the fault when the document ends instead. -/
def scanDigits (atEnd : Cause) (s : Bytes) : Except Fault (Bytes × Bytes) :=
  match s.takeWhile isDigit with
  | [] => .error (.missing atEnd .invalidNumber s)
  | ds => .ok (ds, s.dropWhile isDigit)

/-- The digits before the point: a single zero, or a run that does not begin with one. -/
def scanWhole (atEnd : Cause) (s : Bytes) : Except Fault (Bytes × Bytes) :=
  match s with
  | 0x30 :: r =>
    if (r.head?.map isDigit).getD false then .error (.atNext .invalidNumber r)
    else .ok ([0x30], r)
  | _ => scanDigits atEnd s

def scanFraction (atEnd : Cause) (s : Bytes) : Except Fault (Bytes × Bytes) :=
  match s with
  | 0x2e :: r => scanDigits atEnd r
  | _ => .ok ([], s)

def scanExponent (atEnd : Cause) (s : Bytes) : Except Fault (Option (Bool × Bytes) × Bytes) :=
  match s with
  | e :: r =>
    if e = 0x65 ∨ e = 0x45 then do
      let (negative, r) :=
        match r with
        | 0x2d :: r => (true, r)
        | 0x2b :: r => (false, r)
        | _ => (false, r)
      let (ds, r) ← scanDigits atEnd r
      .ok (some (negative, ds), r)
    else .ok (none, s)
  | [] => .ok (none, s)

def scanLiteral (atEnd : Cause) (s : Bytes) : Except Fault (Literal × Bytes) := do
  let (negative, s) :=
    match s with
    | 0x2d :: r => (true, r)
    | _ => (false, s)
  let (whole, s) ← scanWhole atEnd s
  let (fraction, s) ← scanFraction atEnd s
  let (exponent, s) ← scanExponent atEnd s
  .ok (⟨negative, whole, fraction, exponent⟩, s)

/-! ### Conversion -/

/-- Appends digits to `n` while the result fits in 64 bits; the digits left over come back. -/
def absorb (n : Nat) : Bytes → Nat × Bytes
  | [] => (n, [])
  | d :: ds =>
    if n * 10 + digitValue d < 0x10000000000000000 then absorb (n * 10 + digitValue d) ds
    else (n, d :: ds)

/-- The leading digits of a literal as one number, and the power of ten that goes with it. Digits
left over before the point count for their place, those after the point for nothing. -/
def Literal.significand (l : Literal) : Nat × Int :=
  let (n, unkept) := absorb 0 l.whole
  let (n, dropped) := absorb n l.fraction
  (n, (unkept.length : Int) - ((l.fraction.length - dropped.length : Nat) : Int))

/-- The greatest exponent that is read as a number. -/
def maxExponent : Nat := 0x7fffffff

/-- The value of exponent digits, or, past `maxExponent`, the digits that were not needed to see
that. -/
def readExponent (n : Nat) : Bytes → Nat ⊕ Bytes
  | [] => .inl n
  | d :: ds =>
    if n * 10 + digitValue d ≤ maxExponent then readExponent (n * 10 + digitValue d) ds else .inr ds

def powerOfTen (n : Nat) : Binary64 := .ofNat (Decimal.tenTo n)

/-- Divides by `10 ^ n` in steps of at most `10 ^ 308`, stopping early at zero. -/
def scaleDown (x : Binary64) (n : Nat) : Binary64 :=
  if n ≤ 308 then x / powerOfTen n
  else if x.IsZero then x
  else scaleDown (x / powerOfTen 308) (n - 308)
termination_by n

/-- `x` times a power of ten; `none` when that overflows. -/
def scale? (x : Binary64) (exponent : Int) : Option Binary64 :=
  if exponent < 0 then some (scaleDown x (-exponent).toNat)
  else if exponent ≤ 308 then
    let y := x * powerOfTen exponent.toNat
    if y.IsInfinite then none else some y
  else if x.IsZero then some x
  else none

/-- A number as it was written: a whole number that fits in 64 bits, or any other. -/
inductive Number
  | integer (n : Int)
  | float (x : Binary64)
deriving DecidableEq, Repr

def Number.toBinary64 : Number → Binary64
  | integer n => if n < 0 then -.ofNat n.natAbs else .ofNat n.natAbs
  | float x => x

def Number.found : Number → Found
  | integer n => .integer n
  | float x => .float x

/-- The number that a digit-only literal stands for. A negative zero and a negative number beyond
64 bits are no whole numbers here. -/
def wholeNumber (negative : Bool) (n : Nat) : Number :=
  if !negative then .integer n
  else if n = 0 ∨ 0x8000000000000000 < n then .float (-.ofNat n)
  else .integer (-n)

/-- The number of a literal, `none` when it is too large. -/
def Literal.toNumber? (l : Literal) : Option Number :=
  let (n, shift) := l.significand
  let signed (x : Binary64) := if l.negative then -x else x
  match l.exponent with
  | none =>
    if l.fraction = [] ∧ shift = 0 then some (wholeNumber l.negative n)
    else (scale? (.ofNat n) shift).map fun x => .float (signed x)
  | some (negative, ds) =>
    match readExponent 0 ds with
    | .inl e =>
      (scale? (.ofNat n) (if negative then shift - e else shift + e)).map fun x =>
        .float (signed x)
    | .inr _ => if n = 0 ∨ negative then some (.float (signed (.zero false))) else none

/-- How much of a literal that is too large is left unread when that is seen. -/
def Literal.unread (l : Literal) : Bytes :=
  match l.exponent with
  | some (_, ds) =>
    match readExponent 0 ds with
    | .inl _ => []
    | .inr unread => unread
  | none => []

def readNumber (s : Bytes) : Except Fault (Number × Bytes) := do
  let (l, rest) ← scanLiteral .endInValue s
  match l.toNumber? with
  | some n => .ok (n, rest)
  | none => .error (.before .numberOutOfRange (l.unread ++ rest))

end RegressionGate.Json
