import RegressionGate.Decimal.Literal
import RegressionGate.Text.Hexadecimal
import RegressionGate.Toml.Basic

/-! Scalars written without quotes: truth values, whole numbers, floats, dates and times. Each is
recognised as a whole token. -/

namespace RegressionGate.Toml

/-- The digits of a run in which single underscores may stand between digits. -/
def ungroup? (isDigit : Char → Bool) : List Char → Option (List Char)
  | [] => none
  | [c] => if isDigit c then some [c] else none
  | c :: '_' :: r => if isDigit c then (ungroup? isDigit r).map (c :: ·) else none
  | c :: r => if isDigit c then (ungroup? isDigit r).map (c :: ·) else none

/-- The digits of a whole number part: no zero before other digits. -/
def wholeDigits? (s : List Char) : Option (List Char) := do
  let ds ← ungroup? Char.isDigit s
  if ds.head? = some '0' ∧ ds ≠ ['0'] then none else some ds

def bounded? (n : Int) : Option Scalar :=
  if -0x8000000000000000 ≤ n ∧ n < 0x8000000000000000 then some (.integer n) else none

def isHexDigit (c : Char) : Bool := (Text.hexValue? c).isSome

/-- A whole number, in base ten with a sign or in another base without one. -/
def integer? (token : List Char) : Option Scalar :=
  match token with
  | '0' :: 'x' :: r => do bounded? (← Text.hexNat? (← ungroup? isHexDigit r))
  | '0' :: 'o' :: r => do
    bounded? (Nat.ofDigitChars 8 (← ungroup? (fun c => '0' ≤ c && c ≤ '7') r) 0)
  | '0' :: 'b' :: r => do
    bounded? (Nat.ofDigitChars 2 (← ungroup? (fun c => c = '0' || c = '1') r) 0)
  | _ => do
    let (negative, r) := Decimal.splitSign token
    let n := Decimal.natOfDigits (← wholeDigits? r)
    bounded? (if negative then -n else n)

def exponentOf? (s : List Char) : Option Int := do
  let (negative, r) := Decimal.splitSign s
  let n := Decimal.natOfDigits (← ungroup? Char.isDigit r)
  some (if negative then -n else n)

def isExponentLetter (c : Char) : Bool := c = 'e' || c = 'E'

/-- A float with a fraction, an exponent or both, rounded to nearest. One that rounds to positive
infinity is refused. -/
def decimal? (negative : Bool) (s : List Char) : Option Scalar := do
  let mantissa := s.takeWhile fun c => !isExponentLetter c
  let power := s.dropWhile fun c => !isExponentLetter c
  let exponent ← if power = [] then some 0 else exponentOf? (power.drop 1)
  let whole ← wholeDigits? (mantissa.takeWhile (· ≠ '.'))
  let point := mantissa.dropWhile (· ≠ '.')
  let fraction ← if point = [] then some [] else ungroup? Char.isDigit (point.drop 1)
  let digits := Decimal.natOfDigits (whole ++ fraction)
  let x := Binary64.ofDecimal negative digits (exponent - fraction.length)
  if (power = [] ∧ point = []) ∨ x = .infinity false then none else some (.float x)

def float? (token : List Char) : Option Scalar :=
  let (negative, s) := Decimal.splitSign token
  if s = ['i', 'n', 'f'] then some (.float (.infinity negative))
  else if s = ['n', 'a', 'n'] then some (.float { Binary64.nan with negative })
  else decimal? negative s

/-! ### Dates and times -/

def twoDigits? (low high : Nat) : List Char → Option (Nat × List Char)
  | a :: b :: r =>
    let n := Decimal.natOfDigits [a, b]
    if a.isDigit && b.isDigit && low ≤ n && n ≤ high then some (n, r) else none
  | _ => none

def isLeapYear (year : Nat) : Bool := year % 4 = 0 && (year % 100 ≠ 0 || year % 400 = 0)

def daysIn (year month : Nat) : Nat :=
  if month = 2 then if isLeapYear year then 29 else 28
  else if month = 4 ∨ month = 6 ∨ month = 9 ∨ month = 11 then 30
  else 31

def expect? (c : Char) : List Char → Option (List Char)
  | a :: r => if a = c then some r else none
  | [] => none

def skipDate? (s : List Char) : Option (List Char) := do
  let (century, r) ← twoDigits? 0 99 s
  let (years, r) ← twoDigits? 0 99 r
  let (month, r) ← twoDigits? 1 12 (← expect? '-' r)
  let (_, r) ← twoDigits? 1 (daysIn (century * 100 + years) month) (← expect? '-' r)
  some r

/-- What follows a time of day; a point in it needs digits behind it. -/
def skipTime? (s : List Char) : Option (List Char) := do
  let (_, r) ← twoDigits? 0 23 s
  let (_, r) ← twoDigits? 0 59 (← expect? ':' r)
  let (_, r) ← twoDigits? 0 60 (← expect? ':' r)
  match r with
  | '.' :: r =>
    if (r.head?.map Char.isDigit).getD false then some (r.dropWhile Char.isDigit) else none
  | r => some r

/-- Whether what is left of a token is nothing or the offset from universal time. -/
def isOffset (s : List Char) : Bool :=
  match s with
  | [] => true
  | ['Z'] | ['z'] => true
  | c :: r =>
    (c = '+' || c = '-') &&
      ((do
        let (_, r) ← twoDigits? 0 23 r
        let (_, r) ← twoDigits? 0 59 (← expect? ':' r)
        some r) == some [])

def isDate (token : List Char) : Bool := skipDate? token == some []

/-- Whether a token is a time of day with or without an offset. -/
def isOffsetTime (token : List Char) : Bool := (skipTime? token).any isOffset

/-- Whether a token is a date, a time of day, or a date and a time with a `T` between them. -/
def isDateTime (token : List Char) : Bool :=
  isDate token || skipTime? token == some [] ||
    match skipDate? token with
    | some (c :: r) => (c = 'T' || c = 't') && isOffsetTime r
    | _ => false

def Scalar.ofToken? (token : List Char) : Option Scalar :=
  if token = ['t', 'r', 'u', 'e'] then some (.boolean true)
  else if token = ['f', 'a', 'l', 's', 'e'] then some (.boolean false)
  else if isDateTime token then some .dateTime
  else (integer? token).or (float? token)

end RegressionGate.Toml
