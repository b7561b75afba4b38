import RegressionGate.Binary64.Arithmetic

/-! Reading a decimal text as the nearest binary64 number. -/

namespace RegressionGate.Decimal

/-- A sign, with whether it is a minus, and what follows it. -/
def splitSign : List Char → Bool × List Char
  | '-' :: r => (true, r)
  | '+' :: r => (false, r)
  | s => (false, s)

def natOfDigits (digits : List Char) : Nat := Nat.ofDigitChars 10 digits 0

/-- The digits before and behind a point, at least one in all, and what follows them. -/
def mantissa? (s : List Char) : Option (List Char × List Char × List Char) :=
  let whole := s.takeWhile Char.isDigit
  let (fraction, rest) :=
    match s.dropWhile Char.isDigit with
    | '.' :: r => (r.takeWhile Char.isDigit, r.dropWhile Char.isDigit)
    | r => ([], r)
  if whole = [] ∧ fraction = [] then none else some (whole, fraction, rest)

/-- The power of ten at the end of a decimal: nothing, or `e` and digits with or without a sign. -/
def power? : List Char → Option Int
  | [] => some 0
  | e :: r =>
    let (negative, ds) := splitSign r
    if (e = 'e' ∨ e = 'E') ∧ ds ≠ [] ∧ ds.all Char.isDigit then
      some (if negative then -natOfDigits ds else natOfDigits ds)
    else none

/-- The number that a text spells: a decimal, `inf`, `infinity` or `nan` in letters of either
case, with or without a sign. -/
def read? (s : List Char) : Option Binary64 := do
  let (negative, r) := splitSign s
  let word := r.map Char.toLower
  if word = "inf".toList ∨ word = "infinity".toList then return .infinity negative
  if word = "nan".toList then return { Binary64.nan with negative }
  let (whole, fraction, rest) ← mantissa? r
  let exponent ← power? rest
  some (.ofDecimal negative (natOfDigits (whole ++ fraction)) (exponent - fraction.length))

end RegressionGate.Decimal
