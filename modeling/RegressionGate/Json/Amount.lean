import RegressionGate.Decimal.Layout

/-! How a binary64 number is written in JSON: the shortest digits that read back, the even ones of
two equally near, in positional notation from 0.00001 up to below 10^16 and with an exponent outside
of that. -/

namespace RegressionGate.Json

/-- The exponent of a number in exponent notation, with its sign. -/
def exponentText (e : Int) : List Char :=
  (if 0 ≤ e then '+' else '-') :: Decimal.digitsOf e.natAbs

/-- The shortest digits of a number laid out by where its point falls. -/
def layout (x : Decimal.Scientific) : List Char :=
  let ds := Decimal.digitsOf x.digits
  let point := (ds.length : Int) + x.exponent
  if x.digits = 0 then ['0', '.', '0']
  else if 0 ≤ x.exponent ∧ point ≤ 16 then
    ds ++ Decimal.zeros x.exponent.toNat ++ ['.', '0']
  else if x.exponent < 0 ∧ -5 < point ∧ point ≤ 16 then Decimal.pointed x.digits (-x.exponent).toNat
  else
    match ds with
    | [] => []
    | d :: [] => d :: 'e' :: exponentText (point - 1)
    | d :: r => d :: '.' :: r ++ 'e' :: exponentText (point - 1)

/-- The text of a number; one that JSON cannot express is `null`. -/
def amountText (x : Binary64) : String :=
  if x.IsFinite then String.ofList (x.sign ++ layout (Decimal.shortest .toEven x.magnitude))
  else "null"

end RegressionGate.Json
