import RegressionGate.Text.Utf8

/-! Hexadecimal digits in either case, and the numbers and bytes that they spell. -/

namespace RegressionGate.Text

def hexValue? (c : Char) : Option Nat :=
  if '0' ≤ c && c ≤ '9' then some (c.toNat - 0x30)
  else if 'A' ≤ c && c ≤ 'F' then some (c.toNat - 0x37)
  else if 'a' ≤ c && c ≤ 'f' then some (c.toNat - 0x57)
  else none

def hexNat? (digits : List Char) : Option Nat :=
  digits.foldlM (fun n c => (hexValue? c).map (n * 16 + ·)) 0

def hexBytes? : List Char → Option Bytes
  | [] => some []
  | [_] => none
  | a :: b :: r => do
    let n ← hexNat? [a, b]
    some (.ofNat n :: (← hexBytes? r))

end RegressionGate.Text
