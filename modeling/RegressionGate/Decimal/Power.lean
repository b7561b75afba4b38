/-! Powers of ten. -/

namespace RegressionGate.Decimal

def tenTo (n : Nat) : Nat := Nat.pow 10 n

theorem tenTo_pos (n : Nat) : 0 < tenTo n := Nat.pow_pos (by decide)

end RegressionGate.Decimal
