/-! Rounding a quotient of natural numbers to the nearest natural number, a tie going to the even
one or up. -/

namespace RegressionGate

/-- The natural number nearest to `n / d`; of two equally near ones, the even one. -/
def roundHalfEven (n d : Nat) : Nat :=
  let q := n / d
  let r := n % d
  if 2 * r < d then q
  else if d < 2 * r then q + 1
  else q + q % 2

/-- The natural number nearest to `n / d`; of two equally near ones, the greater. -/
def roundHalfUp (n d : Nat) : Nat := (2 * n + d) / (2 * d)

/-- Where a quotient goes that lies halfway between two natural numbers. -/
inductive Tie
  | toEven
  | up
deriving DecidableEq, Repr

def Tie.round : Tie → Nat → Nat → Nat
  | toEven => roundHalfEven
  | up => roundHalfUp

/-- A rounded quotient is at most half away from the exact one. -/
theorem roundHalfEven_close {n d : Nat} (hd : 0 < d) :
    2 * n ≤ 2 * (roundHalfEven n d * d) + d ∧ 2 * (roundHalfEven n d * d) ≤ 2 * n + d := by
  have h := Nat.div_add_mod n d
  have hr := Nat.mod_lt n hd
  have hc := Nat.mul_comm (n / d) d
  unfold roundHalfEven
  simp only
  split
  · omega
  · split
    · rw [Nat.add_mul]; omega
    · rcases Nat.mod_two_eq_zero_or_one (n / d) with hq | hq <;> rw [hq]
      · rw [Nat.add_zero]; omega
      · rw [Nat.add_mul]; omega

theorem roundHalfUp_close {n d : Nat} (hd : 0 < d) :
    2 * n ≤ 2 * (roundHalfUp n d * d) + d ∧ 2 * (roundHalfUp n d * d) ≤ 2 * n + d := by
  have h := Nat.div_add_mod (2 * n + d) (2 * d)
  have hr := Nat.mod_lt (2 * n + d) (show 0 < 2 * d by omega)
  have hc : 2 * d * ((2 * n + d) / (2 * d)) = 2 * ((2 * n + d) / (2 * d) * d) := by
    rw [Nat.mul_assoc, Nat.mul_comm d]
  unfold roundHalfUp
  omega

end RegressionGate
