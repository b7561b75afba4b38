import RegressionGate.Rounding

/-! Rounding to an even neighbour keeps the order of quotients, so it depends on the quotient alone,
and leaves what is a natural number as it is. -/

namespace RegressionGate

theorem roundHalfEven_ge (n d : Nat) : n / d ≤ roundHalfEven n d := by
  unfold roundHalfEven
  dsimp only
  split
  · exact Nat.le_refl _
  · split <;> omega

theorem roundHalfEven_le (n d : Nat) : roundHalfEven n d ≤ n / d + 1 := by
  unfold roundHalfEven
  dsimp only
  split
  · omega
  · split <;> omega

/-- Of quotients between two neighbours, the greater is rounded to the greater. -/
theorem roundHalfEven_le_of_div_eq {n d n' d' : Nat} (hd : 0 < d) (hd' : 0 < d')
    (hq : n / d = n' / d') (hr : n % d * d' ≤ n' % d' * d) :
    roundHalfEven n d ≤ roundHalfEven n' d' := by
  have hlow (h : 2 * (n' % d') < d') : 2 * (n % d) < d := by
    apply Nat.lt_of_mul_lt_mul_right (a := d')
    calc 2 * (n % d) * d' = 2 * (n % d * d') := Nat.mul_assoc ..
      _ ≤ 2 * (n' % d' * d) := Nat.mul_le_mul_left 2 hr
      _ = 2 * (n' % d') * d := (Nat.mul_assoc ..).symm
      _ < d' * d := Nat.mul_lt_mul_of_pos_right h hd
      _ = d * d' := Nat.mul_comm ..
  have hhigh (h : d < 2 * (n % d)) : d' < 2 * (n' % d') := by
    apply Nat.lt_of_mul_lt_mul_right (a := d)
    calc d' * d = d * d' := Nat.mul_comm ..
      _ < 2 * (n % d) * d' := Nat.mul_lt_mul_of_pos_right h hd'
      _ = 2 * (n % d * d') := Nat.mul_assoc ..
      _ ≤ 2 * (n' % d' * d) := Nat.mul_le_mul_left 2 hr
      _ = 2 * (n' % d') * d := (Nat.mul_assoc ..).symm
  unfold roundHalfEven
  dsimp only
  rw [hq]
  by_cases h : 2 * (n' % d') < d'
  · simp only [if_pos h, if_pos (hlow h), Nat.le_refl]
  · rw [if_neg h]
    by_cases h' : d' < 2 * (n' % d')
    · rw [if_pos h']
      split
      · omega
      · split <;> omega
    · rw [if_neg h', if_neg (fun k => h' (hhigh k))]
      split <;> omega

theorem roundHalfEven_mono {n d n' d' : Nat} (hd : 0 < d) (hd' : 0 < d') (h : n * d' ≤ n' * d) :
    roundHalfEven n d ≤ roundHalfEven n' d' := by
  have hq : n / d ≤ n' / d' := by
    rw [Nat.le_div_iff_mul_le hd']
    refine Nat.le_of_mul_le_mul_right ?_ hd
    calc n / d * d' * d = n / d * d * d' := Nat.mul_right_comm ..
      _ ≤ n * d' := Nat.mul_le_mul_right d' (Nat.div_mul_le_self n d)
      _ ≤ n' * d := h
  rcases Nat.lt_or_eq_of_le hq with hlt | heq
  · exact Nat.le_trans (roundHalfEven_le n d) (Nat.le_trans hlt (roundHalfEven_ge n' d'))
  · -- With the same whole part the remainders decide, so that part is taken off both sides.
    apply roundHalfEven_le_of_div_eq hd hd' heq
    apply Nat.le_of_add_le_add_left (a := n' / d' * (d * d'))
    calc n' / d' * (d * d') + n % d * d' = n * d' := by
          rw [← heq, ← Nat.mul_assoc, ← Nat.add_mul, Nat.div_add_mod']
      _ ≤ n' * d := h
      _ = n' / d' * (d * d') + n' % d' * d := by
          rw [Nat.mul_comm d, ← Nat.mul_assoc, ← Nat.add_mul, Nat.div_add_mod']

theorem roundHalfEven_mul (k : Nat) {d : Nat} (hd : 0 < d) : roundHalfEven (k * d) d = k := by
  simp [roundHalfEven, Nat.mul_div_cancel k hd, hd]

end RegressionGate
