import Mathlib.Data.List.Basic
import RegressionGate.Decimal.Layout

/-! Decimal digits as they are written: they spell the number, and they begin with a zero only for
zero. The texts of numbers are made of them. -/

namespace RegressionGate.Decimal

/-- Characters that are digits, all of them. -/
def AllDigits (cs : List Char) : Prop := ∀ c ∈ cs, c.isDigit

variable {cs cs' : List Char}

theorem AllDigits.append (h : AllDigits cs) (h' : AllDigits cs') : AllDigits (cs ++ cs') :=
  List.forall_mem_append.mpr ⟨h, h'⟩

theorem allDigits_zeros (n : Nat) : AllDigits (zeros n) := by
  intro c hc
  rw [List.eq_of_mem_replicate hc]
  decide

theorem allDigits_digitsOf (n : Nat) : AllDigits (digitsOf n) :=
  fun _ h => Nat.isDigit_of_mem_toDigits (by decide) (by decide) h

theorem ofDigitChars_digitsOf (n : Nat) : Nat.ofDigitChars 10 (digitsOf n) 0 = n :=
  Nat.ofDigitChars_ten_toDigits

theorem digitsOf_ne_nil (n : Nat) : digitsOf n ≠ [] := Nat.toDigits_ne_nil

theorem head?_digitsOf {n : Nat} (h : n ≠ 0) : (digitsOf n).head? ≠ some '0' := by
  induction n using Nat.strongRecOn with
  | _ n ih =>
    rcases Nat.lt_or_ge n 10 with hlt | hge
    · have hall : ∀ n < 10, n ≠ 0 → [Nat.digitChar n].head? ≠ some '0' := by decide
      rw [digitsOf, Nat.toDigits_of_lt_base hlt]
      exact hall n hlt h
    · rw [digitsOf, Nat.toDigits_of_base_le (by decide) hge,
        List.head?_append_of_ne_nil _ Nat.toDigits_ne_nil]
      exact ih (n / 10) (by omega) (by omega)

/-! ### Plain texts -/

/-- The digits of a number, with zeros before them where places need more. -/
def padded (n places : Nat) : List Char := zeros (places + 1 - (digitsOf n).length) ++ digitsOf n

theorem pointed_eq (n places : Nat) :
    pointed n places = if places = 0 then padded n places
      else (padded n places).take ((padded n places).length - places) ++
        '.' :: (padded n places).drop ((padded n places).length - places) := rfl

theorem allDigits_padded (n places : Nat) : AllDigits (padded n places) :=
  (allDigits_zeros _).append (allDigits_digitsOf n)

theorem length_padded (n places : Nat) :
    (padded n places).length = max (places + 1) (digitsOf n).length := by
  rw [padded, List.length_append, zeros, List.length_replicate]
  omega

theorem lt_length_padded (n places : Nat) : places < (padded n places).length := by
  rw [length_padded]
  omega

theorem ofDigitChars_padded (n places : Nat) : Nat.ofDigitChars 10 (padded n places) 0 = n := by
  rw [padded, Nat.ofDigitChars_append, zeros, Nat.ofDigitChars_replicate_zero, Nat.mul_zero,
    ofDigitChars_digitsOf]

theorem mem_pointed {n places : Nat} {c : Char} (h : c ∈ pointed n places) :
    c.isDigit ∨ c = '.' := by
  have hdigits := allDigits_padded n places
  rw [pointed_eq] at h
  split at h
  · exact .inl (hdigits c h)
  · rcases List.mem_append.mp h with h | h
    · exact .inl (hdigits c (List.mem_of_mem_take h))
    · rcases List.mem_cons.mp h with h | h
      · exact .inr h
      · exact .inl (hdigits c (List.mem_of_mem_drop h))

theorem mem_plain {x : Scientific} {c : Char} (h : c ∈ x.plain) : c.isDigit ∨ c = '.' := by
  rw [Scientific.plain] at h
  split at h
  · split at h
    · rw [List.mem_singleton.mp h]
      exact .inl (by decide)
    · exact .inl ((allDigits_digitsOf _).append (allDigits_zeros _) c h)
  · exact mem_pointed h

theorem newline_notMem_sign (x : Binary64) : '\n' ∉ x.sign := by
  rw [Binary64.sign]
  split <;> decide

/-- The text of a number is a part of one line, whatever notation its digits are in. -/
theorem newline_notMem_number (x : Binary64) {digits : List Char}
    (h : ∀ c ∈ digits, c.isDigit ∨ c = '.') :
    '\n' ∉ (if x.IsNaN then "NaN"
      else if x.IsInfinite then String.ofList (x.sign ++ "inf".toList)
      else String.ofList (x.sign ++ digits)).toList := by
  split
  · decide
  split
  · rw [String.toList_ofList, List.mem_append, not_or]
    exact ⟨newline_notMem_sign x, by decide⟩
  · rw [String.toList_ofList, List.mem_append, not_or]
    refine ⟨newline_notMem_sign x, fun hmem => ?_⟩
    rcases h _ hmem with h | h <;> exact absurd h (by decide)

theorem newline_notMem_plain (x : Binary64) : '\n' ∉ x.plain.toList :=
  newline_notMem_number x fun _ => mem_plain

theorem newline_notMem_fixed (x : Binary64) (places : Nat) : '\n' ∉ (x.fixed places).toList :=
  newline_notMem_number x fun _ => mem_pointed

end RegressionGate.Decimal
