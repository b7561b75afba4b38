import RegressionGate.Lexicographic

/-! The identity of a benchmark: the group it belongs to and its case within the group. -/

namespace RegressionGate

structure Benchmark where
  group : String
  case : String
deriving DecidableEq, Repr

namespace Benchmark

def separator : Char := '/'

/-- The name of a benchmark in reports. -/
def name (b : Benchmark) : String := b.group ++ String.singleton separator ++ b.case

/-- Benchmarks are ordered by group, then by case. -/
instance : LT Benchmark := ⟨fun a b => Prod.lexLt (a.group, a.case) (b.group, b.case)⟩

instance (a b : Benchmark) : Decidable (a < b) := inferInstanceAs (Decidable (Prod.lexLt _ _))

theorem lt_irrefl (a : Benchmark) : ¬a < a :=
  Lexicographic.irrefl String.lt_irrefl String.lt_irrefl (a.group, a.case)

theorem lt_trans {a b c : Benchmark} (hab : a < b) (hbc : b < c) : a < c :=
  Lexicographic.trans String.lt_trans String.lt_trans hab hbc

theorem lt_of_not_lt_of_ne {a b : Benchmark} (h : ¬b < a) (hne : a ≠ b) : a < b := by
  have hstring {s t : String} (h : ¬s < t) (h' : ¬t < s) : s = t :=
    String.le_antisymm (String.not_lt.mp h') (String.not_lt.mp h)
  refine Decidable.byContradiction fun hn => hne ?_
  exact congrArg (fun p => Benchmark.mk p.1 p.2) (Lexicographic.eq_of_not_lt hstring hstring hn h)

instance : Std.Irrefl (α := Benchmark) (· < ·) := ⟨lt_irrefl⟩

end Benchmark

end RegressionGate
