import RegressionGate.Rounding

/-! Binary64 numbers held as their encodings, with the exact integer that each finite one stands
for and the rounding of an exact quotient to the nearest of them. Nothing here computes with
hardware floating point, so every operation can be reasoned about. -/

namespace RegressionGate

/-- A binary64 number: its sign and the 63 bits below the sign. Magnitudes are ordered as the
absolute values they stand for, with infinity above all finite ones and not-a-number above that. -/
structure Binary64 where
  negative : Bool
  magnitude : Nat
  magnitude_lt : magnitude < 0x8000000000000000 := by decide
deriving DecidableEq, Repr

namespace Binary64

/-- The magnitude of the two infinities. -/
def infinityMagnitude : Nat := 0x7ff0000000000000

theorem infinityMagnitude_lt : infinityMagnitude < 0x8000000000000000 := by decide

def zero (negative : Bool) : Binary64 := ⟨negative, 0, by decide⟩

def infinity (negative : Bool) : Binary64 := ⟨negative, infinityMagnitude, infinityMagnitude_lt⟩

/-- The quiet not-a-number that operations without a result give. -/
def nan : Binary64 := ⟨false, 0x7ff8000000000000, by decide⟩

def IsFinite (x : Binary64) : Prop := x.magnitude < infinityMagnitude

def IsInfinite (x : Binary64) : Prop := x.magnitude = infinityMagnitude

def IsNaN (x : Binary64) : Prop := infinityMagnitude < x.magnitude

def IsZero (x : Binary64) : Prop := x.magnitude = 0

instance (x : Binary64) : Decidable x.IsFinite := inferInstanceAs (Decidable (_ < _))
instance (x : Binary64) : Decidable x.IsInfinite := inferInstanceAs (Decidable (_ = _))
instance (x : Binary64) : Decidable x.IsNaN := inferInstanceAs (Decidable (_ < _))
instance (x : Binary64) : Decidable x.IsZero := inferInstanceAs (Decidable (_ = _))

instance : Inhabited Binary64 := ⟨zero false⟩

/-! ### Encodings -/

/-- The number that a word of 64 bits encodes, most significant bit first. -/
def ofBits (bits : UInt64) : Binary64 :=
  ⟨0x8000000000000000 ≤ bits.toNat, bits.toNat % 0x8000000000000000, Nat.mod_lt _ (by decide)⟩

def toBits (x : Binary64) : UInt64 :=
  UInt64.ofNat ((if x.negative then 0x8000000000000000 else 0) + x.magnitude)

theorem ofBits_toBits (x : Binary64) : ofBits x.toBits = x := by
  obtain ⟨n, m, h⟩ := x
  cases n <;> simp [ofBits, toBits] <;> omega

/-! ### Order -/

/-- The place of a number among the numbers that are not not-a-number; the two zeros share one. -/
def rank (x : Binary64) : Int := if x.negative then -x.magnitude else x.magnitude

/-- `x < y` as numbers: false when either is not-a-number. -/
instance : LT Binary64 := ⟨fun x y => ¬x.IsNaN ∧ ¬y.IsNaN ∧ x.rank < y.rank⟩

instance (x y : Binary64) : Decidable (x < y) := inferInstanceAs (Decidable (_ ∧ _ ∧ _))

theorem lt_def {x y : Binary64} : x < y ↔ ¬x.IsNaN ∧ ¬y.IsNaN ∧ x.rank < y.rank := Iff.rfl

/-- The place of a number in the total order of encodings: negative not-a-number first, then the
numbers in order with −0 before +0, and positive not-a-number last. -/
def totalRank (x : Binary64) : Int := if x.negative then -x.magnitude - 1 else x.magnitude

theorem totalRank_inj {x y : Binary64} (h : x.totalRank = y.totalRank) : x = y := by
  obtain ⟨nx, mx, hx⟩ := x
  obtain ⟨ny, my, hy⟩ := y
  cases nx <;> cases ny <;> simp [totalRank] at h ⊢ <;> omega

/-! ### Exact values -/

/-- The number of significands that share an exponent. -/
def binade : Nat := 0x10000000000000

/-- The absolute value that a finite magnitude stands for, counted in multiples of 2^-1074. -/
def unitsOf (magnitude : Nat) : Nat :=
  if magnitude < binade then magnitude
  else (binade + magnitude % binade) <<< (magnitude / binade - 1)

/-- One, in multiples of 2^-1074. -/
def oneUnits : Nat := 1 <<< 1074

/-- The value of a finite number in multiples of 2^-1074. -/
def units (x : Binary64) : Int :=
  if x.negative then -(unitsOf x.magnitude : Int) else unitsOf x.magnitude

/-- The magnitude nearest to `n / d` multiples of 2^-1074, a tie going to the even one; infinity
from halfway between the greatest finite magnitude and the next power of two on. -/
def nearestMagnitude (n d : Nat) : Nat :=
  let s := (n / d).log2 - 52
  min (s * binade + roundHalfEven n (d <<< s)) infinityMagnitude

theorem nearestMagnitude_le (n d : Nat) : nearestMagnitude n d ≤ infinityMagnitude :=
  Nat.min_le_right _ _

/-- The number of the given sign nearest to `n / d` multiples of 2^-1074. -/
def ofRatio (negative : Bool) (n d : Nat) : Binary64 :=
  ⟨negative, nearestMagnitude n d,
    Nat.lt_of_le_of_lt (nearestMagnitude_le n d) infinityMagnitude_lt⟩

end Binary64

end RegressionGate
