import RegressionGate.Proofs.Decimal.Fixed
import RegressionGate.Report.Amount

/-! Durations as the report shows them. What is shown is in the order of the durations, also when
they are shown in different units, and no farther off than half of the last digit and the one
rounding of the division by the unit. -/

namespace RegressionGate.Report

open Binary64 Decimal

variable {x y : Binary64} {u v : TimeUnit}

/-! ### Units -/

def timeUnits : List TimeUnit := nanosecond :: largerUnits

theorem nanoseconds_bounds (hu : u ∈ timeUnits) : 1 ≤ u.nanoseconds ∧ u.nanoseconds ≤ 2 ^ 53 := by
  have hall : ∀ u ∈ timeUnits, 1 ≤ u.nanoseconds ∧ u.nanoseconds ≤ 2 ^ 53 := by decide
  exact hall u hu

theorem value_nanoseconds (hu : u ∈ timeUnits) :
    (ofNat u.nanoseconds).value = u.nanoseconds :=
  value_ofNat_of_le (nanoseconds_bounds hu).2

theorem isFinite_nanoseconds (hu : u ∈ timeUnits) : (ofNat u.nanoseconds).IsFinite :=
  isFinite_ofNat ((nanoseconds_bounds hu).2.trans_lt (by decide))

theorem one_le_value_nanoseconds (hu : u ∈ timeUnits) : 1 ≤ (ofNat u.nanoseconds).value := by
  rw [value_nanoseconds hu]
  exact_mod_cast (nanoseconds_bounds hu).1

theorem nanoseconds_pos (hu : u ∈ timeUnits) : 0 < ofNat u.nanoseconds :=
  (pos_iff (isFinite_nanoseconds hu)).mpr (zero_lt_one.trans_le (one_le_value_nanoseconds hu))

theorem eq_of_nanoseconds_eq (hu : u ∈ timeUnits) (hv : v ∈ timeUnits)
    (h : u.nanoseconds = v.nanoseconds) : u = v := by
  have hall : ∀ u ∈ timeUnits, ∀ v ∈ timeUnits, u.nanoseconds = v.nanoseconds → u = v := by decide
  exact hall u hu v hv h

/-- A unit is a whole number of each smaller one. -/
theorem nanoseconds_dvd (hu : u ∈ timeUnits) (hv : v ∈ timeUnits)
    (h : u.nanoseconds ≤ v.nanoseconds) : u.nanoseconds ∣ v.nanoseconds := by
  have hall : ∀ u ∈ timeUnits, ∀ v ∈ timeUnits, u.nanoseconds ≤ v.nanoseconds →
      u.nanoseconds ∣ v.nanoseconds := by decide
  exact hall u hu v hv h

theorem places_eq (hu : u ∈ timeUnits) : u.places = if u.nanoseconds = 1 then 0 else 2 := by
  have hall : ∀ u ∈ timeUnits, u.places = if u.nanoseconds = 1 then 0 else 2 := by decide
  exact hall u hu

theorem reaches_iff (hu : u ∈ timeUnits) (hx : x.IsFinite) :
    ofNat u.nanoseconds < x ∨ x = ofNat u.nanoseconds ↔ (u.nanoseconds : ℚ) ≤ x.value := by
  have hfinite := isFinite_nanoseconds hu
  rw [lt_iff_value_lt hfinite hx, ← value_nanoseconds hu, le_iff_lt_or_eq]
  refine or_congr_right ⟨fun h => by rw [h], fun h => ?_⟩
  have hrank : x.rank = (ofNat u.nanoseconds).rank :=
    le_antisymm (rank_le_rank_iff.mpr h.ge) (rank_le_rank_iff.mpr h.le)
  exact (eq_of_rank_eq hrank.symm (not_isZero_of_lt (nanoseconds_pos hu))).symm

/-- Whether a unit is the largest of which a duration has at least one, or else the smallest. -/
structure Suits (u : TimeUnit) (x : Binary64) : Prop where
  mem : u ∈ timeUnits
  reached : u = nanosecond ∨ (u.nanoseconds : ℚ) ≤ x.value
  largest (v : TimeUnit) (hv : v ∈ timeUnits) (h : (v.nanoseconds : ℚ) ≤ x.value) :
    v.nanoseconds ≤ u.nanoseconds

theorem suits_timeUnit (hx : x.IsFinite) : Suits (timeUnit x) x := by
  have hlarger {v : TimeUnit} (hv : v ∈ largerUnits) : v ∈ timeUnits := List.mem_cons_of_mem _ hv
  rw [timeUnit]
  cases hfind : largerUnits.find? _ with
  | none =>
    rw [List.find?_eq_none] at hfind
    refine ⟨List.mem_cons_self, .inl rfl, fun v hv h => ?_⟩
    rcases List.mem_cons.mp hv with rfl | hv
    · exact le_rfl
    · exact absurd (decide_eq_true ((reaches_iff (hlarger hv) hx).mpr h)) (hfind v hv)
  | some u =>
    have hu := hlarger (List.mem_of_find?_eq_some hfind)
    obtain ⟨hreached, before, after, hsplit, hbefore⟩ := List.find?_eq_some_iff_append.mp hfind
    refine ⟨hu, .inr ((reaches_iff hu hx).mp (of_decide_eq_true hreached)), fun v hv h => ?_⟩
    have hdescending : largerUnits.Pairwise (fun u v => v.nanoseconds < u.nanoseconds) := by decide
    rw [hsplit, List.pairwise_append, List.pairwise_cons] at hdescending
    rcases List.mem_cons.mp hv with rfl | hv
    · exact (nanoseconds_bounds hu).1
    · have hreaches := decide_eq_true ((reaches_iff (hlarger hv) hx).mpr h)
      rw [hsplit, List.mem_append, List.mem_cons] at hv
      rcases hv with hv | rfl | hv
      · have hnot := hbefore v hv
        rw [hreaches] at hnot
        exact absurd hnot Bool.false_ne_true
      · exact le_rfl
      · exact (hdescending.2.1.1 v hv).le

/-! ### What is shown -/

/-- A number of nanoseconds in a unit, as it is divided. -/
def amountIn (u : TimeUnit) (x : Binary64) : Binary64 :=
  if u.nanoseconds = 1 then x else x / .ofNat u.nanoseconds

/-- The nanoseconds that a duration shows in a unit. -/
def shownIn (u : TimeUnit) (x : Binary64) : ℚ := (amountIn u x).toPlaces u.places * u.nanoseconds

theorem duration_eq (x : Binary64) :
    duration x = (amountIn (timeUnit x) x).fixed (timeUnit x).places ++ (timeUnit x).sign :=
  rfl

theorem isFinite_amountIn (hu : u ∈ timeUnits) (hx : x.IsFinite) : (amountIn u x).IsFinite := by
  rw [amountIn]
  split
  · exact hx
  · exact isFinite_div hx (isFinite_nanoseconds hu) (one_le_value_nanoseconds hu)

theorem amountIn_mono (hu : u ∈ timeUnits) (hx : x.IsFinite) (hy : y.IsFinite) (h : x ≤ y) :
    amountIn u x ≤ amountIn u y := by
  rw [amountIn, amountIn]
  split
  · exact h
  · exact Binary64.div_le_div_right hx hy (isFinite_nanoseconds hu) (nanoseconds_pos hu) h

theorem shownIn_mono (hu : u ∈ timeUnits) (hx : x.IsFinite) (hy : y.IsFinite) (h : x ≤ y) :
    shownIn u x ≤ shownIn u y :=
  mul_le_mul_of_nonneg_right (toPlaces_mono (amountIn_mono hu hx hy h) _) (Nat.cast_nonneg _)

theorem value_amountIn {k : Nat} (hu : u ∈ timeUnits) (hx : x.IsFinite) (hk : k ≤ 2 ^ 53)
    (h : x.value = u.nanoseconds * k) : (amountIn u x).value = k := by
  rw [amountIn]
  split
  · rename_i hone
    rw [h, hone, Nat.cast_one, one_mul]
  · have hpos := zero_lt_one.trans_le (one_le_value_nanoseconds hu)
    have hvalue : (ofNat k).value = k := value_ofNat_of_le hk
    rw [← hvalue]
    refine value_div_of_exact hx (isFinite_nanoseconds hu) (not_isZero_of_lt (nanoseconds_pos hu))
      (isFinite_ofNat (hk.trans_lt (by decide))) ?_
    rw [hvalue, h, ← value_nanoseconds hu, mul_div_cancel_left₀ _ hpos.ne']

/-- A unit is shown exactly in each one that is not larger. -/
theorem shownIn_nanoseconds (hu : u ∈ timeUnits) (hv : v ∈ timeUnits)
    (h : u.nanoseconds ≤ v.nanoseconds) : shownIn u (.ofNat v.nanoseconds) = v.nanoseconds := by
  obtain ⟨k, hk⟩ := nanoseconds_dvd hu hv h
  have hle : k ≤ 2 ^ 53 :=
    (Nat.le_mul_of_pos_left k (nanoseconds_bounds hu).1).trans (hk ▸ (nanoseconds_bounds hv).2)
  have hvalue : (ofNat v.nanoseconds).value = u.nanoseconds * k := by
    rw [value_nanoseconds hv, hk, Nat.cast_mul]
  rw [shownIn, toPlaces_of_value (value_amountIn hu (isFinite_nanoseconds hv) hle hvalue), hk,
    Nat.cast_mul, mul_comm]

/-- What is shown is in the order of the durations, also across units. -/
theorem shownIn_le_shownIn (hx : x.IsFinite) (hy : y.IsFinite) (h : x ≤ y) (hu : Suits u x)
    (hv : Suits v y) : shownIn u x ≤ shownIn v y := by
  have hvalue := (le_iff_value_le hx hy).mp h
  have hle : u.nanoseconds ≤ v.nanoseconds := by
    rcases hu.reached with rfl | hreached
    · exact (nanoseconds_bounds hv.mem).1
    · exact hv.largest u hu.mem (hreached.trans hvalue)
  rcases hle.lt_or_eq with hlt | heq
  · -- The larger unit itself is between the two and is shown alike in both units.
    have hfinite := isFinite_nanoseconds hv.mem
    have hbelow : x ≤ ofNat v.nanoseconds := by
      rw [le_iff_value_le hx hfinite, value_nanoseconds hv.mem]
      exact le_of_not_ge fun hreached => hlt.not_ge (hu.largest v hv.mem hreached)
    have habove : ofNat v.nanoseconds ≤ y := by
      rw [le_iff_value_le hfinite hy, value_nanoseconds hv.mem]
      rcases hv.reached with rfl | hreached
      · exact absurd hlt (nanoseconds_bounds hu.mem).1.not_gt
      · exact hreached
    calc shownIn u x
      _ ≤ shownIn u (.ofNat v.nanoseconds) := shownIn_mono hu.mem hx hfinite hbelow
      _ = shownIn v (.ofNat v.nanoseconds) := by
        rw [shownIn_nanoseconds hu.mem hv.mem hle, shownIn_nanoseconds hv.mem hv.mem le_rfl]
      _ ≤ shownIn v y := shownIn_mono hv.mem hfinite hy habove
  · obtain rfl := eq_of_nanoseconds_eq hu.mem hv.mem heq
    exact shownIn_mono hu.mem hx hy h

/-- The error of the one division, in nanoseconds. -/
theorem abs_amountIn_sub_le (hx : x.IsFinite) (hu : Suits u x) :
    |(amountIn u x).value * u.nanoseconds - x.value| ≤
      if u.nanoseconds = 1 then 0 else x.value / 2 ^ 53 := by
  rw [amountIn]
  split
  · rename_i hone
    rw [hone, Nat.cast_one, mul_one, sub_self, abs_zero]
  · rename_i hone
    have hreached := hu.reached.resolve_left fun h => hone (h ▸ rfl)
    have hpos : (0 : ℚ) < u.nanoseconds := by exact_mod_cast (nanoseconds_bounds hu.mem).1
    have hclose := abs_value_div_sub_le hx (isFinite_nanoseconds hu.mem)
      (one_le_value_nanoseconds hu.mem) (value_nanoseconds hu.mem ▸ hreached)
    rw [value_nanoseconds hu.mem] at hclose
    calc |(x / ofNat u.nanoseconds).value * u.nanoseconds - x.value|
      _ = |(x / ofNat u.nanoseconds).value - x.value / u.nanoseconds| * u.nanoseconds := by
        rw [← abs_of_pos hpos, ← abs_mul, abs_of_pos hpos, sub_mul, div_mul_cancel₀ _ hpos.ne']
      _ ≤ x.value / u.nanoseconds / 2 ^ 53 * u.nanoseconds :=
        mul_le_mul_of_nonneg_right hclose hpos.le
      _ = x.value / 2 ^ 53 := by rw [div_right_comm, div_mul_cancel₀ _ hpos.ne']

theorem abs_shownIn_sub_le (hx : x.IsFinite) (hu : Suits u x) :
    |shownIn u x - x.value| ≤ u.nanoseconds / 10 ^ u.places / 2 +
      if u.nanoseconds = 1 then 0 else x.value / 2 ^ 53 := by
  refine (abs_sub_le _ ((amountIn u x).value * u.nanoseconds) _).trans
    (add_le_add ?_ (abs_amountIn_sub_le hx hu))
  calc |shownIn u x - (amountIn u x).value * u.nanoseconds|
    _ = |(amountIn u x).toPlaces u.places - (amountIn u x).value| * u.nanoseconds := by
      rw [shownIn, ← sub_mul, abs_mul, Nat.abs_cast]
    _ ≤ 1 / 10 ^ u.places / 2 * u.nanoseconds :=
      mul_le_mul_of_nonneg_right (abs_toPlaces_sub _ _) (Nat.cast_nonneg _)
    _ = u.nanoseconds / 10 ^ u.places / 2 := by ring

/-! ### What is read -/

/-- A duration as its text gives it: a number with its places, and the nanoseconds in the unit. -/
structure Reading where
  number : ℚ
  places : Nat
  unit : Nat
deriving DecidableEq, Repr

def Reading.nanoseconds (r : Reading) : ℚ := r.number * r.unit

/-- One of the last digit, in nanoseconds. -/
def Reading.lastDigit (r : Reading) : ℚ := r.unit / 10 ^ r.places

/-- The signs of units and the nanoseconds in them. -/
def unitSigns : List (List Char × Nat) :=
  [(['n', 's'], 1), (['µ', 's'], 1000), (['m', 's'], 1000000), (['s'], 1000000000)]

/-- A decimal number and behind it the sign of a unit, with nothing else in the text. -/
def readDuration? (text : String) : Option Reading := do
  let (number, places, sign) ← decimal? text.toList
  let unit ← unitSigns.lookup sign
  some ⟨number, places, unit⟩

/-- Whether a duration is read to the last digit that is shown, in the largest unit of which it has
at least one. Only nanoseconds are shown without a division. -/
structure Reading.Tells (r : Reading) (x : Binary64) : Prop where
  unit : r.unit ∈ unitSigns.map Prod.snd
  reached : r.unit = 1 ∨ (r.unit : ℚ) ≤ x.value
  largest (n : Nat) (hn : n ∈ unitSigns.map Prod.snd) (h : (n : ℚ) ≤ x.value) : n ≤ r.unit
  places : r.places = if r.unit = 1 then 0 else 2
  close : |r.nanoseconds - x.value| ≤ r.lastDigit / 2 + if r.unit = 1 then 0 else x.value / 2 ^ 53

/-- The reading of a number of nanoseconds that is shown in a unit. -/
def readingIn (u : TimeUnit) (x : Binary64) : Reading :=
  ⟨(amountIn u x).toPlaces u.places, u.places, u.nanoseconds⟩

theorem exists_sign (hu : u ∈ timeUnits) :
    ∃ c rest, u.sign.toList = c :: rest ∧ ¬c.isDigit ∧ c ≠ '.' ∧
      unitSigns.lookup (c :: rest) = some u.nanoseconds := by
  simp only [timeUnits, largerUnits, nanosecond, List.mem_cons, List.not_mem_nil, or_false] at hu
  rcases hu with rfl | rfl | rfl | rfl <;> exact ⟨_, _, rfl, by decide, by decide, by decide⟩

theorem readDuration?_duration (hx : x.IsFinite) :
    readDuration? (duration x) = some (readingIn (timeUnit x) x) := by
  have hu := timeUnit_mem x
  obtain ⟨c, rest, hsign, hdigit, hpoint, hlookup⟩ := exists_sign hu
  rw [readDuration?, duration_eq, String.toList_append, hsign,
    decimal?_fixed (isFinite_amountIn hu hx) _ hdigit hpoint]
  simp only [Option.bind_eq_bind, Option.bind_some, hlookup, readingIn]

example : readDuration? "1000.00ms" = some ⟨1000, 2, 1000000⟩ := by decide +kernel

theorem nanoseconds_readingIn (u : TimeUnit) (x : Binary64) :
    (readingIn u x).nanoseconds = shownIn u x :=
  rfl

theorem mem_unitSigns_iff {n : Nat} :
    n ∈ unitSigns.map Prod.snd ↔ n ∈ timeUnits.map TimeUnit.nanoseconds := by
  have hperm : (unitSigns.map Prod.snd).Perm (timeUnits.map TimeUnit.nanoseconds) := by decide
  exact hperm.mem_iff

theorem tells_readingIn (hx : x.IsFinite) (hu : Suits u x) : (readingIn u x).Tells x where
  unit := mem_unitSigns_iff.mpr (List.mem_map_of_mem hu.mem)
  reached := hu.reached.imp_left fun h => by rw [h]; rfl
  largest n hn h := by
    obtain ⟨v, hv, rfl⟩ := List.mem_map.mp (mem_unitSigns_iff.mp hn)
    exact hu.largest v hv h
  places := places_eq hu.mem
  close := abs_shownIn_sub_le hx hu

/-- The texts of two durations are read in the order of the durations, also when they are in
different units, and each as its duration up to half of the last digit and one division. -/
theorem duration_tells (hx : x.IsFinite) (hy : y.IsFinite) (h : x ≤ y) :
    ∃ r s, readDuration? (duration x) = some r ∧ readDuration? (duration y) = some s ∧
      r.nanoseconds ≤ s.nanoseconds ∧ r.Tells x ∧ s.Tells y := by
  have hu := suits_timeUnit hx
  have hv := suits_timeUnit hy
  refine ⟨_, _, readDuration?_duration hx, readDuration?_duration hy, ?_, tells_readingIn hx hu,
    tells_readingIn hy hv⟩
  rw [nanoseconds_readingIn, nanoseconds_readingIn]
  exact shownIn_le_shownIn hx hy h hu hv

/-- The last number of nanoseconds below a second. -/
def belowSecond : Binary64 := .ofBits 0x41cdcd64ffffffff

theorem duration_tells_second :
    belowSecond.IsFinite ∧ IsFinite 1000000000 ∧ belowSecond ≤ 1000000000 ∧
      ∃ r s, readDuration? (duration belowSecond) = some r ∧
        readDuration? (duration 1000000000) = some s ∧
        r.nanoseconds ≤ s.nanoseconds ∧ r.Tells belowSecond ∧ s.Tells 1000000000 := by
  have hbelow : belowSecond.IsFinite := by decide +kernel
  have hsecond : IsFinite 1000000000 := by decide +kernel
  have hle : belowSecond ≤ 1000000000 := by decide +kernel
  exact ⟨hbelow, hsecond, hle, duration_tells hbelow hsecond hle⟩

example : duration belowSecond = "1000.00ms" ∧ duration 1000000000 = "1.00s" := by decide +kernel

end RegressionGate.Report
