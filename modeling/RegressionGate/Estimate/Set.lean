import RegressionGate.Benchmark
import RegressionGate.Binary64.Basic

/-! Estimate sets: one duration in nanoseconds for each of finitely many benchmarks, in the order
of the benchmarks. -/

namespace RegressionGate

/-- The mean durations of one run. -/
structure EstimateSet where
  entries : List (Benchmark × Binary64)
  ordered : entries.Pairwise fun a b => a.1 < b.1

namespace EstimateSet

def empty : EstimateSet := ⟨[], .nil⟩

instance : Inhabited EstimateSet := ⟨empty⟩

def isEmpty (s : EstimateSet) : Bool := s.entries.isEmpty

def get? (s : EstimateSet) (b : Benchmark) : Option Binary64 := s.entries.lookup b

/-- The entries with a duration for `b`, which replaces an earlier one if `replace` is set. -/
def insertEntry (replace : Bool) (b : Benchmark) (ns : Binary64) :
    List (Benchmark × Binary64) → List (Benchmark × Binary64)
  | [] => [(b, ns)]
  | (a, old) :: es =>
    if b < a then (b, ns) :: (a, old) :: es
    else if b = a then (a, if replace then ns else old) :: es
    else (a, old) :: insertEntry replace b ns es

theorem mem_insertEntry {replace : Bool} {b : Benchmark} {ns : Binary64}
    {es : List (Benchmark × Binary64)} {e : Benchmark × Binary64}
    (h : e ∈ insertEntry replace b ns es) : e.1 = b ∨ ∃ e' ∈ es, e'.1 = e.1 := by
  induction es with
  | nil => exact .inl (by simp_all [insertEntry])
  | cons a es ih =>
    rw [insertEntry] at h
    split at h
    · rcases List.mem_cons.mp h with rfl | h
      · exact .inl rfl
      · exact .inr ⟨e, h, rfl⟩
    · split at h
      · rcases List.mem_cons.mp h with rfl | h
        · exact .inr ⟨a, by simp, rfl⟩
        · exact .inr ⟨e, by simp [h], rfl⟩
      · rcases List.mem_cons.mp h with rfl | h
        · exact .inr ⟨a, by simp, rfl⟩
        · rcases ih h with h | ⟨e', h, he⟩
          · exact .inl h
          · exact .inr ⟨e', by simp [h], he⟩

theorem insertEntry_ordered (replace : Bool) (b : Benchmark) (ns : Binary64)
    {es : List (Benchmark × Binary64)} (h : es.Pairwise fun a b => a.1 < b.1) :
    (insertEntry replace b ns es).Pairwise fun a b => a.1 < b.1 := by
  induction es with
  | nil => simp [insertEntry]
  | cons a es ih =>
    obtain ⟨ha, hes⟩ := List.pairwise_cons.mp h
    rw [insertEntry]
    split
    · rename_i hlt
      refine List.pairwise_cons.mpr ⟨fun e he => ?_, h⟩
      rcases List.mem_cons.mp he with rfl | he
      · exact hlt
      · exact Benchmark.lt_trans hlt (ha e he)
    · split
      · exact List.pairwise_cons.mpr ⟨ha, hes⟩
      · rename_i hnot hne
        refine List.pairwise_cons.mpr ⟨fun e he => ?_, ih hes⟩
        rcases mem_insertEntry he with he | ⟨e', he', hk⟩
        · exact he ▸ Benchmark.lt_of_not_lt_of_ne hnot fun hba => hne hba.symm
        · exact hk ▸ ha e' he'

/-- The set in which `b` has the duration `ns`, whatever it had before. -/
def insert (s : EstimateSet) (b : Benchmark) (ns : Binary64) : EstimateSet :=
  ⟨insertEntry true b ns s.entries, insertEntry_ordered true b ns s.ordered⟩

/-- The set in which `b` has the duration `ns` unless it had one before. -/
def insertNew (s : EstimateSet) (b : Benchmark) (ns : Binary64) : EstimateSet :=
  ⟨insertEntry false b ns s.entries, insertEntry_ordered false b ns s.ordered⟩

/-- The set of a list of estimates; of several for one benchmark, the last. -/
def ofList (es : List (Benchmark × Binary64)) : EstimateSet :=
  es.foldl (fun s e => s.insert e.1 e.2) empty

/-- The set of a list of estimates; of several for one benchmark, the first. -/
def ofFirsts (es : List (Benchmark × Binary64)) : EstimateSet :=
  es.foldl (fun s e => s.insertNew e.1 e.2) empty

end EstimateSet

end RegressionGate
