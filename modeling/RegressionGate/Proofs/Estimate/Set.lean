import Mathlib.Data.List.Nodup
import RegressionGate.Estimate.Set

/-! What an estimate set holds for each benchmark: an entry of the list is the duration of its
benchmark, an insertion changes one benchmark at most, and a set made of the first estimates of a
list gives each benchmark the first duration that the list has for it. -/

namespace RegressionGate.EstimateSet

abbrev Ordered (es : List (Benchmark × Binary64)) : Prop := es.Pairwise fun a b => a.1 < b.1

theorem lookup_cons_of_ne {e : Benchmark × Binary64} {es : List (Benchmark × Binary64)}
    {b : Benchmark} (h : b ≠ e.1) : (e :: es).lookup b = es.lookup b := by
  rw [List.lookup_cons, beq_false_of_ne h]

theorem lookup_eq_none_of_lt {es : List (Benchmark × Binary64)} {b : Benchmark}
    (h : ∀ e ∈ es, b < e.1) : es.lookup b = none := by
  refine List.lookup_eq_none_iff.mpr fun e he => bne_iff_ne.mpr ?_
  rintro rfl
  exact Benchmark.lt_irrefl _ (h e he)

theorem lookup_insertEntry {replace : Bool} {b : Benchmark} {ns : Binary64}
    {es : List (Benchmark × Binary64)} (hes : Ordered es) (c : Benchmark) :
    (insertEntry replace b ns es).lookup c =
      if c = b then some (if replace then ns else (es.lookup b).getD ns) else es.lookup c := by
  induction es with
  | nil =>
    by_cases hc : c = b
    · simp [insertEntry, hc]
    · rw [insertEntry, lookup_cons_of_ne hc, if_neg hc]
  | cons e es ih =>
    obtain ⟨a, old⟩ := e
    obtain ⟨ha, hes'⟩ := List.pairwise_cons.mp hes
    rw [insertEntry]
    split
    · rename_i hlt
      have hb : List.lookup b ((a, old) :: es) = none := by
        apply lookup_eq_none_of_lt
        intro e he
        rcases List.mem_cons.mp he with rfl | he
        · exact hlt
        · exact Benchmark.lt_trans hlt (ha e he)
      by_cases hc : c = b
      · rw [hc, List.lookup_cons_self, if_pos rfl, hb]
        simp
      · rw [lookup_cons_of_ne hc, if_neg hc]
    · split
      · rename_i hba
        subst hba
        by_cases hc : c = b
        · rw [hc, List.lookup_cons_self, List.lookup_cons_self, if_pos rfl]
          simp
        · rw [lookup_cons_of_ne hc, if_neg hc, lookup_cons_of_ne (b := c) hc]
      · rename_i hba
        rw [lookup_cons_of_ne (b := b) hba]
        by_cases hc : c = a
        · subst hc
          rw [List.lookup_cons_self, List.lookup_cons_self, if_neg (Ne.symm hba)]
        · rw [lookup_cons_of_ne hc, lookup_cons_of_ne hc, ih hes']

/-- Where no benchmark occurs twice, an entry is what is found for its benchmark. -/
theorem lookup_eq_some_iff_mem {es : List (Benchmark × Binary64)} (h : (es.map Prod.fst).Nodup)
    {b : Benchmark} {ns : Binary64} : es.lookup b = some ns ↔ (b, ns) ∈ es := by
  rw [List.lookup_eq_some_iff]
  constructor
  · rintro ⟨before, after, rfl, -⟩
    simp
  · intro hmem
    obtain ⟨before, after, rfl⟩ := List.append_of_mem hmem
    refine ⟨before, after, rfl, fun e he => bne_iff_ne.mpr ?_⟩
    rintro rfl
    rw [List.map_append, List.map_cons, List.nodup_append] at h
    exact h.2.2 e.1 (List.mem_map_of_mem he) e.1 List.mem_cons_self rfl

theorem nodup_keys (s : EstimateSet) : (s.entries.map Prod.fst).Nodup :=
  List.pairwise_map.mpr (s.ordered.imp ne_of_irrefl)

theorem mem_entries {s : EstimateSet} {b : Benchmark} {ns : Binary64} :
    (b, ns) ∈ s.entries ↔ s.get? b = some ns :=
  (lookup_eq_some_iff_mem s.nodup_keys).symm

theorem mem_entries_iff {s : EstimateSet} {e : Benchmark × Binary64} :
    e ∈ s.entries ↔ s.get? e.1 = some e.2 := mem_entries

theorem get?_insertNew (s : EstimateSet) (b : Benchmark) (ns : Binary64) (c : Benchmark) :
    (s.insertNew b ns).get? c = if c = b then some ((s.get? b).getD ns) else s.get? c :=
  lookup_insertEntry s.ordered c

theorem get?_foldl_insertNew (es : List (Benchmark × Binary64)) (s : EstimateSet) (b : Benchmark) :
    (es.foldl (fun s e => s.insertNew e.1 e.2) s).get? b = (s.get? b).or (es.lookup b) := by
  induction es generalizing s with
  | nil => simp
  | cons e es ih =>
    rw [List.foldl_cons, ih, get?_insertNew, List.lookup_cons]
    by_cases h : b = e.1
    · subst h
      cases s.get? e.1 <;> simp
    · simp [h, beq_false_of_ne h]

/-- Of several estimates of a benchmark the first counts. -/
theorem get?_ofFirsts (es : List (Benchmark × Binary64)) (b : Benchmark) :
    (ofFirsts es).get? b = es.lookup b := by
  rw [ofFirsts, get?_foldl_insertNew]
  rfl

theorem entries_ofFirsts_perm {es : List (Benchmark × Binary64)} (h : (es.map Prod.fst).Nodup) :
    (ofFirsts es).entries.Perm es := by
  apply (List.perm_ext_iff_of_nodup (nodup_keys _).of_map h.of_map).mpr
  intro e
  rw [mem_entries_iff, get?_ofFirsts, lookup_eq_some_iff_mem h]

theorem isEmpty_iff {s : EstimateSet} : s.isEmpty ↔ ∀ b, s.get? b = none := by
  rw [isEmpty, List.isEmpty_iff]
  constructor
  · intro h b
    rw [get?, h, List.lookup_nil]
  · intro h
    apply List.eq_nil_iff_forall_not_mem.mpr
    intro e he
    rw [mem_entries_iff, h] at he
    contradiction

end RegressionGate.EstimateSet
