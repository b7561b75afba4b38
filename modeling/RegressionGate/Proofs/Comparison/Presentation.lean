import RegressionGate.Proofs.Binary64.TotalOrder
import RegressionGate.Proofs.Comparison.Partition

/-! The order in which changes are shown: a stable sort by the total order of the changes. What
counts under a threshold that is not below zero has no zeros and nothing but numbers, so there the
total order is that of the numbers. -/

namespace RegressionGate

open Binary64

/-! ### Stable sorting -/

/-- Whether `as` has the elements of `bs` in an order of their changes, those with the same change
as they were. -/
structure Arranges {α : Type} (change : α → Binary64) (before : Binary64 → Binary64 → Prop)
    (as bs : List α) : Prop where
  perm : as.Perm bs
  ordered : as.Pairwise fun a b => before (change a) (change b)
  stable (x : Binary64) : (as.filter fun a => decide (change a = x)) =
    bs.filter fun a => decide (change a = x)

section Stable

variable {α : Type} {change : α → Binary64} {before after : Binary64 → Binary64 → Prop}
  {as bs : List α}

theorem arranges_mergeSort (before : Binary64 → Binary64 → Prop) [DecidableRel before]
    (trans : ∀ x y z, before x y → before y z → before x z)
    (total : ∀ x y, before x y ∨ before y x) (change : α → Binary64) (as : List α) :
    Arranges change before
      (as.mergeSort fun a b => decide (before (change a) (change b))) as := by
  have htrans : ∀ a b c : α, decide (before (change a) (change b)) = true →
      decide (before (change b) (change c)) = true →
        decide (before (change a) (change c)) = true := by
    simp only [decide_eq_true_eq]
    exact fun a b c => trans _ _ _
  have htotal : ∀ a b : α, (decide (before (change a) (change b)) ||
      decide (before (change b) (change a))) = true := by
    simp only [Bool.or_eq_true, decide_eq_true_eq]
    exact fun a b => total _ _
  have hperm := List.mergeSort_perm as fun a b => decide (before (change a) (change b))
  refine ⟨hperm, ?_, fun x => ?_⟩
  · exact (List.pairwise_mergeSort htrans htotal as).imp of_decide_eq_true
  · -- Elements with one change are sorted as they are, so sorting all of them keeps their order.
    have hsame : (as.filter fun a => decide (change a = x)).Pairwise fun a b =>
        decide (before (change a) (change b)) = true := by
      refine List.pairwise_of_forall_mem_list fun a ha b hb => decide_eq_true ?_
      rw [of_decide_eq_true (List.mem_filter.mp ha).2, of_decide_eq_true (List.mem_filter.mp hb).2]
      exact (total x x).elim id id
    have hsub := (List.sublist_mergeSort htrans htotal hsame List.filter_sublist).filter
      fun a => decide (change a = x)
    rw [List.filter_filter] at hsub
    simp only [Bool.and_self] at hsub
    exact (hsub.eq_of_length (hperm.filter _).length_eq.symm).symm

theorem Arranges.mono (h : Arranges change before as bs)
    (himp : ∀ x y, before x y → after x y) : Arranges change after as bs :=
  ⟨h.perm, h.ordered.imp (himp _ _), h.stable⟩

/-- Elements with the same change stay in whatever order they were in. -/
theorem Arranges.pairwise (h : Arranges change before as bs) {R : α → α → Prop}
    (hR : bs.Pairwise R) :
    as.Pairwise fun a b => before (change a) (change b) ∧ (change a = change b → R a b) := by
  rw [List.pairwise_iff_forall_sublist]
  intro a b hab
  refine ⟨List.pairwise_iff_forall_sublist.mp h.ordered hab, fun heq => ?_⟩
  have hsame : [a, b].filter (fun c => decide (change c = change b)) = [a, b] := by
    simp [heq]
  have hsub := hab.filter fun c => decide (change c = change b)
  rw [h.stable, hsame] at hsub
  exact List.pairwise_iff_forall_sublist.mp hR (hsub.trans List.filter_sublist)

end Stable

/-! ### Regressions and improvements -/

theorem arranges_worstFirst (c : Classification) :
    Arranges Comparison.change (fun x y => y.totalRank ≤ x.totalRank) c.worstFirst
      c.regressions :=
  arranges_mergeSort (fun x y => y.totalRank ≤ x.totalRank)
    (fun _ _ _ h h' => Int.le_trans h' h) (fun _ _ => Int.le_total _ _) _ _

theorem arranges_greatestFirst (c : Classification) :
    Arranges Comparison.change (fun x y => x.totalRank ≤ y.totalRank) c.greatestFirst
      c.improvements :=
  arranges_mergeSort (fun x y => x.totalRank ≤ y.totalRank)
    (fun _ _ _ h h' => Int.le_trans h h') (fun _ _ => Int.le_total _ _) _ _

section Runs

variable {baseline current : EstimateSet} {t : Binary64}

/-- What counts in the comparison of two runs, sorted by the changes: of two with the same change
the first benchmark is first. -/
theorem exists_sorted (before : Binary64 → Binary64 → Prop) [DecidableRel before]
    (trans : ∀ x y z, before x y → before y z → before x z)
    (total : ∀ x y, before x y ∨ before y x) (baseline current : EstimateSet)
    (counts : Comparison → Prop) [DecidablePred counts] :
    ∃ ps : List (Benchmark × Comparison),
      (((comparisons baseline current).filter fun e => decide (counts e)).mergeSort
        fun a b => decide (before a.change b.change)) = ps.map Prod.snd ∧
      (∀ b e, (b, e) ∈ ps ↔ comparison? baseline current b = some e ∧ counts e) ∧
      ps.Pairwise fun p q =>
        before p.2.change q.2.change ∧ (p.2.change = q.2.change → p.1 < q.1) := by
  have harranges := arranges_mergeSort before trans total
    (fun p : Benchmark × Comparison => p.2.change)
    ((matched baseline current).filter fun p => decide (counts p.2))
  refine ⟨_, ?_, fun b e => ?_, harranges.pairwise ((matched_ordered baseline current).filter _)⟩
  · rw [← map_snd_matched, List.filter_map, List.map_mergeSort]
    · rfl
    · exact fun _ _ _ _ => rfl
  · rw [harranges.perm.mem_iff, List.mem_filter, mem_matched, decide_eq_true_eq]

/-- The regressions of two runs, the worst first, and of two that are as bad the first benchmark
first. -/
theorem exists_worstFirst (baseline current : EstimateSet) (h0 : 0 ≤ t) :
    ∃ ps : List (Benchmark × Comparison),
      (compareRuns baseline current t).worstFirst = ps.map Prod.snd ∧
      (∀ b e, (b, e) ∈ ps ↔ comparison? baseline current b = some e ∧ t < e.change) ∧
      ps.Pairwise fun p q =>
        q.2.change ≤ p.2.change ∧ (p.2.change ≤ q.2.change → p.1 < q.1) := by
  obtain ⟨ps, hsorted, hmem, hordered⟩ := exists_sorted
    (fun x y => y.totalRank ≤ x.totalRank) (fun _ _ _ h h' => Int.le_trans h' h)
    (fun _ _ => Int.le_total _ _) baseline current fun e => e.IsRegression t
  refine ⟨ps, hsorted, hmem, hordered.imp_of_mem ?_⟩
  rintro p q hp hq ⟨hle, hsame⟩
  have hside : SameSide q.2.change p.2.change :=
    .inl ⟨((hmem _ _).mp hq).2.pos h0, ((hmem _ _).mp hp).2.pos h0⟩
  have hbelow := hside.totalRank_le_iff.mp hle
  exact ⟨hbelow, fun hge => hsame (hside.eq_of_le_of_le hbelow hge).symm⟩

/-- The improvements of two runs, the greatest first, and of two that are as great the first
benchmark first. -/
theorem exists_greatestFirst (baseline current : EstimateSet) (h0 : 0 ≤ t) :
    ∃ ps : List (Benchmark × Comparison),
      (compareRuns baseline current t).greatestFirst = ps.map Prod.snd ∧
      (∀ b e, (b, e) ∈ ps ↔ comparison? baseline current b = some e ∧ e.change < -t) ∧
      ps.Pairwise fun p q =>
        p.2.change ≤ q.2.change ∧ (q.2.change ≤ p.2.change → p.1 < q.1) := by
  obtain ⟨ps, hsorted, hmem, hordered⟩ := exists_sorted
    (fun x y => x.totalRank ≤ y.totalRank) (fun _ _ _ h h' => Int.le_trans h h')
    (fun _ _ => Int.le_total _ _) baseline current fun e => e.IsImprovement t
  refine ⟨ps, hsorted, fun b e => ?_, hordered.imp_of_mem ?_⟩
  · rw [hmem, Comparison.isImprovement_iff h0]
  · rintro p q hp hq ⟨hle, hsame⟩
    have hside : SameSide p.2.change q.2.change :=
      .inr ⟨((hmem _ _).mp hp).2.neg h0, ((hmem _ _).mp hq).2.neg h0⟩
    have hbelow := hside.totalRank_le_iff.mp hle
    exact ⟨hbelow, fun hge => hsame (hside.eq_of_le_of_le hbelow hge)⟩

end Runs

/-- Regressions are shown from the greatest change in the total order down and improvements from
the least up, those with the same change as they were. For two runs compared under a threshold that
is not below zero these are the numbers in order, and equal ones are in the order of the
benchmarks. -/
theorem Classification.shown_in_order (c : Classification) :
    Arranges Comparison.change (fun x y => TotalLE y x) c.worstFirst c.regressions ∧
      Arranges Comparison.change TotalLE c.greatestFirst c.improvements ∧
      ∀ (baseline current : EstimateSet) (t : Binary64), 0 ≤ t →
        c = compareRuns baseline current t →
        (∃ ps : List (Benchmark × Comparison), c.worstFirst = ps.map Prod.snd ∧
          (∀ b e, (b, e) ∈ ps ↔ comparison? baseline current b = some e ∧ t < e.change) ∧
          ps.Pairwise fun p q =>
            q.2.change ≤ p.2.change ∧ (p.2.change ≤ q.2.change → p.1 < q.1)) ∧
        ∃ ps : List (Benchmark × Comparison), c.greatestFirst = ps.map Prod.snd ∧
          (∀ b e, (b, e) ∈ ps ↔ comparison? baseline current b = some e ∧ e.change < -t) ∧
          ps.Pairwise fun p q =>
            p.2.change ≤ q.2.change ∧ (q.2.change ≤ p.2.change → p.1 < q.1) := by
  refine ⟨(arranges_worstFirst c).mono fun _ _ => totalLE_iff.mpr,
    (arranges_greatestFirst c).mono fun _ _ => totalLE_iff.mpr, ?_⟩
  rintro baseline current t h0 rfl
  exact ⟨exists_worstFirst baseline current h0, exists_greatestFirst baseline current h0⟩

/-- Two of three regressions are equally bad. -/
theorem Classification.shown_in_order_tie :
    (0 : Binary64) ≤ 10 ∧ ∃ c : Classification,
      c = compareRuns (.ofList [(⟨"g", "a"⟩, 100), (⟨"g", "b"⟩, 100), (⟨"h", "a"⟩, 100)])
        (.ofList [(⟨"g", "a"⟩, 120), (⟨"g", "b"⟩, 150), (⟨"h", "a"⟩, 120)]) 10 ∧
      (c.worstFirst.filter fun e => decide (e.change = 20)) =
        (c.regressions.filter fun e => decide (e.change = 20)) ∧
      ∃ ps : List (Benchmark × Comparison), c.worstFirst = ps.map Prod.snd ∧
        (⟨"g", "b"⟩, ⟨"g/b", 100, 150, 50⟩) ∈ ps ∧ (⟨"h", "a"⟩, ⟨"h/a", 100, 120, 20⟩) ∈ ps ∧
        ps.Pairwise fun p q =>
          q.2.change ≤ p.2.change ∧ (p.2.change ≤ q.2.change → p.1 < q.1) := by
  have h0 : (0 : Binary64) ≤ 10 := by decide +kernel
  obtain ⟨hworst, -, hruns⟩ := Classification.shown_in_order
    (compareRuns (.ofList [(⟨"g", "a"⟩, 100), (⟨"g", "b"⟩, 100), (⟨"h", "a"⟩, 100)])
      (.ofList [(⟨"g", "a"⟩, 120), (⟨"g", "b"⟩, 150), (⟨"h", "a"⟩, 120)]) 10)
  obtain ⟨⟨ps, hps, hmem, hordered⟩, -⟩ := hruns _ _ 10 h0 rfl
  exact ⟨h0, _, rfl, hworst.stable 20, ps, hps, (hmem _ _).mpr (by decide +kernel),
    (hmem _ _).mpr (by decide +kernel), hordered⟩

end RegressionGate
