import RegressionGate.Proofs.Gate.Verdict

/-! What a comparison compares: the entries of a classification correspond to benchmarks, and to
case directories where no two with a mean count for one benchmark. Where two do, the mean of one
may be compared with that of the other. -/

namespace RegressionGate

/-- Whether a list of comparisons has one for each thing that is related to one, and no more. -/
def Corresponds {α : Type} (R : α → Comparison → Prop) (cs : List Comparison) : Prop :=
  ∃ pairs : List (α × Comparison), (pairs.map Prod.fst).Nodup ∧
    (∀ a c, (a, c) ∈ pairs ↔ R a c) ∧ cs.Perm (pairs.map Prod.snd)

namespace Corresponds

variable {α β : Type} {R : α → Comparison → Prop} {cs : List Comparison}

theorem filterMap {as : List α} (h : as.Nodup) {f : α → Option Comparison}
    (hR : ∀ a c, R a c ↔ a ∈ as ∧ f a = some c) (hcs : cs.Perm (as.filterMap f)) :
    Corresponds R cs := by
  refine ⟨as.filterMap fun a => (f a).map (Prod.mk a), ?_, fun a c => ?_, ?_⟩
  · refine List.pairwise_map.mpr (List.pairwise_filterMap.mpr (h.imp fun hne p hp q hq => ?_))
    obtain ⟨c, -, rfl⟩ := Option.map_eq_some_iff.mp hp
    obtain ⟨d, -, rfl⟩ := Option.map_eq_some_iff.mp hq
    exact hne
  · simp only [hR, List.mem_filterMap, Option.map_eq_some_iff, Prod.mk.injEq]
    constructor
    · rintro ⟨a', ha, c', hc, rfl, rfl⟩
      exact ⟨ha, hc⟩
    · rintro ⟨ha, hc⟩
      exact ⟨a, ha, c, hc, rfl, rfl⟩
  · rw [List.map_filterMap]
    simpa [Function.comp_def] using hcs

theorem mem_iff (h : Corresponds R cs) {c : Comparison} : c ∈ cs ↔ ∃ a, R a c := by
  obtain ⟨pairs, -, hpairs, hcs⟩ := h
  rw [hcs.mem_iff, List.mem_map]
  constructor
  · rintro ⟨⟨a, c⟩, hp, rfl⟩
    exact ⟨a, (hpairs a c).mp hp⟩
  · rintro ⟨a, ha⟩
    exact ⟨(a, c), (hpairs a c).mpr ha, rfl⟩

/-- A correspondence carries over to other things that name the same ones, each but once. -/
theorem of_naming (h : Corresponds R cs) {S : β → Comparison → Prop} {ds : List Comparison}
    (hS : Corresponds S ds) {name : β → α} (hname : ∀ a c, R a c ↔ ∃ b, name b = a ∧ S b c)
    (hone : ∀ b c b' c', S b c → S b' c' → name b = name b' → b = b') : Corresponds S cs := by
  obtain ⟨pairs, hnodup, hpairs, hcs⟩ := h
  obtain ⟨named, hnodup', hnamed, -⟩ := hS
  refine ⟨named, hnodup', hnamed, hcs.trans ?_⟩
  have hren : (named.map fun p => (name p.1, p.2)).Nodup := by
    refine List.pairwise_map.mpr (hnodup'.of_map.imp_of_mem fun {p q} hp hq hne heq => hne ?_)
    obtain ⟨hfst, hsnd⟩ := Prod.mk.inj heq
    exact Prod.ext (hone _ _ _ _ ((hnamed _ _).mp hp) ((hnamed _ _).mp hq) hfst) hsnd
  -- Renamed, the pairs of the one relation are those of the other in some order.
  have hperm : pairs.Perm (named.map fun p => (name p.1, p.2)) := by
    apply (List.perm_ext_iff_of_nodup hnodup.of_map hren).mpr
    rintro ⟨a, c⟩
    rw [hpairs, hname, List.mem_map]
    simp only [Prod.mk.injEq, Prod.exists, hnamed]
    constructor
    · rintro ⟨b, hb, hc⟩
      exact ⟨b, c, hc, hb, rfl⟩
    · rintro ⟨b, c', hc, hb, rfl⟩
      exact ⟨b, hb, hc⟩
  simpa [List.map_map, Function.comp_def] using hperm.map Prod.snd

end Corresponds

namespace Tree

variable {t : Tree} {s : Settings}

/-- Whether `c` compares the means of a benchmark: the one of the first case directory that counts
for it, under either label. -/
def Compares (t : Tree) (s : Settings) (b : Benchmark) (c : Comparison) : Prop :=
  ∃ base ns, t.FirstMean s.root s.baselineLabel b base ∧ t.FirstMean s.root s.currentLabel b ns ∧
    ¬base.IsZero ∧ (changePercent base ns).IsFinite ∧
      c = ⟨b.name, base, ns, changePercent base ns⟩

/-- Whether `c` compares the means of one case directory. -/
def CaseCompares (t : Tree) (s : Settings) (n : CaseName) (c : Comparison) : Prop :=
  t.HasCase s.root n ∧ ∃ base ns, n.mean? t s.root s.baselineLabel = some base ∧
    n.mean? t s.root s.currentLabel = some ns ∧ ¬base.IsZero ∧ (changePercent base ns).IsFinite ∧
      c = ⟨n.benchmark.name, base, ns, changePercent base ns⟩

def HasMean (t : Tree) (s : Settings) (n : CaseName) : Prop :=
  t.HasCase s.root n ∧ ((n.mean? t s.root s.baselineLabel).isSome ∨
    (n.mean? t s.root s.currentLabel).isSome)

/-- Whether no two case directories with a mean count for one benchmark. -/
def DistinctMeans (t : Tree) (s : Settings) : Prop :=
  ∀ m n, t.HasMean s m → t.HasMean s n → m.benchmark = n.benchmark → m = n

theorem WellNamed.distinctMeans (h : t.WellNamed s.root) : t.DistinctMeans s :=
  fun m n hm hn => h.distinct m n hm.1 hn.1

def caseComparison? (t : Tree) (s : Settings) (n : CaseName) : Option Comparison :=
  (n.mean? t s.root s.baselineLabel).bind fun base =>
    (n.mean? t s.root s.currentLabel).bind fun ns => Comparison.of? n.benchmark.name base ns

theorem caseCompares_iff {n : CaseName} {c : Comparison} :
    t.CaseCompares s n c ↔ t.HasCase s.root n ∧ t.caseComparison? s n = some c := by
  simp only [CaseCompares, caseComparison?, Option.bind_eq_some_iff, Comparison.of?_eq_some_iff]
  grind

/-- Where means are distinct, the first mean of a benchmark is that of its only directory. -/
theorem DistinctMeans.firstMean (h : t.DistinctMeans s) {label : Path}
    (hlabel : ∀ n, t.HasCase s.root n → (n.mean? t s.root label).isSome → t.HasMean s n)
    {n : CaseName} (hn : t.HasCase s.root n) {v : Binary64}
    (hv : n.mean? t s.root label = some v) : t.FirstMean s.root label n.benchmark v := by
  refine ⟨n, hn, rfl, hv, fun m hm hb hlt => Option.not_isSome_iff_eq_none.mp fun hsome => ?_⟩
  have hmn := h m n (hlabel m hm hsome) (hlabel n hn (by simp [hv])) hb
  exact ne_of_irrefl hlt hmn

theorem DistinctMeans.compares_iff (h : t.DistinctMeans s) {b : Benchmark} {c : Comparison} :
    t.Compares s b c ↔ ∃ n : CaseName, n.benchmark = b ∧ t.CaseCompares s n c := by
  constructor
  · rintro ⟨base, ns, ⟨m, hm, rfl, hbase, -⟩, ⟨n, hn, hb, hns, -⟩, hc⟩
    obtain rfl := h n m ⟨hn, .inr (by simp [hns])⟩ ⟨hm, .inl (by simp [hbase])⟩ hb
    exact ⟨n, rfl, hn, base, ns, hbase, hns, hc⟩
  · rintro ⟨n, rfl, hn, base, ns, hbase, hns, hc⟩
    exact ⟨base, ns, h.firstMean (fun _ hm hsome => ⟨hm, .inl hsome⟩) hn hbase,
      h.firstMean (fun _ hm hsome => ⟨hm, .inr hsome⟩) hn hns, hc⟩

end Tree

open Estimate

variable {t : Tree} {s : Settings}

/-- The entries of a classification correspond to the benchmarks with two means to compare. -/
theorem corresponds_compares (t : Tree) (s : Settings) :
    Corresponds (t.Compares s) (s.classification t).all := by
  have hperm : (s.classification t).all.Perm
      (comparisons (loadEstimates t s.root s.baselineLabel).estimates
        (loadEstimates t s.root s.currentLabel).estimates) := classify_perm _ _
  rw [comparisons_eq_filterMap] at hperm
  refine .filterMap (EstimateSet.nodup_keys _) (fun b c => ?_) hperm
  rw [Tree.Compares, comparison?_eq_some_iff]
  simp only [loadEstimates, get?_load t.lists_list, Comparison.of?_eq_some_iff]
  constructor
  · rintro ⟨base, ns, hbase, hns, hc⟩
    have hentry : (b, ns) ∈ (load t t.list s.root s.currentLabel).estimates.entries :=
      EstimateSet.mem_entries.mpr ((get?_load t.lists_list).mpr hns)
    exact ⟨List.mem_map_of_mem hentry, base, ns, hbase, hns, hc⟩
  · exact And.right

/-- Where means are distinct, they correspond to the case directories with two means to compare. -/
theorem corresponds_caseCompares (h : t.DistinctMeans s) :
    Corresponds (t.CaseCompares s) (s.classification t).all := by
  have hcases := cases_caseNames t.lists_list s.root
  have hall : Corresponds (t.CaseCompares s)
      ((caseNames t t.list s.root).filterMap (t.caseComparison? s)) := by
    refine .filterMap hcases.nodup (fun n c => ?_) (.refl _)
    rw [Tree.caseCompares_iff, hcases.mem_iff]
  apply (corresponds_compares t s).of_naming hall (fun _ _ => h.compares_iff)
  rintro m c n d ⟨hm, base, -, hbase, -⟩ ⟨hn, base', -, hbase', -⟩ hb
  exact h m n ⟨hm, .inl (by simp [hbase])⟩ ⟨hn, .inl (by simp [hbase'])⟩ hb

/-- A run that reaches the comparison reports one entry for each benchmark with two means, which are
those of the first directories that count for it. Where no two directories with a mean count for one
benchmark, as where every name is the encoding of a text, these are one entry for each directory
with two means, and its means. -/
theorem runGate_compares (hs : s.check = .ok ()) (hbaseline : t.Measured s.root s.baselineLabel)
    (hcurrent : t.Measured s.root s.currentLabel) :
    (∃ warnings, runGate t s = .ok (.conclude warnings
      (.ofClassification (s.classification t) s.threshold s.strict)
      (some (s.report (s.classification t))))) ∧
    Corresponds (t.Compares s) (s.classification t).all ∧
    (t.DistinctMeans s → Corresponds (t.CaseCompares s) (s.classification t).all) ∧
    (t.WellNamed s.root → t.DistinctMeans s) := by
  have hrun := runGate_present hs hbaseline.isDirectory
  rw [judge_measured hbaseline hcurrent] at hrun
  exact ⟨⟨_, hrun⟩, corresponds_compares t s, corresponds_caseCompares,
    Tree.WellNamed.distinctMeans⟩

theorem runGate_compares_doubled :
    doubled.DistinctMeans {} ∧
      (⟨"g/a", 100, 200, 100⟩ : Comparison) ∈ (({} : Settings).classification doubled).all := by
  obtain ⟨-, -, hcase, hwell⟩ := runGate_compares (t := doubled) (s := {}) (by decide +kernel)
    ⟨⟨"g", "a"⟩, 100, by decide +kernel⟩ ⟨⟨"g", "a"⟩, 200, by decide +kernel⟩
  have hdistinct := hwell (by decide +kernel)
  have hcompares : doubled.CaseCompares {}
      ⟨⟨Utf8.encode "g", by decide +kernel⟩, ⟨Utf8.encode "a", by decide +kernel⟩⟩
      ⟨"g/a", 100, 200, 100⟩ :=
    ⟨by decide +kernel, 100, 200, by decide +kernel, by decide +kernel, by decide +kernel,
      by decide +kernel, by decide +kernel⟩
  exact ⟨hdistinct, (hcase hdistinct).mem_iff.mpr ⟨_, hcompares⟩⟩

/-- Two groups whose names are shown alike, one measured under either label. -/
def collided : Tree :=
  .ofMeasurements
    [(Utf8.encode "g" ++ [0xff], [(Utf8.encode "c", [("main", "[[100]]")])]),
      (Utf8.encode "g" ++ [0xfe], [(Utf8.encode "c", [("pr", "[[200]]")])])]

/-- The means of two directories are compared, and no directory has two. -/
theorem not_corresponds_collided :
    ({} : Settings).check = .ok () ∧
      collided.Measured ({} : Settings).root ({} : Settings).baselineLabel ∧
      collided.Measured ({} : Settings).root ({} : Settings).currentLabel ∧
      ¬Corresponds (collided.CaseCompares {}) (({} : Settings).classification collided).all := by
  let b : Benchmark := ⟨"g\uFFFD", "c"⟩
  have hbaseline : collided.FirstMean ({} : Settings).root ({} : Settings).baselineLabel b 100 := by
    decide +kernel
  have hcurrent : collided.FirstMean ({} : Settings).root ({} : Settings).currentLabel b 200 := by
    decide +kernel
  refine ⟨by decide +kernel, ⟨b, 100, hbaseline⟩, ⟨b, 200, hcurrent⟩, fun h => ?_⟩
  have hcompares : collided.Compares {} b ⟨b.name, 100, 200, changePercent 100 200⟩ :=
    ⟨100, 200, hbaseline, hcurrent, by decide +kernel, by decide +kernel, rfl⟩
  have hentry := (corresponds_compares collided {}).mem_iff.mpr ⟨b, hcompares⟩
  obtain ⟨n, hn, base, ns, hbase, hns, -⟩ := h.mem_iff.mp hentry
  have hnone : ∀ n ∈ Tree.caseNames (collided.directories collided.list) ({} : Settings).root,
      n.mean? collided ({} : Settings).root ({} : Settings).baselineLabel = none ∨
        n.mean? collided ({} : Settings).root ({} : Settings).currentLabel = none := by
    decide +kernel
  rcases hnone n (Tree.mem_caseNames_list.mpr hn) with hnone | hnone
  · rw [hnone] at hbase
    contradiction
  · rw [hnone] at hns
    contradiction

end RegressionGate
