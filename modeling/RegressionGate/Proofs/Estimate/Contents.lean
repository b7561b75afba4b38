import RegressionGate.Proofs.Estimate.Load

/-! A load against the contents of the tree: warnings for the files that are refused, the first mean
of each benchmark, and nothing else. -/

namespace RegressionGate.Estimate

variable {tree : Tree} {listing : Tree.Listing} {root label : Path}

theorem length_filter_isFile (ns : List CaseName) :
    (ns.filter fun n => tree.isFile (n.file root label)).length =
      (ns.filterMap (estimate? tree root label)).length +
        (ns.filterMap (CaseName.warning? tree root label)).length := by
  induction ns with
  | nil => rfl
  | cons n ns ih =>
    rw [List.filter_cons, List.filterMap_cons, List.filterMap_cons, estimate?]
    by_cases hfile : tree.isFile (n.file root label)
    · rw [if_pos hfile, List.length_cons, ih]
      rcases CaseName.mean_or_warning hfile with ⟨v, hmean, hwarning⟩ | ⟨w, hmean, hwarning⟩
      · rw [hmean, hwarning]
        simp only [Option.map_some, List.length_cons]
        omega
      · rw [hmean, hwarning]
        simp only [Option.map_none, List.length_cons]
        omega
    · rw [if_neg hfile, ih, CaseName.mean?_not_isFile hfile, CaseName.warning?_not_isFile hfile]
      rfl

theorem nodup_entries (label : Path) {ns : List CaseName} (h : tree.Cases root ns)
    (hd : tree.Distinct root) :
    ((ns.filterMap (estimate? tree root label)).map Prod.fst).Nodup := by
  refine List.pairwise_map.mpr (List.pairwise_filterMap.mpr ?_)
  refine h.nodup.imp_of_mem fun {m n} hm hn hne e he e' he' hb => hne ?_
  rw [estimate?, Option.map_eq_some_iff] at he he'
  obtain ⟨v, -, rfl⟩ := he
  obtain ⟨v', -, rfl⟩ := he'
  exact hd m n ((h.mem_iff m).mp hm) ((h.mem_iff n).mp hn) hb

/-- Where case directories count for different benchmarks, each is the first for its own. -/
theorem firstMean_iff (hd : tree.Distinct root) {n : CaseName} (hn : tree.HasCase root n)
    {v : Binary64} :
    tree.FirstMean root label n.benchmark v ↔ n.mean? tree root label = some v := by
  constructor
  · rintro ⟨m, hm, hb, hmean, -⟩
    rwa [← hd m n hm hn hb]
  · intro hmean
    refine ⟨n, hn, rfl, hmean, fun m hm hb hlt => ?_⟩
    exact absurd (hd m n hm hn hb) (ne_of_irrefl hlt)

/-- Whatever the order of the listing, a load fails only with the root, and otherwise warns of just
the files that are refused, in the order of their directories, and has for each benchmark the first
mean. Where every name is the encoding of a text, directories and benchmarks correspond, and each
regular file gives one entry or one warning. -/
theorem load_eq_contents (hl : tree.Lists listing) (root label : Path) :
    (∀ e, tree.list root = .error e →
      (load tree listing root label).estimates = .empty ∧
        (load tree listing root label).warnings = [.unlistable root e]) ∧
    ∀ names, tree.list root = .ok names → ∃ ns, tree.Cases root ns ∧
      (load tree listing root label).warnings = ns.filterMap (CaseName.warning? tree root label) ∧
      (∀ b v, (load tree listing root label).estimates.get? b = some v ↔
        tree.FirstMean root label b v) ∧
      (tree.WellNamed root → tree.Distinct root ∧
        (load tree listing root label).estimates.entries.length +
            (load tree listing root label).warnings.length =
          (ns.filter fun n => tree.isFile (n.file root label)).length ∧
        ∀ n ∈ ns, tree.isFile (n.file root label) →
          (∃ v, n.mean? tree root label = some v ∧ n.warning? tree root label = none ∧
            (load tree listing root label).estimates.get? n.benchmark = some v) ∨
          (∃ w ∈ (load tree listing root label).warnings, n.warning? tree root label = some w ∧
            (load tree listing root label).estimates.get? n.benchmark = none)) := by
  refine ⟨fun e he => ?_, fun names hnames => ?_⟩
  · rw [load_error (hl.error he)]
    exact ⟨rfl, rfl⟩
  have hroot := Tree.isDirectory_of_list hnames
  have hcases := cases_caseNames hl root
  have hwarnings : (load tree listing root label).warnings =
      (caseNames tree listing root).filterMap (CaseName.warning? tree root label) := by
    rw [load_directory hl hroot]
  refine ⟨caseNames tree listing root, hcases, hwarnings, fun b v => get?_load hl, fun hw => ?_⟩
  -- From here on no two directories compete for a benchmark, so none of the files is passed over.
  have hd := hw.distinct
  refine ⟨hd, ?_, fun n hn hfile => ?_⟩
  · have hperm := EstimateSet.entries_ofFirsts_perm (nodup_entries label hcases hd)
    rw [hwarnings, load_directory hl hroot, hperm.length_eq, length_filter_isFile]
  · have hcase := (hcases.mem_iff n).mp hn
    rcases CaseName.mean_or_warning hfile with ⟨v, hmean, hwarning⟩ | ⟨w, hmean, hwarning⟩
    · exact .inl ⟨v, hmean, hwarning, (get?_load hl).mpr ((firstMean_iff hd hcase).mpr hmean)⟩
    · refine .inr ⟨w, ?_, hwarning, Option.eq_none_iff_forall_ne_some.mpr fun v hv => ?_⟩
      · rw [hwarnings]
        exact List.mem_filterMap.mpr ⟨n, hn, hwarning⟩
      · rw [get?_load hl, firstMean_iff hd hcase, hmean] at hv
        contradiction

/-- A group with one case that has a mean and one whose file is refused. -/
def acceptedAndRefused : Tree :=
  .ofMeasurements
    [(Utf8.encode "g",
      [(Utf8.encode "b", [("main", "[]")]), (Utf8.encode "a", [("main", "[[5]]")])])]

def criterion : Path := .ofString "target/criterion"

theorem load_acceptedAndRefused :
    ∃ listing names found, acceptedAndRefused.Lists listing ∧
      acceptedAndRefused.list criterion = .ok names ∧ acceptedAndRefused.WellNamed criterion ∧
      found = load acceptedAndRefused listing criterion (.ofString "main") ∧
      found.estimates.get? ⟨"g", "a"⟩ = some 5 ∧
      ∃ w ∈ found.warnings, w.path = .ofString "target/criterion/g/b/main/estimates.json" := by
  let group : FileName := ⟨Utf8.encode "g", by decide +kernel⟩
  let refused : CaseName := ⟨group, ⟨Utf8.encode "b", by decide +kernel⟩⟩
  have hl := acceptedAndRefused.lists_reverse
  have hnames : acceptedAndRefused.list criterion = .ok [group] := by decide +kernel
  have hwell : acceptedAndRefused.WellNamed criterion := by decide +kernel
  obtain ⟨ns, hcases, hwarnings, hget, -⟩ :=
    (load_eq_contents hl criterion (.ofString "main")).2 _ hnames
  refine ⟨_, _, _, hl, hnames, hwell, rfl, (hget _ _).mpr (by decide +kernel), ?_⟩
  have hrefused : refused.warning? acceptedAndRefused criterion (.ofString "main") =
      some (.malformed (.ofString "target/criterion/g/b/main/estimates.json")
        (.document ⟨.noElement "struct Estimates", ⟨1, 2⟩⟩)) := by decide +kernel
  have hmem := List.mem_filterMap.mpr
    ⟨refused, (hcases.mem_iff _).mpr (by decide +kernel), hrefused⟩
  exact ⟨_, hwarnings ▸ hmem, rfl⟩

end RegressionGate.Estimate
