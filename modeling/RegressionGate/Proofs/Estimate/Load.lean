import Mathlib.Data.List.Basic
import RegressionGate.Proofs.Estimate.Case
import RegressionGate.Proofs.Estimate.Set

/-! What a load finds in a tree, said of the case directories alone: their order fixes the order of
the warnings and which of two directories counts for a benchmark, whatever the order in which the
directories are listed. -/

namespace RegressionGate

namespace Estimate

variable {tree : Tree} {listing : Tree.Listing} {root label : Path}

/-! ### Directories in order -/

/-- The names of the directories in the directory at a path, in order. -/
def directoryNames (tree : Tree) (listing : Tree.Listing) (p : Path) : List FileName :=
  FileName.sort (tree.directories listing p)

/-- The paths of subdirectories are in the order of their names. -/
theorem subdirectories_fst (tree : Tree) (listing : Tree.Listing) (p : Path) :
    (subdirectories tree listing p).1 = (directoryNames tree listing p).map p.child := by
  have hle (a b : FileName) : decide (a.bytes ≤ b.bytes) = decide (p.child a ≤ p.child b) :=
    decide_eq_decide.mpr Path.child_le_child.symm
  rw [subdirectories, directoryNames, Tree.directories]
  cases listing p with
  | ok names =>
    simp only [FileName.sort]
    rw [List.map_mergeSort (s := fun q r => decide (q ≤ r)) fun a _ b _ => hle a b, List.filter_map]
    rfl
  | error e => simp [FileName.sort]

theorem subdirectories_snd (hl : tree.Lists listing) {p : Path} (hp : tree.isDirectory p) :
    (subdirectories tree listing p).2 = [] := by
  obtain ⟨entries, hfind⟩ := Tree.isDirectory_iff.mp hp
  obtain ⟨listed, hlisted, -⟩ := hl.names (Tree.list_directory hfind)
  rw [subdirectories, hlisted]

theorem subdirectories_error {p : Path} {e : AccessError} (h : listing p = .error e) :
    subdirectories tree listing p = ([], [.unlistable p e]) := by
  rw [subdirectories, h]

theorem mem_directoryNames (hl : tree.Lists listing) {p : Path} {n : FileName} :
    n ∈ directoryNames tree listing p ↔ tree.HasDirectory p n :=
  FileName.mem_sort.trans (Tree.mem_directories hl)

theorem directoryNames_ordered (hl : tree.Lists listing) (p : Path) :
    (directoryNames tree listing p).Pairwise (· < ·) :=
  FileName.sort_ordered (Tree.nodup_directories hl p)

def caseNames (tree : Tree) (listing : Tree.Listing) (root : Path) : List CaseName :=
  Tree.caseNames (directoryNames tree listing) root

theorem cases_caseNames (hl : tree.Lists listing) (root : Path) :
    tree.Cases root (caseNames tree listing root) where
  ordered := by
    refine List.pairwise_flatMap.mpr ⟨fun g _ => ?_, ?_⟩
    · refine List.pairwise_map.mpr ((directoryNames_ordered hl _).imp fun h => ?_)
      exact .inr ⟨rfl, h⟩
    · apply (directoryNames_ordered hl root).imp
      intro g g' h m hm n hn
      obtain ⟨c, -, rfl⟩ := List.mem_map.mp hm
      obtain ⟨c', -, rfl⟩ := List.mem_map.mp hn
      exact .inl h
  mem_iff n := Tree.mem_caseNames fun _ _ => mem_directoryNames hl

/-! ### What each directory contributes -/

theorem directoryLabel?_child (p : Path) (n : FileName) :
    directoryLabel? (p.child n) = some n.shown := by
  rw [directoryLabel?, Path.fileName?_child]
  rfl

def estimate? (tree : Tree) (root label : Path) (n : CaseName) : Option (Benchmark × Binary64) :=
  (n.mean? tree root label).map fun ns => (n.benchmark, ns)

theorem measureFile_file {p : Path} {content : Bytes} (h : tree.find p = .ok (.file content)) :
    measureFile tree p = (measure content).mapError (.malformed p) := by
  rw [measureFile, Tree.read_file h]
  rfl

theorem loadCase_child (g c : FileName) :
    loadCase tree label g.shown ((root.child g).child c) =
      ((estimate? tree root label ⟨g, c⟩).toList,
        (CaseName.warning? tree root label ⟨g, c⟩).toList) := by
  rw [loadCase, directoryLabel?_child]
  by_cases hfile : tree.isFile (CaseName.file root label ⟨g, c⟩)
  · obtain ⟨content, hfind⟩ := Tree.isFile_iff.mp hfile
    have hmeasure := measureFile_file hfind
    rw [CaseName.file] at hfile hmeasure
    rw [estimate?, CaseName.mean?_file hfind, CaseName.warning?_file hfind]
    simp only [hfile, hmeasure, if_true]
    cases measure content <;> rfl
  · rw [estimate?, CaseName.mean?_not_isFile hfile, CaseName.warning?_not_isFile hfile]
    rw [CaseName.file] at hfile
    simp [hfile]

/-- Contributions of one directory after the other, each an estimate or none, a warning or none. -/
theorem gather_map {load : Path → List (Benchmark × Binary64) × List LoadWarning}
    {estimate : CaseName → Option (Benchmark × Binary64)} {warning : CaseName → Option LoadWarning}
    {p : Path} {g : FileName} {names : List FileName}
    (h : ∀ c ∈ names, load (p.child c) = ((estimate ⟨g, c⟩).toList, (warning ⟨g, c⟩).toList)) :
    gather load (names.map p.child) =
      ((names.map (CaseName.mk g)).filterMap estimate,
        (names.map (CaseName.mk g)).filterMap warning) := by
  rw [gather, List.map_map, List.filterMap_map, List.filterMap_map]
  simp only [List.flatMap_map, List.filterMap_eq_flatMap_toList]
  refine Prod.ext (List.flatMap_congr fun c hc => ?_) (List.flatMap_congr fun c hc => ?_)
  · simp only [Function.comp_apply, h c hc]
  · simp only [Function.comp_apply, h c hc]

theorem loadGroup_child (hl : tree.Lists listing) {g : FileName} (hg : tree.HasDirectory root g) :
    loadGroup tree listing label (root.child g) =
      (((directoryNames tree listing (root.child g)).map (CaseName.mk g)).filterMap
          (estimate? tree root label),
        ((directoryNames tree listing (root.child g)).map (CaseName.mk g)).filterMap
          (CaseName.warning? tree root label)) := by
  have hcases := subdirectories_fst tree listing (root.child g)
  have hlisted := subdirectories_snd hl hg.2
  rw [loadGroup, directoryLabel?_child]
  simp only [hcases, hlisted, List.nil_append]
  exact gather_map fun c _ => loadCase_child g c

theorem load_directory (hl : tree.Lists listing) (hroot : tree.isDirectory root) :
    load tree listing root label =
      ⟨.ofFirsts ((caseNames tree listing root).filterMap (estimate? tree root label)),
        (caseNames tree listing root).filterMap (CaseName.warning? tree root label)⟩ := by
  have hgroups := subdirectories_fst tree listing root
  have hlisted := subdirectories_snd hl hroot
  rw [load]
  simp only [hgroups, hlisted, List.nil_append, caseNames, Tree.caseNames, List.filterMap_flatMap,
    gather, List.map_map, List.flatMap_map]
  congr 1
  · congr 1
    apply List.flatMap_congr
    intro g hg
    rw [Function.comp_apply, loadGroup_child hl ((mem_directoryNames hl).mp hg)]
  · apply List.flatMap_congr
    intro g hg
    rw [Function.comp_apply, loadGroup_child hl ((mem_directoryNames hl).mp hg)]

theorem load_error {e : AccessError} (h : listing root = .error e) :
    load tree listing root label = ⟨.empty, [.unlistable root e]⟩ := by
  rw [load, subdirectories_error h]
  rfl

/-! ### The first mean of a benchmark -/

/-- What a case says about the duration of `b`. -/
def says? (tree : Tree) (root label : Path) (b : Benchmark) (n : CaseName) : Option Binary64 :=
  if n.benchmark = b then n.mean? tree root label else none

theorem lookup_entries (ns : List CaseName) (b : Benchmark) :
    (ns.filterMap (estimate? tree root label)).lookup b =
      ns.findSome? (says? tree root label b) := by
  induction ns with
  | nil => rfl
  | cons n ns ih =>
    rw [List.filterMap_cons, List.findSome?_cons, ← ih, estimate?, says?]
    by_cases h : n.benchmark = b
    · cases n.mean? tree root label <;> simp [h]
    · cases n.mean? tree root label with
      | none => simp
      | some v =>
        rw [if_neg h]
        exact EstimateSet.lookup_cons_of_ne (Ne.symm h)

theorem says?_eq_some_iff {b : Benchmark} {n : CaseName} {v : Binary64} :
    says? tree root label b n = some v ↔
      n.benchmark = b ∧ n.mean? tree root label = some v := by
  rw [says?]
  by_cases h : n.benchmark = b <;> simp [h]

theorem findSome?_says {ns : List CaseName} (h : tree.Cases root ns) {b : Benchmark}
    {v : Binary64} :
    ns.findSome? (says? tree root label b) = some v ↔ tree.FirstMean root label b v := by
  rw [List.findSome?_eq_some_iff]
  constructor
  · rintro ⟨before, n, after, rfl, hn, hbefore⟩
    obtain ⟨hbenchmark, hmean⟩ := says?_eq_some_iff.mp hn
    have hcase : tree.HasCase root n := (h.mem_iff n).mp (by simp)
    refine ⟨n, hcase, hbenchmark, hmean, fun m hm hmb hlt => ?_⟩
    have hnone := hbefore m ((h.mem_before hm).mpr hlt)
    rwa [says?, if_pos hmb] at hnone
  · rintro ⟨n, hn, hbenchmark, hmean, hfirst⟩
    obtain ⟨before, after, rfl⟩ := List.append_of_mem ((h.mem_iff n).mpr hn)
    refine ⟨before, n, after, rfl, says?_eq_some_iff.mpr ⟨hbenchmark, hmean⟩, fun m hm => ?_⟩
    have hcase : tree.HasCase root m := (h.mem_iff m).mp (by simp [hm])
    rw [says?]
    split
    · rename_i hmb
      exact hfirst m hcase hmb ((h.mem_before hcase).mp hm)
    · rfl

/-- A load has, for each benchmark, the mean of the first directory that gives one. -/
theorem get?_load (hl : tree.Lists listing) {b : Benchmark} {v : Binary64} :
    (load tree listing root label).estimates.get? b = some v ↔ tree.FirstMean root label b v := by
  by_cases hroot : tree.isDirectory root
  · rw [load_directory hl hroot, EstimateSet.get?_ofFirsts, lookup_entries,
      findSome?_says (cases_caseNames hl root)]
  · obtain ⟨e, he⟩ := Tree.list_error hroot
    rw [load_error (hl.error he)]
    constructor
    · intro h
      rw [EstimateSet.get?, EstimateSet.empty, List.lookup_nil] at h
      contradiction
    · rintro ⟨n, hn, -⟩
      exact absurd hn.isDirectory hroot

end Estimate

end RegressionGate
