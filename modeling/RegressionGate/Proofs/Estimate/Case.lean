import RegressionGate.Estimate.Load
import RegressionGate.Proofs.Text.Utf8
import RegressionGate.Proofs.Tree.Directory

/-! The case directories below a directory of measurements, their order, and what the estimates
file of one of them gives: a mean, a warning, or nothing at all when there is no such file. -/

namespace RegressionGate

/-- The names that lead to a case directory: its group's and its own. -/
structure CaseName where
  group : FileName
  case : FileName
deriving DecidableEq, Repr

namespace CaseName

/-- The benchmark that a case directory counts for. -/
def benchmark (n : CaseName) : Benchmark := ⟨n.group.shown, n.case.shown⟩

def file (root label : Path) (n : CaseName) : Path :=
  Estimate.caseFile ((root.child n.group).child n.case) label

/-- Case directories are ordered by the names of their groups, then by their own. -/
instance : LT CaseName := ⟨fun m n => Prod.lexLt (m.group, m.case) (n.group, n.case)⟩

instance (m n : CaseName) : Decidable (m < n) := inferInstanceAs (Decidable (Prod.lexLt _ _))

theorem lt_irrefl (n : CaseName) : ¬n < n :=
  Lexicographic.irrefl FileName.lt_irrefl FileName.lt_irrefl (n.group, n.case)

theorem lt_trans {l m n : CaseName} (hlm : l < m) (hmn : m < n) : l < n :=
  Lexicographic.trans FileName.lt_trans FileName.lt_trans hlm hmn

instance : Std.Irrefl (α := CaseName) (· < ·) := ⟨lt_irrefl⟩

/-- The mean in the estimates file of a case, if that is a regular file with a measure in it. -/
def mean? (t : Tree) (root label : Path) (n : CaseName) : Option Binary64 :=
  match t.find (n.file root label) with
  | .ok (.file content) => (Estimate.measure content).toOption
  | _ => none

/-- The warning about the estimates file of a case, if that is a regular file without a measure. -/
def warning? (t : Tree) (root label : Path) (n : CaseName) : Option LoadWarning :=
  match t.find (n.file root label) with
  | .ok (.file content) =>
    match Estimate.measure content with
    | .ok _ => none
    | .error e => some (.malformed (n.file root label) e)
  | _ => none

variable {t : Tree} {root label : Path} {n : CaseName}

theorem mean?_file {content : Bytes} (h : t.find (n.file root label) = .ok (.file content)) :
    n.mean? t root label = (Estimate.measure content).toOption := by
  rw [mean?, h]

theorem warning?_file {content : Bytes} (h : t.find (n.file root label) = .ok (.file content)) :
    n.warning? t root label =
      match Estimate.measure content with
      | .ok _ => none
      | .error e => some (.malformed (n.file root label) e) := by
  rw [warning?, h]

theorem mean?_not_isFile (h : ¬t.isFile (n.file root label)) : n.mean? t root label = none := by
  rw [Tree.isFile_iff] at h
  rw [mean?]
  split
  · rename_i content hfind
    exact absurd ⟨content, hfind⟩ h
  · rfl

theorem warning?_not_isFile (h : ¬t.isFile (n.file root label)) :
    n.warning? t root label = none := by
  rw [Tree.isFile_iff] at h
  rw [warning?]
  split
  · rename_i content hfind
    exact absurd ⟨content, hfind⟩ h
  · rfl

theorem mean?_eq_some_iff {ns : Binary64} :
    n.mean? t root label = some ns ↔ ∃ content, t.find (n.file root label) = .ok (.file content) ∧
      Estimate.measure content = .ok ns := by
  by_cases hfile : t.isFile (n.file root label)
  · obtain ⟨content, h⟩ := Tree.isFile_iff.mp hfile
    rw [mean?_file h]
    cases hm : Estimate.measure content <;> simp [h, hm, Except.toOption]
  · rw [mean?_not_isFile hfile]
    rw [Tree.isFile_iff] at hfile
    simp only [reduceCtorEq, false_iff, not_exists, not_and]
    intro content hfind
    exact absurd ⟨content, hfind⟩ hfile

theorem warning?_eq_some_iff {w : LoadWarning} :
    n.warning? t root label = some w ↔
      ∃ content e, t.find (n.file root label) = .ok (.file content) ∧
        Estimate.measure content = .error e ∧ w = .malformed (n.file root label) e := by
  by_cases hfile : t.isFile (n.file root label)
  · obtain ⟨content, h⟩ := Tree.isFile_iff.mp hfile
    rw [warning?_file h]
    cases hm : Estimate.measure content <;> simp [h, hm, eq_comm]
  · rw [warning?_not_isFile hfile]
    rw [Tree.isFile_iff] at hfile
    simp only [reduceCtorEq, false_iff, not_exists, not_and]
    intro content e hfind
    exact absurd ⟨content, hfind⟩ hfile

theorem mean_or_warning (h : t.isFile (n.file root label)) :
    (∃ v, n.mean? t root label = some v ∧ n.warning? t root label = none) ∨
      ∃ w, n.mean? t root label = none ∧ n.warning? t root label = some w := by
  obtain ⟨content, hfind⟩ := Tree.isFile_iff.mp h
  rw [mean?_file hfind, warning?_file hfind]
  cases Estimate.measure content with
  | ok v => exact .inl ⟨v, rfl, rfl⟩
  | error e => exact .inr ⟨_, rfl, rfl⟩

end CaseName

namespace Tree

variable {t : Tree} {root : Path}

/-- Whether the directory `root` of a tree has a case directory under the given names. -/
def HasCase (t : Tree) (root : Path) (n : CaseName) : Prop :=
  t.HasDirectory root n.group ∧ t.HasDirectory (root.child n.group) n.case

instance (t : Tree) (root : Path) (n : CaseName) : Decidable (t.HasCase root n) :=
  inferInstanceAs (Decidable (_ ∧ _))

theorem HasCase.isDirectory {n : CaseName} (h : t.HasCase root n) : t.isDirectory root := by
  obtain ⟨⟨⟨entries, hfind, -⟩, -⟩, -⟩ := h
  exact isDirectory_iff.mpr ⟨entries, hfind⟩

/-- The case directories in `root`, the names of the directories in each directory being given. -/
def caseNames (directories : Path → List FileName) (root : Path) : List CaseName :=
  (directories root).flatMap fun g => (directories (root.child g)).map (CaseName.mk g)

theorem mem_caseNames {directories : Path → List FileName}
    (h : ∀ p n, n ∈ directories p ↔ t.HasDirectory p n) {n : CaseName} :
    n ∈ caseNames directories root ↔ t.HasCase root n := by
  simp only [caseNames, List.mem_flatMap, List.mem_map, h, HasCase]
  constructor
  · rintro ⟨g, hg, c, hc, rfl⟩
    exact ⟨hg, hc⟩
  · intro h
    exact ⟨n.group, h.1, n.case, h.2, rfl⟩

theorem mem_caseNames_list {n : CaseName} :
    n ∈ caseNames (t.directories t.list) root ↔ t.HasCase root n :=
  mem_caseNames fun _ _ => mem_directories t.lists_list

/-- Whether every group and case directory is named by the encoding of a text. -/
def WellNamed (t : Tree) (root : Path) : Prop :=
  ∀ n, t.HasCase root n → Utf8.WellFormed n.group.bytes ∧ Utf8.WellFormed n.case.bytes

theorem wellNamed_iff_mem_caseNames :
    (∀ n ∈ caseNames (t.directories t.list) root,
      Utf8.WellFormed n.group.bytes ∧ Utf8.WellFormed n.case.bytes) ↔ t.WellNamed root := by
  simp only [mem_caseNames_list, WellNamed]

instance (t : Tree) (root : Path) : Decidable (t.WellNamed root) :=
  decidable_of_iff _ wellNamed_iff_mem_caseNames

/-- Whether no two case directories count for one benchmark. -/
def Distinct (t : Tree) (root : Path) : Prop :=
  ∀ m n, t.HasCase root m → t.HasCase root n → m.benchmark = n.benchmark → m = n

theorem WellNamed.distinct (h : t.WellNamed root) : t.Distinct root := by
  intro m n hm hn hb
  obtain ⟨hmg, hmc⟩ := h m hm
  obtain ⟨hng, hnc⟩ := h n hn
  rw [CaseName.benchmark, CaseName.benchmark, Benchmark.mk.injEq] at hb
  have hgroup := FileName.bytes_injective (hmg.eq_of_lossy_eq hng hb.1)
  have hcase := FileName.bytes_injective (hmc.eq_of_lossy_eq hnc hb.2)
  cases m
  cases n
  subst hgroup hcase
  rfl

/-- The list of all case directories in `root`, in order. -/
structure Cases (t : Tree) (root : Path) (ns : List CaseName) : Prop where
  ordered : ns.Pairwise (· < ·)
  mem_iff : ∀ n, n ∈ ns ↔ t.HasCase root n

/-- Whether the first case directory that counts for a benchmark and has a mean under a label has
the mean `ns`. -/
def FirstMean (t : Tree) (root label : Path) (b : Benchmark) (ns : Binary64) : Prop :=
  ∃ n, t.HasCase root n ∧ n.benchmark = b ∧ n.mean? t root label = some ns ∧
    ∀ m, t.HasCase root m → m.benchmark = b → m < n → m.mean? t root label = none

theorem firstMean_iff_mem_caseNames {label : Path} {b : Benchmark} {ns : Binary64} :
    (∃ n ∈ caseNames (t.directories t.list) root,
      n.benchmark = b ∧ n.mean? t root label = some ns ∧
        ∀ m ∈ caseNames (t.directories t.list) root,
          m.benchmark = b → m < n → m.mean? t root label = none) ↔
    t.FirstMean root label b ns := by
  simp only [mem_caseNames_list, FirstMean]

instance (t : Tree) (root label : Path) (b : Benchmark) (ns : Binary64) :
    Decidable (t.FirstMean root label b ns) :=
  decidable_of_iff _ firstMean_iff_mem_caseNames

/-- In the list of case directories, those before one are the lesser ones. -/
theorem Cases.mem_before {before after : List CaseName} {m n : CaseName}
    (h : t.Cases root (before ++ n :: after)) (hm : t.HasCase root m) : m ∈ before ↔ m < n := by
  obtain ⟨-, hafter, hbefore⟩ := List.pairwise_append.mp h.ordered
  constructor
  · intro hmem
    exact hbefore m hmem n List.mem_cons_self
  · intro hlt
    rcases List.mem_append.mp ((h.mem_iff m).mpr hm) with hmem | hmem
    · exact hmem
    · rcases List.mem_cons.mp hmem with rfl | hmem
      · exact absurd hlt (CaseName.lt_irrefl m)
      · have hgt : n < m := (List.pairwise_cons.mp hafter).1 m hmem
        exact absurd (CaseName.lt_trans hlt hgt) (CaseName.lt_irrefl m)

theorem Cases.nodup {ns : List CaseName} (h : t.Cases root ns) : ns.Nodup :=
  h.ordered.imp ne_of_irrefl

/-! ### Trees of measurements -/

def directoryOf (entries : List (Bytes × Node)) : Node :=
  .directory (entries.filterMap fun e => (FileName.ofBytes? e.1).map fun name => (name, e.2))

/-- The tree that holds nothing but estimates files, their texts given by group, case and label. -/
def ofMeasurements (groups : List (Bytes × List (Bytes × List (String × String)))) : Tree :=
  let label (e : String × String) : Bytes × Node :=
    (Utf8.encode e.1, directoryOf [(Utf8.encode "estimates.json", .file (Utf8.encode e.2))])
  let case (e : Bytes × List (String × String)) : Bytes × Node := (e.1, directoryOf (e.2.map label))
  let group (e : Bytes × List (Bytes × List (String × String))) : Bytes × Node :=
    (e.1, directoryOf (e.2.map case))
  let criterion := directoryOf (groups.map group)
  ⟨directoryOf [(Utf8.encode "target", directoryOf [(Utf8.encode "criterion", criterion)])], []⟩

end Tree

end RegressionGate
