import RegressionGate.Proofs.Tree.Path
import RegressionGate.Tree.Basic

/-! The directories in a directory of a tree. They are listed in any order; ordered by their names
there is only one list of them. -/

namespace RegressionGate

namespace FileName

theorem bytes_injective {a b : FileName} (h : a.bytes = b.bytes) : a = b := by
  cases a
  cases b
  cases h
  rfl

instance : LT FileName := ⟨fun a b => a.bytes < b.bytes⟩

instance (a b : FileName) : Decidable (a < b) := inferInstanceAs (Decidable (a.bytes < b.bytes))

theorem lt_def {a b : FileName} : a < b ↔ a.bytes < b.bytes := Iff.rfl

theorem lt_irrefl (a : FileName) : ¬a < a := List.lt_irrefl a.bytes

theorem lt_trans {a b c : FileName} (hab : a < b) (hbc : b < c) : a < c := by
  rw [lt_def] at *
  exact List.lt_trans hab hbc

theorem lt_of_le_of_ne {a b : FileName} (h : a.bytes ≤ b.bytes) (hne : a ≠ b) : a < b :=
  (List.le_iff_lt_or_eq.mp h).resolve_right fun hbytes => hne (bytes_injective hbytes)

/-- Names in byte order, which is theirs. -/
def sort (names : List FileName) : List FileName :=
  names.mergeSort fun a b => decide (a.bytes ≤ b.bytes)

@[simp] theorem mem_sort {names : List FileName} {n : FileName} : n ∈ sort names ↔ n ∈ names :=
  List.mem_mergeSort

theorem sort_ordered {names : List FileName} (h : names.Nodup) :
    (sort names).Pairwise (· < ·) := by
  have hle : (sort names).Pairwise fun a b => decide (a.bytes ≤ b.bytes) = true := by
    refine List.pairwise_mergeSort (fun a b c hab hbc => ?_) (fun a b => ?_) names
    · simp only [decide_eq_true_eq] at *
      exact List.le_trans hab hbc
    · simp only [Bool.or_eq_true, decide_eq_true_eq]
      exact List.le_total _ _
  have hne : (sort names).Nodup := (List.mergeSort_perm _ _).nodup_iff.mpr h
  exact hle.imp₂ (fun a b hab hne => lt_of_le_of_ne (of_decide_eq_true hab) hne) hne

end FileName

/-- The names in a directory are told apart, also where two entries have one name. -/
theorem Node.nodup_names (entries : List (FileName × Node)) :
    (Node.directory entries).names.Nodup := by
  -- The recursion is on a filtered tail, so the induction is on a bound of the length.
  have h (k : Nat) : ∀ names : List FileName, names.length ≤ k → names.eraseDups.Nodup := by
    induction k with
    | zero => intro names hlen; simp [List.eq_nil_of_length_eq_zero (Nat.le_zero.mp hlen)]
    | succ k ih =>
      intro names hlen
      cases names with
      | nil => simp
      | cons name names =>
        have hshort : (names.filter fun other => !other == name).length ≤ k :=
          Nat.le_trans (List.length_filter_le _ _) (Nat.le_of_succ_le_succ hlen)
        rw [List.eraseDups_cons, List.nodup_cons]
        exact ⟨by simp, ih _ hshort⟩
  exact h _ _ (Nat.le_refl _)

theorem Node.mem_names {entries : List (FileName × Node)} {name : FileName} :
    name ∈ (Node.directory entries).names ↔ name ∈ entries.map Prod.fst := List.mem_eraseDups

namespace Tree

variable {t : Tree} {p : Path}

theorem isDirectory_iff : t.isDirectory p ↔ ∃ entries, t.find p = .ok (.directory entries) := by
  rw [isDirectory]
  split
  · rename_i entries h
    simp [h]
  · rename_i h
    simp only [Bool.false_eq_true, false_iff]
    rintro ⟨entries, hfind⟩
    exact h entries hfind

theorem isFile_iff : t.isFile p ↔ ∃ content, t.find p = .ok (.file content) := by
  rw [isFile]
  split
  · rename_i content h
    simp [h]
  · rename_i h
    simp only [Bool.false_eq_true, false_iff]
    rintro ⟨content, hfind⟩
    exact h content hfind

theorem list_directory {entries : List (FileName × Node)}
    (h : t.find p = .ok (.directory entries)) : t.list p = .ok (Node.directory entries).names := by
  rw [list, h]
  rfl

theorem list_error (h : ¬t.isDirectory p) : ∃ e, t.list p = .error e := by
  rw [isDirectory_iff] at h
  cases hfind : t.find p with
  | error e => exact ⟨e, by rw [list, hfind]; rfl⟩
  | ok node =>
    refine ⟨.notDirectory, ?_⟩
    rw [list, hfind]
    cases node with
    | file content => rfl
    | link target => rfl
    | directory entries => exact absurd ⟨entries, hfind⟩ h

theorem isDirectory_of_list {names : List FileName} (h : t.list p = .ok names) :
    t.isDirectory p := by
  apply Decidable.byContradiction
  intro hp
  obtain ⟨e, he⟩ := list_error hp
  rw [he] at h
  contradiction

theorem read_file {content : Bytes} (h : t.find p = .ok (.file content)) :
    t.read p = .ok content := by
  rw [read, h]
  rfl

/-- A listing of the directories of a tree, the names in each in any order. -/
structure Lists (t : Tree) (listing : Listing) : Prop where
  names : ∀ {p names}, t.list p = .ok names → ∃ listed, listing p = .ok listed ∧ listed.Perm names
  error : ∀ {p e}, t.list p = .error e → listing p = .error e

theorem lists_reverse (t : Tree) : t.Lists fun p => (t.list p).map List.reverse where
  names h := ⟨_, by rw [h]; rfl, List.reverse_perm _⟩
  error h := by rw [h]; rfl

theorem Lists.nodup {listing : Listing} (hl : t.Lists listing) {listed : List FileName}
    (h : listing p = .ok listed) : listed.Nodup := by
  cases hlist : t.list p with
  | error e =>
    rw [hl.error hlist] at h
    contradiction
  | ok names =>
    obtain ⟨listed', hlisted, hperm⟩ := hl.names hlist
    obtain rfl : listed' = listed := Except.ok.inj (hlisted.symm.trans h)
    rw [hperm.nodup_iff]
    obtain ⟨entries, hfind⟩ := isDirectory_iff.mp (isDirectory_of_list hlist)
    rw [list_directory hfind] at hlist
    exact Except.ok.inj hlist ▸ Node.nodup_names entries

theorem lists_list (t : Tree) : t.Lists t.list where
  names h := ⟨_, h, .refl _⟩
  error h := h

/-- Whether the directory at a path holds, under a name, a directory or a link that leads to one. -/
def HasDirectory (t : Tree) (p : Path) (name : FileName) : Prop :=
  (∃ entries, t.find p = .ok (.directory entries) ∧ name ∈ entries.map Prod.fst) ∧
    t.isDirectory (p.child name)

/-- The names of the directories in the directory at a path, in the order of a listing. -/
def directories (t : Tree) (listing : Listing) (p : Path) : List FileName :=
  match listing p with
  | .ok names => names.filter fun n => t.isDirectory (p.child n)
  | .error _ => []

theorem mem_directories {listing : Listing} (hl : t.Lists listing) {n : FileName} :
    n ∈ t.directories listing p ↔ t.HasDirectory p n := by
  rw [directories, HasDirectory]
  by_cases hp : t.isDirectory p
  · obtain ⟨entries, hfind⟩ := isDirectory_iff.mp hp
    obtain ⟨listed, hlisted, hperm⟩ := hl.names (list_directory hfind)
    simp [hlisted, hperm.mem_iff, Node.mem_names, hfind]
  · obtain ⟨e, he⟩ := list_error hp
    rw [isDirectory_iff] at hp
    simp only [hl.error he, List.not_mem_nil, false_iff, not_and]
    rintro ⟨entries, hfind, -⟩
    exact absurd ⟨entries, hfind⟩ hp

theorem nodup_directories {listing : Listing} (hl : t.Lists listing) (p : Path) :
    (t.directories listing p).Nodup := by
  rw [directories]
  split
  · rename_i listed hlisted
    exact (hl.nodup hlisted).filter _
  · exact .nil

instance (t : Tree) (p : Path) (n : FileName) : Decidable (t.HasDirectory p n) :=
  decidable_of_iff _ (mem_directories t.lists_list)

end Tree

end RegressionGate
