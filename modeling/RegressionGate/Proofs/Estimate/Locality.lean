import Mathlib.Data.List.Sort
import RegressionGate.Proofs.Estimate.Contents
import RegressionGate.Proofs.Estimate.Place
import RegressionGate.Proofs.Tree.Edit

/-! What a load depends on. In a tree without links, and under a label that is a plain name, a load
depends on the estimates files of that label alone: edits beside them leave it as it is, and another
content of one of them makes a difference to its own benchmark and its own warning only. -/

namespace RegressionGate

namespace CaseName

instance : Std.Antisymm (α := CaseName) (· < ·) :=
  ⟨fun m _ hmn hnm => absurd (lt_trans hmn hnm) (lt_irrefl m)⟩

/-- What cases in order contribute depends on those alone that contribute something. -/
theorem filterMap_eq_of_ordered {α : Type} {f : CaseName → Option α} {ms ns : List CaseName}
    (hms : ms.Pairwise (· < ·)) (hns : ns.Pairwise (· < ·))
    (h : ∀ n, (f n).isSome → (n ∈ ms ↔ n ∈ ns)) : ms.filterMap f = ns.filterMap f := by
  have hfilter (l : List CaseName) :
      (l.filter fun n => (f n).isSome).filterMap f = l.filterMap f := by
    rw [List.filterMap_filter]
    refine List.filterMap_congr fun n _ => ?_
    cases f n <;> rfl
  rw [← hfilter ms, ← hfilter ns]
  congr 1
  refine (hms.filter _).eq_of_mem_iff (hns.filter _) fun n => ?_
  rw [List.mem_filter, List.mem_filter]
  exact and_congr_left (h n)

theorem path_of_warning? {t : Tree} {root label : Path} {n : CaseName} {w : LoadWarning}
    (h : n.warning? t root label = some w) : w.path = n.file root label := by
  obtain ⟨content, e, -, -, rfl⟩ := warning?_eq_some_iff.mp h
  rfl

/-- What cases contribute, split at one of them. -/
theorem exists_filterMap_eq {ns : List CaseName} (h : ns.Nodup) (n : CaseName) :
    ∃ before after : List CaseName, (∀ m ∈ before ++ after, m ≠ n) ∧
      ∀ {α : Type} (f : CaseName → Option α), (n ∉ ns → f n = none) →
        ns.filterMap f = before.filterMap f ++ (f n).toList ++ after.filterMap f := by
  by_cases hn : n ∈ ns
  · obtain ⟨before, after, rfl⟩ := List.append_of_mem hn
    refine ⟨before, after, fun m hm => ?_, fun f _ => ?_⟩
    · rintro rfl
      have hperm : (before ++ m :: after).Perm (m :: (before ++ after)) := List.perm_middle
      exact (List.nodup_cons.mp (hperm.nodup_iff.mp h)).1 hm
    · rw [List.filterMap_append, List.filterMap_cons, List.append_assoc]
      cases f n <;> rfl
  · refine ⟨ns, [], fun m hm => ?_, fun f hf => ?_⟩
    · rintro rfl
      rw [List.append_nil] at hm
      exact hn hm
    · rw [hf hn]
      simp

end CaseName

/-- Two sets that agree on all benchmarks but one have the same other entries in the same order. -/
theorem EstimateSet.filter_entries_congr {s s' : EstimateSet} {b : Benchmark}
    (h : ∀ c, c ≠ b → s'.get? c = s.get? c) :
    (s'.entries.filter fun e => decide (e.1 ≠ b)) = s.entries.filter fun e => decide (e.1 ≠ b) := by
  let precedes (a b : Benchmark × Binary64) : Prop := a.1 < b.1
  have : Std.Irrefl precedes := ⟨fun a => Benchmark.lt_irrefl a.1⟩
  have : Std.Antisymm precedes :=
    ⟨fun a _ hab hba => absurd (Benchmark.lt_trans hab hba) (Benchmark.lt_irrefl a.1)⟩
  refine (s'.ordered.filter _).eq_of_mem_iff (r := precedes) (s.ordered.filter _) fun e => ?_
  simp only [List.mem_filter, mem_entries_iff, decide_eq_true_eq]
  refine and_congr_left fun he => ?_
  rw [h e.1 he]

namespace Tree

variable {t t' : Tree} {listing listing' : Listing} {root : Path} {label : FileName} {n : CaseName}

/-- A tree without links that has a directory at `root`. -/
structure Plain (t : Tree) (root : Path) : Prop where
  linkFree : t.root.LinkFree
  isDirectory : t.isDirectory root

/-- The content of the estimates file of a case, if there is such a file. -/
def estimates? (t : Tree) (root : Path) (label : FileName) (n : CaseName) : Option Bytes :=
  t.root.content? (t.placeOf root ++ n.below label)

theorem find_file (h : t.Plain root) {content : Bytes} :
    t.find (n.file root label.path) = .ok (.file content) ↔
      (n.file root label.path).IsProper ∧
        (∀ name ∈ n.below label, name.bytes.length ≤ maxNameLength) ∧
          t.estimates? root label n = some content := by
  rw [estimates?, Node.content?_eq_some_iff, CaseName.file_eq_below]
  exact find_below h.linkFree h.isDirectory (List.cons_ne_nil n.group _)

/-- An estimates file lies in a case directory. -/
theorem hasCase_of_isFile (h : t.Plain root) (hfile : t.isFile (n.file root label.path)) :
    t.HasCase root n := by
  obtain ⟨content, hfind⟩ := isFile_iff.mp hfile
  rw [CaseName.file_eq_below, CaseName.below] at hfind
  have hgroup := hasDirectory_of_find_below h.linkFree h.isDirectory hfind (List.cons_ne_nil _ _)
  exact ⟨hgroup,
    hasDirectory_of_find_below h.linkFree hgroup.2 hfind (List.cons_ne_nil label _)⟩

/-! ### Two trees -/

section Two

variable (h : t.Plain root) (h' : t'.Plain root)
include h h'

theorem find_file_congr (hn : t'.estimates? root label n = t.estimates? root label n)
    {content : Bytes} :
    t'.find (n.file root label.path) = .ok (.file content) ↔
      t.find (n.file root label.path) = .ok (.file content) := by
  rw [find_file h, find_file h', hn]

theorem mean?_congr (hn : t'.estimates? root label n = t.estimates? root label n) :
    n.mean? t' root label.path = n.mean? t root label.path := by
  ext v
  simp only [CaseName.mean?_eq_some_iff, find_file_congr h h' hn]

theorem warning?_congr (hn : t'.estimates? root label n = t.estimates? root label n) :
    n.warning? t' root label.path = n.warning? t root label.path := by
  ext w
  simp only [CaseName.warning?_eq_some_iff, find_file_congr h h' hn]

/-- Where the second tree has an estimates file, the first has one too. -/
theorem isFile_of_isSome
    (hn : (t'.estimates? root label n).isSome → (t.estimates? root label n).isSome)
    (hfile : t'.isFile (n.file root label.path)) : t.isFile (n.file root label.path) := by
  obtain ⟨content, hfind⟩ := isFile_iff.mp hfile
  obtain ⟨hproper, hshort, hcontent⟩ := (find_file h').mp hfind
  obtain ⟨old, hold⟩ := Option.isSome_iff_exists.mp (hn (by rw [hcontent, Option.isSome_some]))
  exact isFile_iff.mpr ⟨old, (find_file h).mpr ⟨hproper, hshort, hold⟩⟩

end Two

/-! ### Edits beside the estimates files -/

/-- Whether an edit finds no estimates file of a label at its place or below, and leaves none. -/
def Aside (t : Tree) (root : Path) (label : FileName) (e : Edit) : Prop :=
  ∀ n, e.place <+: t.placeOf root ++ CaseName.below label n →
    t.estimates? root label n = none ∧ (t.edit e).estimates? root label n = none

/-- What a tree can become by edits beside the estimates files of a label, one after the other. -/
inductive EditedAside (t : Tree) (root : Path) (label : FileName) : Tree → Prop
  | unedited : EditedAside t root label t
  | edit {t' : Tree} (before : EditedAside t root label t') (e : Edit)
      (aside : t'.Aside root label e) : EditedAside t root label (t'.edit e)

theorem estimates?_edit {e : Edit} (h : t.Aside root label e) :
    (t.edit e).estimates? root label n = t.estimates? root label n := by
  by_cases hplace : e.place <+: t.placeOf root ++ n.below label
  · obtain ⟨hold, hnew⟩ := h n hplace
    rw [hold, hnew]
  · rw [estimates?, placeOf_congr (workingDirectory_edit t e), content?_edit hplace, estimates?]

theorem EditedAside.estimates?_eq (h : t.EditedAside root label t') :
    t'.estimates? root label n = t.estimates? root label n := by
  induction h with
  | unedited => rfl
  | edit before e aside ih => rw [estimates?_edit aside, ih]

/-! ### An estimates file written anew -/

/-- The tree in which the estimates file of a case has another content. -/
def rewritten (t : Tree) (root : Path) (label : FileName) (n : CaseName) (new : Bytes) : Tree :=
  t.edit (.put (t.placeOf root ++ n.below label) (.file new))

theorem estimates?_rewritten {old : Bytes} (h : t.estimates? root label n = some old) (new : Bytes)
    (m : CaseName) :
    (t.rewritten root label n new).estimates? root label m =
      if m = n then some new else t.estimates? root label m := by
  have hplace : t.placeOf root ++ m.below label = t.placeOf root ++ n.below label ↔ m = n := by
    rw [List.append_cancel_left_eq]
    cases m
    cases n
    simp [CaseName.below]
  rw [estimates?, rewritten, placeOf_congr (workingDirectory_edit t _), edit,
    Node.content?_put_file (Node.content?_eq_some_iff.mp h), ← estimates?]
  simp only [hplace]

theorem Plain.rewritten (h : t.Plain root) {old : Bytes}
    (hn : t.estimates? root label n = some old) (new : Bytes) :
    (t.rewritten root label n new).Plain root where
  linkFree := h.linkFree.put Node.linkFree_file _
  isDirectory := (isDirectory_put_file h.linkFree (Node.content?_eq_some_iff.mp hn) new).mpr
    h.isDirectory

end Tree

/-- Whether two loads agree but for the entry of one benchmark and the warning about one file. -/
structure LoadedEstimates.AgreeBut (found found' : LoadedEstimates) (b : Benchmark) (file : Path) :
    Prop where
  estimates : (found'.estimates.entries.filter fun e => decide (e.1 ≠ b)) =
    found.estimates.entries.filter fun e => decide (e.1 ≠ b)
  warnings : ∃ before after, ∃ w w' : Option LoadWarning,
    found.warnings = before ++ w.toList ++ after ∧ found'.warnings = before ++ w'.toList ++ after ∧
      (∀ v ∈ before ++ after, v.path ≠ file) ∧ ∀ v ∈ w.toList ++ w'.toList, v.path = file

namespace Estimate

variable {t t' : Tree} {listing listing' : Tree.Listing} {root : Path} {label : FileName}
  {ns : List CaseName} {n : CaseName}

/-- A load goes through every case that has an estimates file. -/
theorem mem_caseNames_of_isFile (h : t.Plain root) (hl : t.Lists listing)
    (hfile : t.isFile (n.file root label.path)) : n ∈ caseNames t listing root :=
  ((cases_caseNames hl root).mem_iff n).mpr (Tree.hasCase_of_isFile h hfile)

/-- It does not matter which cases a load goes through in order, as long as no estimates file is
left out. -/
theorem load_ordered (h : t.Plain root) (hl : t.Lists listing) (hns : ns.Pairwise (· < ·))
    (hfiles : ∀ n, t.isFile (n.file root label.path) → n ∈ ns) :
    load t listing root label.path =
      ⟨.ofFirsts (ns.filterMap (estimate? t root label.path)),
        ns.filterMap (CaseName.warning? t root label.path)⟩ := by
  have hordered := (cases_caseNames hl root).ordered
  have hfilterMap {α : Type} {f : CaseName → Option α}
      (hf : ∀ n, ¬t.isFile (n.file root label.path) → f n = none) :
      (caseNames t listing root).filterMap f = ns.filterMap f := by
    refine CaseName.filterMap_eq_of_ordered hordered hns fun n hn => ?_
    have hfile : t.isFile (n.file root label.path) := by
      by_contra hfile
      rw [hf n hfile] at hn
      contradiction
    exact iff_of_true (mem_caseNames_of_isFile h hl hfile) (hfiles n hfile)
  have hestimate (n : CaseName) (hfile : ¬t.isFile (n.file root label.path)) :
      estimate? t root label.path n = none := by
    rw [estimate?, CaseName.mean?_not_isFile hfile, Option.map_none]
  rw [load_directory hl h.isDirectory, hfilterMap hestimate,
    hfilterMap fun n => CaseName.warning?_not_isFile]

section Two

variable (h : t.Plain root) (h' : t'.Plain root) (hl : t.Lists listing) (hl' : t'.Lists listing')
include h h' hl hl'

/-- A tree without further estimates files is loaded by the cases of the other. -/
theorem load_caseNames
    (hless : ∀ n, (t'.estimates? root label n).isSome → (t.estimates? root label n).isSome) :
    load t' listing' root label.path =
      ⟨.ofFirsts ((caseNames t listing root).filterMap (estimate? t' root label.path)),
        (caseNames t listing root).filterMap (CaseName.warning? t' root label.path)⟩ :=
  load_ordered h' hl' (cases_caseNames hl root).ordered fun n hfile =>
    mem_caseNames_of_isFile h hl (Tree.isFile_of_isSome h h' (hless n) hfile)

/-- Where the estimates files are the same, the loads are. -/
theorem load_congr (hn : ∀ n, t'.estimates? root label n = t.estimates? root label n) :
    load t' listing' root label.path = load t listing root label.path := by
  have hestimate (n : CaseName) :
      estimate? t' root label.path n = estimate? t root label.path n := by
    rw [estimate?, estimate?, Tree.mean?_congr h h' (hn n)]
  have hwarning (n : CaseName) :
      n.warning? t' root label.path = n.warning? t root label.path :=
    Tree.warning?_congr h h' (hn n)
  rw [load_caseNames h h' hl hl' fun n => by rw [hn n]; exact id, load_directory hl h.isDirectory,
    funext hestimate, funext hwarning]

variable (hless : ∀ m, (t'.estimates? root label m).isSome → (t.estimates? root label m).isSome)
  (hn : ∀ m, m ≠ n → t'.estimates? root label m = t.estimates? root label m)
include hless hn

/-- One estimates file has a say in the mean of its own benchmark only. -/
theorem get?_load_congr {b : Benchmark} (hb : b ≠ n.benchmark) :
    (load t' listing' root label.path).estimates.get? b =
      (load t listing root label.path).estimates.get? b := by
  have hsays (m : CaseName) : says? t' root label.path b m = says? t root label.path b m := by
    by_cases hm : m = n
    · rw [says?, says?, hm, if_neg (Ne.symm hb), if_neg (Ne.symm hb)]
    · rw [says?, says?, Tree.mean?_congr h h' (hn m hm)]
  rw [load_caseNames h h' hl hl' hless, load_directory hl h.isDirectory, EstimateSet.get?_ofFirsts,
    EstimateSet.get?_ofFirsts, lookup_entries, lookup_entries, funext hsays]

/-- One estimates file has a say in the warning about itself only. -/
theorem exists_warnings_load : ∃ before after,
    (load t listing root label.path).warnings =
        before ++ (n.warning? t root label.path).toList ++ after ∧
      (load t' listing' root label.path).warnings =
        before ++ (n.warning? t' root label.path).toList ++ after ∧
      ∀ w ∈ before ++ after, w.path ≠ n.file root label.path := by
  obtain ⟨before, after, hother, hsplit⟩ :=
    CaseName.exists_filterMap_eq (cases_caseNames hl root).nodup n
  have hnone (hmem : n ∉ caseNames t listing root) : ¬t.isFile (n.file root label.path) :=
    mt (mem_caseNames_of_isFile h hl) hmem
  have hsame (ms : List CaseName) (hms : ∀ m ∈ ms, m ≠ n) :
      ms.filterMap (CaseName.warning? t' root label.path) =
        ms.filterMap (CaseName.warning? t root label.path) :=
    List.filterMap_congr fun m hm => Tree.warning?_congr h h' (hn m (hms m hm))
  refine ⟨before.filterMap (CaseName.warning? t root label.path),
    after.filterMap (CaseName.warning? t root label.path), ?_, ?_, fun w hw => ?_⟩
  · rw [load_directory hl h.isDirectory]
    exact hsplit _ fun hmem => CaseName.warning?_not_isFile (hnone hmem)
  · rw [load_caseNames h h' hl hl' hless, ← hsame before fun m hm => hother m (by simp [hm]),
      ← hsame after fun m hm => hother m (by simp [hm])]
    exact hsplit _ fun hmem =>
      CaseName.warning?_not_isFile (mt (Tree.isFile_of_isSome h h' (hless n)) (hnone hmem))
  · rw [← List.filterMap_append] at hw
    obtain ⟨m, hm, hwarning⟩ := List.mem_filterMap.mp hw
    rw [CaseName.path_of_warning? hwarning]
    exact fun hfile => hother m hm (CaseName.file_injective hfile)

/-- Where the estimates files are the same but for one, the loads agree but for its benchmark and
the warning about it. -/
theorem load_agreeBut :
    (load t listing root label.path).AgreeBut (load t' listing' root label.path) n.benchmark
      (n.file root label.path) where
  estimates := EstimateSet.filter_entries_congr fun _ hb => get?_load_congr h h' hl hl' hless hn hb
  warnings := by
    obtain ⟨before, after, hwarnings, hwarnings', hother⟩ :=
      exists_warnings_load h h' hl hl' hless hn
    refine ⟨before, after, _, _, hwarnings, hwarnings', hother, fun w hw => ?_⟩
    rw [List.mem_append, Option.mem_toList, Option.mem_toList] at hw
    exact hw.elim CaseName.path_of_warning? CaseName.path_of_warning?

end Two

/-- A load is local: in a tree without links it stays as it is under any edits beside the estimates
files of its label, and where one of these files is written anew it stays as it is but for the entry
of the file's benchmark and the warning about the file. -/
theorem load_local (h : t.Plain root) (hl : t.Lists listing) (label : FileName) :
    (∀ t' listing', t.EditedAside root label t' → t'.Plain root → t'.Lists listing' →
      load t' listing' root label.path = load t listing root label.path) ∧
    ∀ n old new listing', t.estimates? root label n = some old →
      (t.rewritten root label n new).Lists listing' →
      (load t listing root label.path).AgreeBut
        (load (t.rewritten root label n new) listing' root label.path) n.benchmark
        (n.file root label.path) := by
  refine ⟨fun t' listing' hedited h' hl' => ?_, fun n old new listing' hold hl' => ?_⟩
  · exact load_congr h h' hl hl' fun n => hedited.estimates?_eq
  · refine load_agreeBut h (h.rewritten hold new) hl hl' (fun m hm => ?_) fun m hm => ?_
    · rw [Tree.estimates?_rewritten hold] at hm
      split at hm
      · rename_i hmn
        rw [hmn, hold, Option.isSome_some]
      · exact hm
    · rw [Tree.estimates?_rewritten hold, if_neg hm]

/-- A file is put beside an estimates file, and the estimates file that is refused is written
anew. -/
theorem load_local_acceptedAndRefused :
    let main : FileName := ⟨Utf8.encode "main", by decide +kernel⟩
    let found := load acceptedAndRefused acceptedAndRefused.list criterion main.path
    ∃ e n new, acceptedAndRefused.Aside criterion main e ∧
      load (acceptedAndRefused.edit e) (acceptedAndRefused.edit e).list criterion main.path =
        found ∧
      (acceptedAndRefused.estimates? criterion main n).isSome ∧
      found.AgreeBut (load (acceptedAndRefused.rewritten criterion main n new)
        (acceptedAndRefused.rewritten criterion main n new).list criterion main.path) ⟨"g", "b"⟩
        (.ofString "target/criterion/g/b/main/estimates.json") := by
  intro main found
  let group : FileName := ⟨Utf8.encode "g", by decide +kernel⟩
  let refused : CaseName := ⟨group, ⟨Utf8.encode "b", by decide +kernel⟩⟩
  let sample : FileName := ⟨Utf8.encode "sample.json", by decide +kernel⟩
  let place := acceptedAndRefused.placeOf criterion ++ [group, refused.case, main, sample]
  have h : acceptedAndRefused.Plain criterion := ⟨Tree.linkFree_ofMeasurements _, by decide +kernel⟩
  obtain ⟨hedits, hrewrites⟩ := load_local h acceptedAndRefused.lists_list main
  have haside : acceptedAndRefused.Aside criterion main (.put place (.file [])) := by
    intro n hplace
    have hnames : group = n.group ∧ refused.case = n.case ∧ sample = estimatesName := by
      simpa [CaseName.below] using ((List.prefix_append_right_inj _).mp hplace).eq_of_length rfl
    exact absurd hnames.2.2 (by decide +kernel)
  have h' : (acceptedAndRefused.edit (.put place (.file []))).Plain criterion :=
    ⟨h.linkFree.put Node.linkFree_file _, by decide +kernel⟩
  have hold : acceptedAndRefused.estimates? criterion main refused = some (Utf8.encode "[]") := by
    decide +kernel
  refine ⟨.put place (.file []), refused, Utf8.encode "[[7]]", haside,
    hedits _ _ (.edit .unedited _ haside) h' (Tree.lists_list _), by rw [hold, Option.isSome_some],
    ?_⟩
  exact hrewrites refused _ (Utf8.encode "[[7]]") _ hold (Tree.lists_list _)

end Estimate

end RegressionGate
