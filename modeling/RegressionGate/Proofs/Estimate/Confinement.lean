import RegressionGate.Proofs.Estimate.Place
import RegressionGate.Proofs.Gate.Verdict

/-! Where the files lie that a load reads. A label is a path from the case directory on. One that
only descends leads to a file in that directory, so each case is measured by a file of its own. Any
other label leads out of the directories of all cases but those of one name. -/

namespace RegressionGate

/-- Where steps lead as seen from where they start: some levels up, and from there down by names. -/
structure Climb where
  levels : Nat
  names : List FileName
deriving DecidableEq, Repr

namespace Climb

def next (c : Climb) : Step → Climb
  | .here => c
  | .up => if c.names = [] then { c with levels := c.levels + 1 } else ⟨c.levels, c.names.dropLast⟩
  | .down name => ⟨c.levels, c.names ++ [name]⟩

def along (c : Climb) (steps : List Step) : Climb := steps.foldl next c

/-- The place that a climb from a place leads to; above the root there is the root. -/
def place (start : Place) (c : Climb) : Place := start.take (start.length - c.levels) ++ c.names

theorem place_next (start : Place) (c : Climb) (step : Step) :
    (c.next step).place start = step.next (c.place start) := by
  cases step with
  | here => rfl
  | down name => simp [next, place, Step.next]
  | up =>
    rw [next, Step.next, place, place]
    split
    · rename_i hnames
      have hlevels : min (start.length - c.levels) start.length - 1 =
          start.length - (c.levels + 1) := by omega
      simp only [hnames, List.append_nil]
      rw [List.dropLast_eq_take, List.take_take, List.length_take, hlevels]
      congr 1
      omega
    · rename_i hnames
      rw [List.dropLast_append_of_ne_nil hnames]

theorem place_along (start : Place) (c : Climb) (steps : List Step) :
    (c.along steps).place start = Step.along (c.place start) steps := by
  induction steps generalizing c with
  | nil => rfl
  | cons step steps ih =>
    rw [Step.along_cons, ← place_next, ← ih]
    rfl

/-- A climb over the last name of its start leads to a place that does not depend on that name. -/
theorem getElem?_place (c : Climb) (front : Place) (group case : FileName) (h : 0 < c.levels) :
    (c.place (front ++ [group, case]))[front.length + 1]? =
      c.names[front.length + 1 - (front.length + 2 - c.levels)]? := by
  have hlength : (front ++ [group, case]).length = front.length + 2 := by simp
  rw [place, hlength, List.getElem?_append_right, List.length_take, hlength]
  · congr 1
    omega
  · rw [List.length_take, hlength]
    omega

end Climb

namespace Path

def climb (p : Path) : Climb := Climb.along ⟨0, []⟩ p.spelled

/-- Whether a path leads to nothing but what is below the directory where it starts. -/
def Descends (p : Path) : Prop := ¬p.IsAbsolute ∧ p.climb.levels = 0

instance (p : Path) : Decidable p.Descends := inferInstanceAs (Decidable (_ ∧ _))

theorem along_spelled (start : Place) (p : Path) :
    Step.along start p.spelled = p.climb.place start := by
  rw [climb, Climb.place_along, Climb.place, Nat.sub_zero, List.take_length, List.append_nil]

end Path

namespace Tree

variable {t : Tree} {root label : Path} {n : CaseName} {place : Place} {content : Bytes}

theorem placeOf_join {base part : Path} (h : ¬part.IsAbsolute) :
    t.placeOf (base.join part) = part.climb.place (t.placeOf base) := by
  have hstart : t.start (base.join part) = t.start base := by
    simp only [start, Path.isAbsolute_join h]
  rw [placeOf, Path.spelled_join h, Step.along_append, Path.along_spelled, hstart, placeOf]

theorem placeOf_join_of_isAbsolute {base part : Path} (h : part.IsAbsolute) :
    t.placeOf (base.join part) = t.placeOf part := by
  rw [Path.join, if_pos h]

theorem placeOf_directory (t : Tree) (root : Path) (n : CaseName) :
    t.placeOf (n.directory root) = t.placeOf root ++ [n.group, n.case] := by
  rw [CaseName.directory_eq_below, placeOf_below]

theorem placeOf_file (t : Tree) (root label : Path) (n : CaseName) :
    t.placeOf (n.file root label) =
      t.placeOf ((n.directory root).join label) ++ [Estimate.estimatesName] := by
  rw [CaseName.file_eq_child]
  exact placeOf_below t _ [Estimate.estimatesName]

/-- Whether the estimates file of a case is read at a place, and what it holds. -/
structure Reads (t : Tree) (root label : Path) (n : CaseName) (place : Place) (content : Bytes) :
    Prop where
  case : t.HasCase root n
  resolve : t.resolve (n.file root label) = .ok place
  content : t.root.at? place = some (.file content)

/-- Whether a place lies in the directory of a case. -/
def Holds (t : Tree) (root : Path) (n : CaseName) (place : Place) : Prop :=
  t.placeOf (n.directory root) <+: place

instance (t : Tree) (root : Path) (n : CaseName) (place : Place) :
    Decidable (t.Holds root n place) :=
  inferInstanceAs (Decidable (_ <+: _))

theorem reads_iff : (∃ place, t.Reads root label n place content) ↔
    t.HasCase root n ∧ t.find (n.file root label) = .ok (.file content) := by
  rw [find_eq_ok_iff_resolve]
  constructor
  · rintro ⟨place, hcase, hresolve, hcontent⟩
    exact ⟨hcase, place, hresolve, hcontent⟩
  · rintro ⟨hcase, place, hresolve, hcontent⟩
    exact ⟨place, hcase, hresolve, hcontent⟩

theorem Reads.place_eq (hlinks : t.root.LinkFree) (h : t.Reads root label n place content) :
    place = t.placeOf (n.file root label) :=
  ((resolve_eq_ok_iff hlinks).mp h.resolve).2.2

/-- A label that descends leads to a file in the case directory. -/
theorem Reads.holds (hlinks : t.root.LinkFree) (hlabel : label.Descends)
    (h : t.Reads root label n place content) : t.Holds root n place := by
  obtain ⟨hrelative, hlevels⟩ := hlabel
  rw [Holds, h.place_eq hlinks, placeOf_file, placeOf_join hrelative, Climb.place, hlevels,
    Nat.sub_zero, List.take_length, List.append_assoc]
  exact List.prefix_append _ _

theorem Holds.getElem? (h : t.Holds root n place) :
    place[(t.placeOf root).length + 1]? = some n.case := by
  obtain ⟨rest, rfl⟩ := h
  rw [placeOf_directory]
  simp

/-- Where a label that does not descend leads is the same for all cases, as far as the name of the
case could tell them apart. -/
theorem exists_getElem?_placeOf (t : Tree) (root : Path) (h : ¬label.Descends) :
    ∃ name, ∀ n : CaseName,
      (t.placeOf (n.file root label))[(t.placeOf root).length + 1]? = name := by
  -- An absolute label leads to one file for all cases, a climbing one past the names of the cases.
  by_cases habsolute : label.IsAbsolute
  · have hplace (n : CaseName) :
        t.placeOf (n.file root label) = t.placeOf label ++ [Estimate.estimatesName] := by
      rw [placeOf_file, placeOf_join_of_isAbsolute habsolute]
    exact ⟨_, fun n => by rw [hplace n]⟩
  · have hlevels : 0 < label.climb.levels := Nat.pos_of_ne_zero fun hzero => h ⟨habsolute, hzero⟩
    let c := label.climb.next (.down Estimate.estimatesName)
    have hplace (n : CaseName) :
        t.placeOf (n.file root label) = c.place (t.placeOf root ++ [n.group, n.case]) := by
      rw [Climb.place_next, placeOf_file, placeOf_join habsolute, placeOf_directory]
      rfl
    exact ⟨_, fun n => by rw [hplace n]; exact c.getElem?_place _ _ _ hlevels⟩

/-- A label that does not descend leads into the directories of cases of one name at most. -/
theorem exists_case_of_holds (hlinks : t.root.LinkFree) (hlabel : ¬label.Descends) :
    ∃ name, ∀ n place content, t.Reads root label n place content → t.Holds root n place →
      n.case = name := by
  obtain ⟨name, hname⟩ := exists_getElem?_placeOf t root hlabel
  refine ⟨name.getD Estimate.estimatesName, fun n place content h hholds => ?_⟩
  have hcase := hholds.getElem?
  rw [h.place_eq hlinks, hname n] at hcase
  rw [hcase, Option.getD_some]

end Tree

namespace Estimate

variable {t : Tree} {listing : Tree.Listing}

/-- Whatever a load has comes from files that are read for cases: each mean is that of a file read
for a case of its benchmark, and each warning is about such a file, unless there is no directory to
load. In a tree without links these files lie in the directories of their cases if the label
descends; if it does not, they can do so only for cases of one name. -/
theorem load_confined (hlinks : t.root.LinkFree) (hl : t.Lists listing) (root label : Path) :
    (∀ b v, (load t listing root label).estimates.get? b = some v →
      ∃ n place content, n.benchmark = b ∧ t.Reads root label n place content ∧
        measure content = .ok v) ∧
    (∀ w ∈ (load t listing root label).warnings,
      (¬t.isDirectory root ∧ w.path = root) ∨
        ∃ n place content e, w = .malformed (n.file root label) e ∧
          t.Reads root label n place content ∧ measure content = .error e) ∧
    (label.Descends → ∀ n place content, t.Reads root label n place content →
      t.Holds root n place) ∧
    (¬label.Descends → ∃ name, ∀ n place content, t.Reads root label n place content →
      t.Holds root n place → n.case = name) := by
  refine ⟨fun b v hv => ?_, fun w hw => ?_, fun hlabel n place content h => h.holds hlinks hlabel,
    fun hlabel => Tree.exists_case_of_holds hlinks hlabel⟩
  · obtain ⟨n, hn, hb, hmean, -⟩ := (get?_load hl).mp hv
    obtain ⟨content, hfind, hmeasure⟩ := CaseName.mean?_eq_some_iff.mp hmean
    obtain ⟨place, hreads⟩ := Tree.reads_iff.mpr ⟨hn, hfind⟩
    exact ⟨n, place, content, hb, hreads, hmeasure⟩
  · by_cases hroot : t.isDirectory root
    · rw [load_directory hl hroot] at hw
      obtain ⟨n, hn, hwarning⟩ := List.mem_filterMap.mp hw
      obtain ⟨content, e, hfind, hmeasure, rfl⟩ := CaseName.warning?_eq_some_iff.mp hwarning
      have hcase := ((cases_caseNames hl root).mem_iff n).mp hn
      obtain ⟨place, hreads⟩ := Tree.reads_iff.mpr ⟨hcase, hfind⟩
      exact .inr ⟨n, place, content, e, rfl, hreads, hmeasure⟩
    · obtain ⟨e, he⟩ := Tree.list_error hroot
      rw [load_error (hl.error he)] at hw
      exact .inl ⟨hroot, congrArg LoadWarning.path (List.mem_singleton.mp hw)⟩

/-- With the directory of one case in the label, two cases are measured by the files there, which
cannot both be files of their own. -/
theorem load_confined_doubled :
    let s : Settings := { baseline := "../b/main" }
    s.check = .ok () ∧
      ∃ m n place place' content content', m.benchmark = ⟨"g", "a"⟩ ∧ n.benchmark = ⟨"g", "b"⟩ ∧
        doubled.Reads s.root s.baselineLabel m place content ∧ measure content = .ok 1 ∧
        doubled.Reads s.root s.baselineLabel n place' content' ∧ measure content' = .ok 1 ∧
        ¬(doubled.Holds s.root m place ∧ doubled.Holds s.root n place') := by
  intro s
  obtain ⟨hmeans, -, -, hone⟩ := load_confined (Tree.linkFree_ofMeasurements _) doubled.lists_list
    s.root s.baselineLabel
  obtain ⟨name, hname⟩ := hone (by decide +kernel)
  have hmean (b : Benchmark) (h : doubled.FirstMean s.root s.baselineLabel b 1) :=
    hmeans b 1 ((get?_load doubled.lists_list).mpr h)
  obtain ⟨m, place, content, hm, hreads, hmeasure⟩ := hmean ⟨"g", "a"⟩ (by decide +kernel)
  obtain ⟨n, place', content', hn, hreads', hmeasure'⟩ := hmean ⟨"g", "b"⟩ (by decide +kernel)
  refine ⟨by decide +kernel, m, n, place, place', content, content', hm, hn, hreads, hmeasure,
    hreads', hmeasure', fun ⟨hheld, hheld'⟩ => ?_⟩
  have hcase : m.case = n.case :=
    (hname m place content hreads hheld).trans (hname n place' content' hreads' hheld').symm
  have hshown : m.benchmark.case = n.benchmark.case := congrArg FileName.shown hcase
  rw [hm, hn] at hshown
  exact absurd hshown (by decide)

/-- Settings that pass the check can have a case measured by no file in its own directory. -/
theorem not_confined_doubled :
    ¬∀ (t : Tree) (s : Settings), s.check = .ok () → t.root.LinkFree → ∀ b v,
      (loadEstimates t s.root s.baselineLabel).estimates.get? b = some v →
        ∃ n place content, n.benchmark = b ∧ t.Reads s.root s.baselineLabel n place content ∧
          measure content = .ok v ∧ t.Holds s.root n place := by
  intro hconfined
  let s : Settings := { baseline := "../b/main" }
  let n : CaseName :=
    ⟨⟨Utf8.encode "g", by decide +kernel⟩, ⟨Utf8.encode "a", by decide +kernel⟩⟩
  have hlinks : doubled.root.LinkFree := Tree.linkFree_ofMeasurements _
  have hmean : (loadEstimates doubled s.root s.baselineLabel).estimates.get? ⟨"g", "a"⟩ = some 1 :=
    (get?_load doubled.lists_list).mpr (by decide +kernel)
  obtain ⟨m, place, content, hm, hreads, -, hholds⟩ :=
    hconfined doubled s (by decide +kernel) hlinks _ _ hmean
  have hwell : doubled.WellNamed s.root := by decide +kernel
  have hbenchmark : m.benchmark = n.benchmark := hm.trans (by decide +kernel)
  obtain rfl : m = n := hwell.distinct m n hreads.case (by decide +kernel) hbenchmark
  rw [hreads.place_eq hlinks] at hholds
  exact absurd hholds (by decide +kernel)

end Estimate

end RegressionGate
