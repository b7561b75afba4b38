import RegressionGate.Proofs.Tree.Directory

/-! Trees without links. A path leads there where its steps spell out, through directories only, so
whether and where it leads can be told from the nodes at the places on its way. -/

namespace RegressionGate

namespace Step

/-- Where a step leads from a place, no link being followed. -/
def next (place : Place) : Step → Place
  | here => place
  | up => place.dropLast
  | down name => place ++ [name]

/-- Where steps lead from a place, no link being followed. -/
def along (place : Place) (steps : List Step) : Place := steps.foldl next place

theorem along_cons (place : Place) (step : Step) (steps : List Step) :
    along place (step :: steps) = along (step.next place) steps := rfl

theorem along_append (place : Place) (steps steps' : List Step) :
    along place (steps ++ steps') = along (along place steps) steps' := List.foldl_append

theorem along_down (place : Place) (names : List FileName) :
    along place (names.map down) = place ++ names := by
  induction names generalizing place with
  | nil => simp [along]
  | cons name names ih =>
    rw [List.map_cons, along_cons, ih, next, List.append_assoc, List.singleton_append]

end Step

namespace Node

variable {root : Node} {place : Place} {step : Step} {steps : List Step}

theorem at?_append (n : Node) (p q : Place) : n.at? (p ++ q) = (n.at? p).bind fun c => c.at? q := by
  induction p generalizing n with
  | nil => rfl
  | cons name p ih =>
    rw [List.cons_append, at?, at?]
    cases n.child? name with
    | none => rfl
    | some c => exact ih c

/-- Above a place that there is, there are directories. -/
theorem directory_of_at?_append {n m : Node} {p q : Place} (h : n.at? (p ++ q) = some m)
    (hq : q ≠ []) : ∃ entries, n.at? p = some (.directory entries) := by
  obtain ⟨name, r, rfl⟩ := List.exists_cons_of_ne_nil hq
  rw [at?_append, Option.bind_eq_some_iff] at h
  obtain ⟨c, hc, h⟩ := h
  cases c with
  | directory entries => exact ⟨entries, hc⟩
  | file content => contradiction
  | link target => contradiction

/-- Whether no place in a tree holds a link. -/
def LinkFree (root : Node) : Prop := ∀ place target, root.at? place ≠ some (.link target)

theorem linkFree_file {content : Bytes} : (file content).LinkFree := by
  intro place target h
  cases place with
  | nil => simp [at?] at h
  | cons name place => contradiction

theorem linkFree_directory {entries : List (FileName × Node)} (h : ∀ e ∈ entries, e.2.LinkFree) :
    (directory entries).LinkFree := by
  intro place target hlink
  cases place with
  | nil => simp [at?] at hlink
  | cons name place =>
    obtain ⟨child, hchild, hbelow⟩ := Option.bind_eq_some_iff.mp hlink
    obtain ⟨before, after, rfl, -⟩ := List.lookup_eq_some_iff.mp hchild
    exact h (name, child) (by simp) place target hbelow

/-- Whether a step can be made from a place in a tree without links. -/
def Admits (root : Node) (place : Place) (step : Step) : Prop :=
  (∃ entries, root.at? place = some (.directory entries)) ∧
    ∀ name, step = .down name →
      name.bytes.length ≤ Tree.maxNameLength ∧ (root.at? (place ++ [name])).isSome

/-- Whether steps can be made from a place in a tree without links. -/
def Passes (root : Node) : Place → List Step → Prop
  | _, [] => True
  | place, step :: steps => root.Admits place step ∧ root.Passes (step.next place) steps

theorem passes_append {steps' : List Step} :
    root.Passes place (steps ++ steps') ↔
      root.Passes place steps ∧ root.Passes (Step.along place steps) steps' := by
  induction steps generalizing place with
  | nil => simp [Passes, Step.along]
  | cons step steps ih => rw [List.cons_append, Passes, Passes, ih, Step.along_cons, and_assoc]

theorem passes_down {names : List FileName} {n : Node} (h : root.at? (place ++ names) = some n) :
    root.Passes place (names.map .down) ↔
      ∀ name ∈ names, name.bytes.length ≤ Tree.maxNameLength := by
  induction names generalizing place with
  | nil => simp [Passes]
  | cons name names ih =>
    have hnext : root.at? (place ++ [name] ++ names) = some n := by
      rwa [List.append_assoc, List.singleton_append]
    have hchild : (root.at? (place ++ [name])).isSome := by
      rw [at?_append, Option.bind_eq_some_iff] at hnext
      obtain ⟨c, hc, -⟩ := hnext
      rw [hc, Option.isSome_some]
    have hdirectory := directory_of_at?_append h (List.cons_ne_nil name names)
    rw [List.map_cons, Passes, Step.next, ih hnext, List.forall_mem_cons, Admits]
    simp [hdirectory, hchild]

/-! ### Walks -/

theorem LinkFree.walkWith_cons {follow : Place → List Step → Except AccessError Place}
    (h : root.LinkFree) {goal : Place} :
    Tree.walkWith root follow place (step :: steps) = .ok goal ↔
      root.Admits place step ∧ Tree.walkWith root follow (step.next place) steps = .ok goal := by
  rw [Tree.walkWith.eq_def, Admits]
  simp only
  split
  · rename_i entries hplace
    cases step with
    | here => simp [hplace, Step.next]
    | up => simp [hplace, Step.next]
    | down name =>
      simp only [hplace, Step.next]
      by_cases hlong : Tree.maxNameLength < name.bytes.length
      · simp [hlong, Nat.not_le.mpr hlong]
      · rw [if_neg hlong]
        cases hnext : root.at? (place ++ [name]) with
        | none => simp [hnext]
        | some n =>
          cases n with
          | link target => exact absurd hnext (h _ target)
          | file content => simp [hnext, Nat.not_lt.mp hlong]
          | directory entries => simp [hnext, Nat.not_lt.mp hlong]
  · rename_i hplace
    have hnot : ¬∃ entries, root.at? place = some (.directory entries) := by
      rintro ⟨entries, hentries⟩
      exact hplace entries hentries
    simp [hnot]

theorem LinkFree.walkWith_eq_ok_iff {follow : Place → List Step → Except AccessError Place}
    (h : root.LinkFree) {goal : Place} :
    Tree.walkWith root follow place steps = .ok goal ↔
      root.Passes place steps ∧ goal = Step.along place steps := by
  induction steps generalizing place with
  | nil =>
    rw [Tree.walkWith, Except.ok.injEq, eq_comm]
    exact (and_iff_right trivial).symm
  | cons step steps ih => rw [h.walkWith_cons, ih, Passes, Step.along_cons, and_assoc]

theorem LinkFree.walk_eq_ok_iff (h : root.LinkFree) {links : Nat} {goal : Place} :
    Tree.walk root links place steps = .ok goal ↔
      root.Passes place steps ∧ goal = Step.along place steps := by
  cases links with
  | zero => exact h.walkWith_eq_ok_iff
  | succ links => exact h.walkWith_eq_ok_iff

end Node

/-! ### Paths -/

/-- Whether a path is neither empty nor too long and holds no NUL. -/
def Path.IsProper (p : Path) : Prop :=
  0 ∉ p.bytes ∧ p.bytes ≠ [] ∧ p.bytes.length ≤ Tree.maxPathLength

/-- The path that names lead to from a directory, one after the other. -/
def Path.below (base : Path) (names : List FileName) : Path := names.foldl child base

namespace Path

variable {base : Path} {names : List FileName}

theorem below_append (base : Path) (names names' : List FileName) :
    base.below (names ++ names') = (base.below names).below names' := List.foldl_append

theorem spelled_below (base : Path) (names : List FileName) :
    (base.below names).spelled = base.spelled ++ names.map .down := by
  induction names generalizing base with
  | nil => simp [below]
  | cons name names ih =>
    have h := ih (base.child name)
    rw [spelled_child] at h
    simpa [below] using h

theorem steps_below (base : Path) (h : names ≠ []) :
    (base.below names).steps = base.spelled ++ names.map .down := by
  obtain ⟨front, last, rfl⟩ : ∃ front last, names = front ++ [last] :=
    ⟨_, _, (List.dropLast_concat_getLast h).symm⟩
  rw [below_append]
  show ((base.below front).child last).steps = _
  rw [steps_child, spelled_below, List.append_assoc, List.map_append]
  rfl

theorem isAbsolute_below (base : Path) (names : List FileName) :
    (base.below names).IsAbsolute ↔ base.IsAbsolute := by
  induction names generalizing base with
  | nil => rfl
  | cons name names ih => exact (ih (base.child name)).trans (isAbsolute_join name.not_isAbsolute)

theorem exists_bytes_below (base : Path) (names : List FileName) :
    ∃ rest, (base.below names).bytes = base.bytes ++ rest := by
  induction names generalizing base with
  | nil => exact ⟨[], (List.append_nil _).symm⟩
  | cons name names ih =>
    obtain ⟨rest, hrest⟩ := ih (base.child name)
    obtain ⟨link, hlink⟩ := bytes_child base name
    exact ⟨_, by rw [below, List.foldl_cons]; exact hrest.trans (by rw [hlink, List.append_assoc])⟩

theorem IsProper.of_below (h : (base.below names).IsProper) (hbase : base.bytes ≠ []) :
    base.IsProper := by
  obtain ⟨rest, hrest⟩ := exists_bytes_below base names
  obtain ⟨hnul, -, hlength⟩ := h
  rw [hrest, List.mem_append, not_or] at hnul
  rw [hrest, List.length_append] at hlength
  exact ⟨hnul.1, hbase, by omega⟩

theorem along_steps (place : Place) (p : Path) :
    Step.along place p.steps = Step.along place p.spelled := by
  rw [steps, Step.along_append]
  split
  · rfl
  · rfl

end Path

namespace Tree

variable {t : Tree} {p base : Path} {names : List FileName}

/-- Where a path leads if there are no links. -/
def placeOf (t : Tree) (p : Path) : Place := Step.along (t.start p) p.spelled

theorem resolve_eq_ok_iff (h : t.root.LinkFree) {goal : Place} :
    t.resolve p = .ok goal ↔
      p.IsProper ∧ t.root.Passes (t.start p) p.steps ∧ goal = t.placeOf p := by
  rw [resolve, Path.IsProper, placeOf, ← Path.along_steps]
  by_cases hnul : 0 ∈ p.bytes
  · simp [hnul]
  · by_cases hempty : p.bytes = []
    · simp [hempty]
    · by_cases hlong : maxPathLength < p.bytes.length
      · simp [hnul, hempty, hlong, Nat.not_le.mpr hlong]
      · rw [if_neg hnul, if_neg hempty, if_neg hlong, h.walk_eq_ok_iff]
        simp [hnul, hempty, Nat.not_lt.mp hlong]

theorem find_eq_ok_iff_resolve {n : Node} :
    t.find p = .ok n ↔ ∃ place, t.resolve p = .ok place ∧ t.root.at? place = some n := by
  rw [find]
  cases t.resolve p with
  | error e => simp [bind, Except.bind]
  | ok place =>
    simp only [bind, Except.bind, Except.ok.injEq, exists_eq_left']
    cases t.root.at? place <;> simp

theorem find_eq_ok_iff (h : t.root.LinkFree) {n : Node} :
    t.find p = .ok n ↔
      p.IsProper ∧ t.root.Passes (t.start p) p.steps ∧ t.root.at? (t.placeOf p) = some n := by
  rw [find_eq_ok_iff_resolve]
  simp only [resolve_eq_ok_iff h]
  constructor
  · rintro ⟨_, ⟨hproper, hpasses, rfl⟩, hn⟩
    exact ⟨hproper, hpasses, hn⟩
  · rintro ⟨hproper, hpasses, hn⟩
    exact ⟨_, ⟨hproper, hpasses, rfl⟩, hn⟩

theorem start_below (t : Tree) (base : Path) (names : List FileName) :
    t.start (base.below names) = t.start base := by
  simp only [start, Path.isAbsolute_below]

theorem placeOf_below (t : Tree) (base : Path) (names : List FileName) :
    t.placeOf (base.below names) = t.placeOf base ++ names := by
  rw [placeOf, placeOf, start_below, Path.spelled_below, Step.along_append, Step.along_down]

/-- Below a directory, a path of names leads to what is there. -/
theorem find_below (h : t.root.LinkFree) (hbase : t.isDirectory base) (hnames : names ≠ [])
    {n : Node} :
    t.find (base.below names) = .ok n ↔ (base.below names).IsProper ∧
      (∀ name ∈ names, name.bytes.length ≤ maxNameLength) ∧
        t.root.at? (t.placeOf base ++ names) = some n := by
  obtain ⟨entries, hfind⟩ := isDirectory_iff.mp hbase
  obtain ⟨-, hpasses, -⟩ := (find_eq_ok_iff h).mp hfind
  rw [Path.steps, Node.passes_append] at hpasses
  rw [find_eq_ok_iff h, placeOf_below, start_below, Path.steps_below base hnames,
    Node.passes_append]
  constructor
  · rintro ⟨hproper, ⟨-, hdown⟩, hn⟩
    exact ⟨hproper, (Node.passes_down hn).mp hdown, hn⟩
  · rintro ⟨hproper, hshort, hn⟩
    exact ⟨hproper, ⟨hpasses.1, (Node.passes_down hn).mpr hshort⟩, hn⟩

/-- On the way from a directory to what is below it there are directories. -/
theorem hasDirectory_of_find_below (h : t.root.LinkFree) (hbase : t.isDirectory base)
    {name : FileName} {n : Node} (hfind : t.find (base.below (name :: names)) = .ok n)
    (hnames : names ≠ []) : t.HasDirectory base name := by
  obtain ⟨entries, hentries⟩ := isDirectory_iff.mp hbase
  obtain ⟨hbaseProper, -, hplace⟩ := (find_eq_ok_iff h).mp hentries
  obtain ⟨hproper, hshort, hn⟩ := (find_below h hbase (List.cons_ne_nil _ _)).mp hfind
  have hat : t.root.at? (t.placeOf base ++ [name] ++ names) = some n := by
    rwa [List.append_assoc, List.singleton_append]
  obtain ⟨children, hchild⟩ := Node.directory_of_at?_append hat hnames
  have hlookup : entries.lookup name = some (.directory children) := by
    have hstep := Node.at?_append t.root (t.placeOf base) [name]
    rw [hplace, hchild] at hstep
    simpa [Node.at?, Node.child?, Option.bind_eq_some_iff] using hstep.symm
  have hmem : name ∈ entries.map Prod.fst := by
    obtain ⟨before, after, hsplit, -⟩ := List.lookup_eq_some_iff.mp hlookup
    simp [hsplit]
  have hproper' : (base.below [name]).IsProper := by
    have hne : (base.child name).bytes ≠ [] := by
      obtain ⟨link, hlink⟩ := Path.bytes_child base name
      simp [hlink, name.isFileName.1]
    have hbelow : ((base.below [name]).below names).IsProper := hproper
    exact hbelow.of_below hne
  have hdirectory := (find_below h hbase (List.cons_ne_nil name [])).mpr
    ⟨hproper', fun other hother => hshort other (by simp_all), hchild⟩
  exact ⟨⟨entries, hentries, hmem⟩, isDirectory_iff.mpr ⟨children, hdirectory⟩⟩

end Tree

end RegressionGate
