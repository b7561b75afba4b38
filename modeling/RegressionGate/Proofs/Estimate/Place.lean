import RegressionGate.Proofs.Estimate.Case
import RegressionGate.Proofs.Tree.Walk

/-! Where the estimates file of a case lies: the label leads there from the case directory, by names
alone if the label is one name. -/

namespace RegressionGate

def FileName.path (n : FileName) : Path := ⟨n.bytes⟩

/-- The name of an estimates file in the directory of its label. -/
def Estimate.estimatesName : FileName := ⟨Utf8.encode "estimates.json", by decide +kernel⟩

namespace CaseName

def directory (root : Path) (n : CaseName) : Path := (root.child n.group).child n.case

theorem directory_eq_below (root : Path) (n : CaseName) :
    n.directory root = root.below [n.group, n.case] := rfl

theorem file_eq_child (root label : Path) (n : CaseName) :
    n.file root label = ((n.directory root).join label).child Estimate.estimatesName := rfl

/-- The names that lead from a directory of measurements to the estimates file of a case. -/
def below (label : FileName) (n : CaseName) : List FileName :=
  [n.group, n.case, label, Estimate.estimatesName]

theorem file_eq_below (root : Path) (label : FileName) (n : CaseName) :
    n.file root label.path = root.below (n.below label) := rfl

theorem components_file (root : Path) (label : FileName) (n : CaseName) :
    (n.file root label.path).components =
      root.components ++ (n.below label).map fun name => .step (.down name) := by
  simp only [file_eq_below, Path.below, below, List.foldl_cons, List.foldl_nil,
    Path.components_child, List.append_assoc]
  rfl

theorem file_injective {root : Path} {label : FileName} {m n : CaseName}
    (h : m.file root label.path = n.file root label.path) : m = n := by
  have hcomponents := congrArg Path.components h
  rw [components_file, components_file, List.append_cancel_left_eq] at hcomponents
  cases m
  cases n
  simpa [below] using hcomponents

end CaseName

namespace Tree

theorem linkFree_directoryOf {entries : List (Bytes × Node)} (h : ∀ e ∈ entries, e.2.LinkFree) :
    (directoryOf entries).LinkFree := by
  refine Node.linkFree_directory fun e he => ?_
  obtain ⟨entry, hentry, hname⟩ := List.mem_filterMap.mp he
  obtain ⟨name, -, rfl⟩ := Option.map_eq_some_iff.mp hname
  exact h entry hentry

theorem linkFree_ofMeasurements
    (groups : List (Bytes × List (Bytes × List (String × String)))) :
    (ofMeasurements groups).root.LinkFree := by
  have hone {name : Bytes} {n : Node} (h : n.LinkFree) : (directoryOf [(name, n)]).LinkFree :=
    linkFree_directoryOf fun e he => by rwa [List.mem_singleton.mp he]
  have hmap {α : Type} {l : List α} {f : α → Bytes × Node} (h : ∀ a, (f a).2.LinkFree) :
      (directoryOf (l.map f)).LinkFree :=
    linkFree_directoryOf fun e he => by
      obtain ⟨a, -, rfl⟩ := List.mem_map.mp he
      exact h a
  refine hone (hone (hmap fun group => hmap fun case => hmap fun label => hone ?_))
  exact Node.linkFree_file

end Tree

end RegressionGate
