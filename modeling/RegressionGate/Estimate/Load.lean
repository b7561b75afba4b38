import RegressionGate.Estimate.Measure
import RegressionGate.Estimate.Set
import RegressionGate.Tree.Basic

/-! Loading the estimates of a run from a file tree, where the estimates of a case lie at
`<group>/<case>/<label>/estimates.json`. What cannot be used is left out with a warning; what is
missing is left out silently. -/

namespace RegressionGate

/-- Something in the tree that had to be left out. -/
inductive LoadWarning
  /-- An estimates file whose content could not be read. -/
  | unreadable (path : Path) (error : AccessError)
  /-- An estimates file whose content gives no measure. -/
  | malformed (path : Path) (error : Estimate.MeasureError)
  /-- A directory whose entries could not be listed. -/
  | unlistable (path : Path) (error : AccessError)
deriving DecidableEq, Repr

namespace LoadWarning

def path : LoadWarning → Path
  | unreadable path _ | malformed path _ | unlistable path _ => path

def message : LoadWarning → String
  | unreadable path error => "Warning: Could not parse " ++ path.shown ++ ": " ++ error.message
  | malformed path error => "Warning: Could not parse " ++ path.shown ++ ": " ++ error.message
  | unlistable path error => "Warning: Could not read " ++ path.shown ++ ": " ++ error.message

end LoadWarning

namespace Estimate

def fileName : Path := .ofString "estimates.json"

/-- The directory below a build directory that holds the measurements. -/
def directoryName : Path := .ofString "criterion"

/-- The measurements below a build directory, if there are any. -/
def findDirectory? (tree : Tree) (build : Path) : Option Path :=
  let path := build.join directoryName
  if tree.isDirectory path then some path else none

def measureFile (tree : Tree) (path : Path) : Except LoadWarning Binary64 := do
  let content ← (tree.read path).mapError (.unreadable path)
  (measure content).mapError (.malformed path)

/-- The directories in the directory at a path, in the order of their paths. One that cannot be
listed has none, and a warning instead. -/
def subdirectories (tree : Tree) (listing : Tree.Listing) (path : Path) :
    List Path × List LoadWarning :=
  match listing path with
  | .ok names =>
    (((names.map path.child).filter tree.isDirectory).mergeSort fun p q => decide (p ≤ q), [])
  | .error e => ([], [.unlistable path e])

def directoryLabel? (path : Path) : Option String := path.fileName?.map FileName.shown

def caseFile (case label : Path) : Path := (case.join label).join fileName

/-- What the case directory `case` of a group contributes to a run. -/
def loadCase (tree : Tree) (label : Path) (group : String) (case : Path) :
    List (Benchmark × Binary64) × List LoadWarning :=
  match directoryLabel? case with
  | none => ([], [])
  | some name =>
    let file := caseFile case label
    if tree.isFile file then
      match measureFile tree file with
      | .ok ns => ([(⟨group, name⟩, ns)], [])
      | .error warning => ([], [warning])
    else ([], [])

/-- The contributions of a list of directories, one after the other. -/
def gather (load : Path → List (Benchmark × Binary64) × List LoadWarning)
    (directories : List Path) : List (Benchmark × Binary64) × List LoadWarning :=
  let loaded := directories.map load
  (loaded.flatMap Prod.fst, loaded.flatMap Prod.snd)

def loadGroup (tree : Tree) (listing : Tree.Listing) (label group : Path) :
    List (Benchmark × Binary64) × List LoadWarning :=
  match directoryLabel? group with
  | none => ([], [])
  | some name =>
    let (cases, unlisted) := subdirectories tree listing group
    let (estimates, warnings) := gather (loadCase tree label name) cases
    (estimates, unlisted ++ warnings)

end Estimate

/-- The estimates of a run, and what had to be left out. -/
structure LoadedEstimates where
  estimates : EstimateSet
  warnings : List LoadWarning

/-- The estimates under a label in the directory `root`, with the names in each directory coming as
`listing` gives them. Of several directories with the same displayed names, the first that has an
estimate counts. -/
def Estimate.load (tree : Tree) (listing : Tree.Listing) (root label : Path) : LoadedEstimates :=
  let (groups, unlisted) := subdirectories tree listing root
  let (estimates, warnings) := gather (loadGroup tree listing label) groups
  ⟨.ofFirsts estimates, unlisted ++ warnings⟩

def loadEstimates (tree : Tree) (root label : Path) : LoadedEstimates :=
  Estimate.load tree tree.list root label

end RegressionGate
