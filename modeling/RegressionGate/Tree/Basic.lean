import RegressionGate.Tree.Path

/-! File trees: files, symbolic links and directories, the place in them that a path leads to, and
what can be asked of that place. -/

namespace RegressionGate

inductive Node
  | file (content : Bytes)
  | link (target : Path)
  | directory (entries : List (FileName × Node))
deriving Inhabited

/-- The names that lead from the root of a tree to one of its nodes. -/
abbrev Place := List FileName

/-- A file tree and the place in it where relative paths start. -/
structure Tree where
  root : Node
  workingDirectory : Place

/-- Why a path gives no answer. -/
inductive AccessError
  | notFound
  | notDirectory
  | isDirectory
  | nameTooLong
  | tooManyLinks
  | nulInPath
  | notText
deriving DecidableEq, Repr

def AccessError.message : AccessError → String
  | notFound => "No such file or directory (os error 2)"
  | notDirectory => "Not a directory (os error 20)"
  | isDirectory => "Is a directory (os error 21)"
  | nameTooLong => "File name too long (os error 36)"
  | tooManyLinks => "Too many levels of symbolic links (os error 40)"
  | nulInPath => "file name contained an unexpected NUL byte"
  | notText => "stream did not contain valid UTF-8"

namespace Node

def child? (n : Node) (name : FileName) : Option Node :=
  match n with
  | .directory entries => entries.lookup name
  | _ => none

/-- The node at a place, no link being followed. -/
def at? (n : Node) : Place → Option Node
  | [] => some n
  | name :: names => (n.child? name).bind fun c => c.at? names

/-- The names in a directory, each once. -/
def names : Node → List FileName
  | .directory entries => (entries.map Prod.fst).eraseDups
  | _ => []

end Node

namespace Tree

def maxNameLength : Nat := 255

def maxPathLength : Nat := 4095

def maxLinks : Nat := 40

/-- Goes along steps from a place, handing over to `follow` at each link. Every step starts from a
directory. -/
def walkWith (root : Node) (follow : Place → List Step → Except AccessError Place) :
    Place → List Step → Except AccessError Place
  | place, [] => .ok place
  | place, step :: steps =>
    match root.at? place with
    | some (.directory _) =>
      match step with
      | .here => walkWith root follow place steps
      | .up => walkWith root follow place.dropLast steps
      | .down name =>
        if maxNameLength < name.bytes.length then .error .nameTooLong
        else
          match root.at? (place ++ [name]) with
          | none => .error .notFound
          | some (.link target) =>
            follow (if target.IsAbsolute then [] else place) (target.steps ++ steps)
          | some _ => walkWith root follow (place ++ [name]) steps
    | _ => .error .notDirectory

/-- Goes along steps from a place, following at most `links` links. -/
def walk (root : Node) : (links : Nat) → Place → List Step → Except AccessError Place
  | 0 => walkWith root fun _ _ => .error .tooManyLinks
  | links + 1 => walkWith root (walk root links)

def start (t : Tree) (p : Path) : Place := if p.IsAbsolute then [] else t.workingDirectory

def resolve (t : Tree) (p : Path) : Except AccessError Place :=
  if 0 ∈ p.bytes then .error .nulInPath
  else if p.bytes = [] then .error .notFound
  else if maxPathLength < p.bytes.length then .error .nameTooLong
  else walk t.root maxLinks (t.start p) p.steps

def find (t : Tree) (p : Path) : Except AccessError Node := do
  let place ← t.resolve p
  match t.root.at? place with
  | some n => .ok n
  | none => .error .notFound

def isDirectory (t : Tree) (p : Path) : Bool :=
  match t.find p with
  | .ok (.directory _) => true
  | _ => false

def isFile (t : Tree) (p : Path) : Bool :=
  match t.find p with
  | .ok (.file _) => true
  | _ => false

def read (t : Tree) (p : Path) : Except AccessError Bytes := do
  match ← t.find p with
  | .file content => .ok content
  | .directory _ => .error .isDirectory
  | .link _ => .error .tooManyLinks

def readText (t : Tree) (p : Path) : Except AccessError String := do
  match Utf8.decode? (← t.read p) with
  | some text => .ok text
  | none => .error .notText

/-- What listing the directory at a path gives: the names in it, or why there are none. -/
abbrev Listing := Path → Except AccessError (List FileName)

/-- The names in the directory at a path, in the order in which the tree holds them. -/
def list (t : Tree) : Listing := fun p => do
  match ← t.find p with
  | .directory entries => .ok (Node.directory entries).names
  | _ => .error .notDirectory

end Tree

end RegressionGate
