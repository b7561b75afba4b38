import RegressionGate.Tree.Basic

/-! Changes to a file tree: making directories, writing files, making links and removing. -/

namespace RegressionGate

inductive Change
  | makeDirectory (path : Path)
  | write (path : Path) (content : Bytes)
  | makeLink (path target : Path)
  | remove (path : Path)
deriving Repr

namespace Node

def setEntry (name : FileName) (node : Node) :
    List (FileName × Node) → List (FileName × Node)
  | [] => [(name, node)]
  | (other, old) :: entries =>
    if other = name then (name, node) :: entries
    else (other, old) :: setEntry name node entries

/-- The tree with `node` at a place, which is reached through directories only. -/
def put (n : Node) (place : Place) (node : Node) : Node :=
  match place with
  | [] => node
  | name :: names =>
    match n with
    | .directory entries =>
      let child := (entries.lookup name).getD (.directory [])
      .directory (setEntry name (child.put names node) entries)
    | other => other

def delete (n : Node) (place : Place) : Node :=
  match place with
  | [] => n
  | [name] =>
    match n with
    | .directory entries => .directory (entries.filter fun e => decide (e.1 ≠ name))
    | other => other
  | name :: names =>
    match n with
    | .directory entries =>
      match entries.lookup name with
      | some child => .directory (setEntry name (child.delete names) entries)
      | none => n
    | other => other

end Node

namespace Tree

/-- Goes along steps from a place, making each missing directory on the way. -/
def ensure? (root : Node) : Place → List Step → Option (Node × Place)
  | place, [] => some (root, place)
  | place, .here :: steps => ensure? root place steps
  | place, .up :: steps => ensure? root place.dropLast steps
  | place, .down name :: steps =>
    if maxNameLength < name.bytes.length then none
    else
      match root.at? (place ++ [name]) with
      | none => ensure? (root.put (place ++ [name]) (.directory [])) (place ++ [name]) steps
      | some (.directory _) => ensure? root (place ++ [name]) steps
      | some (.file _) => none
      | some (.link _) =>
        match walk root maxLinks place [.down name, .here] with
        | .ok place => ensure? root place steps
        | .error _ => none

/-- Where writing under `name` in the directory at a place puts the content: links are followed,
the last one to a name that need not exist yet. -/
def writePlace? (root : Node) : (links : Nat) → Place → FileName → Option Place
  | links, place, name =>
    match root.at? (place ++ [name]) with
    | some (.directory _) => none
    | some (.link target) =>
      match links, target.steps.getLast? with
      | links + 1, some (.down last) =>
        match walk root maxLinks (if target.IsAbsolute then [] else place)
            target.steps.dropLast with
        | .ok place => writePlace? root links place last
        | .error _ => none
      | _, _ => none
    | _ => some (place ++ [name])

/-- The steps of a path with those that stay in place left out, split before the last. -/
def splitLast? (p : Path) : Option (List Step × FileName) :=
  let steps := p.steps.filter fun s => decide (s ≠ .here)
  match steps.getLast? with
  | some (.down name) =>
    if maxNameLength < name.bytes.length then none else some (steps.dropLast, name)
  | _ => none

/-- The tree after a change; `none` when the change cannot be made. Missing parent directories of
what is made are made too. -/
def changed? (t : Tree) (change : Change) : Option Tree :=
  match change with
  | .makeDirectory path => do
    let (root, _) ← ensure? t.root (t.start path) path.steps
    some { t with root }
  | .write path content => do
    let (steps, name) ← splitLast? path
    let (root, place) ← ensure? t.root (t.start path) steps
    let place ← writePlace? root maxLinks place name
    some { t with root := root.put place (.file content) }
  | .makeLink path target => do
    let (steps, name) ← splitLast? path
    let (root, place) ← ensure? t.root (t.start path) steps
    if (root.at? (place ++ [name])).isSome then none
    else some { t with root := root.put (place ++ [name]) (.link target) }
  | .remove path => do
    let (steps, name) ← splitLast? path
    let place ← (walk t.root maxLinks (t.start path) steps).toOption
    if (t.root.at? (place ++ [name])).isNone then none
    else some { t with root := t.root.delete (place ++ [name]) }

/-- An empty working directory under an otherwise empty root; the names on the way to it are
given. -/
def emptyAt (names : List Bytes) : Tree :=
  let place := names.filterMap FileName.ofBytes?
  ⟨(Node.directory []).put place (.directory []), place⟩

end Tree

end RegressionGate
