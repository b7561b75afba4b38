import RegressionGate.Text.Utf8

/-! Paths: byte strings that name a place in a file tree, the steps that they spell and the
components by which they are ordered. -/

namespace RegressionGate

def Path.separator : UInt8 := 0x2f

/-- Whether bytes can name a file within its directory: they are not empty, hold no separator and
are neither `.` nor `..`. -/
def IsFileName (bytes : Bytes) : Prop :=
  bytes ≠ [] ∧ Path.separator ∉ bytes ∧ bytes ≠ [0x2e] ∧ bytes ≠ [0x2e, 0x2e]

instance (bytes : Bytes) : Decidable (IsFileName bytes) :=
  inferInstanceAs (Decidable (_ ∧ _ ∧ _ ∧ _))

/-- The name of a file within its directory. -/
structure FileName where
  bytes : Bytes
  isFileName : IsFileName bytes := by decide
deriving DecidableEq, Repr

namespace FileName

def ofBytes? (bytes : Bytes) : Option FileName :=
  if h : IsFileName bytes then some ⟨bytes, h⟩ else none

def shown (n : FileName) : String := Utf8.lossy n.bytes

end FileName

structure Path where
  bytes : Bytes
deriving DecidableEq, Repr

/-- One step along a path. -/
inductive Step
  | here
  | up
  | down (name : FileName)
deriving DecidableEq, Repr

namespace Path

def ofString (s : String) : Path := ⟨Utf8.encode s⟩

def shown (p : Path) : String := Utf8.lossy p.bytes

def IsAbsolute (p : Path) : Prop := p.bytes.head? = some separator

instance (p : Path) : Decidable p.IsAbsolute := inferInstanceAs (Decidable (_ = _))

/-- The path `part` as seen from `base`: `part` itself when it is absolute, and otherwise the two
with one separator between them, unless `base` is empty or ends in one already. -/
def join (base part : Path) : Path :=
  if part.IsAbsolute then part
  else if base.bytes = [] ∨ base.bytes.getLast? = some separator then ⟨base.bytes ++ part.bytes⟩
  else ⟨base.bytes ++ separator :: part.bytes⟩

def child (base : Path) (name : FileName) : Path := base.join ⟨name.bytes⟩

/-- The stretches between separators, empty ones included. -/
def pieces : Bytes → List Bytes
  | [] => [[]]
  | b :: r =>
    if b = separator then [] :: pieces r
    else
      match pieces r with
      | [] => [[b]]
      | p :: ps => (b :: p) :: ps

/-- The step that a stretch between separators spells; an empty one spells none. -/
def step? (piece : Bytes) : Option Step :=
  if piece = [0x2e] then some .here
  else if piece = [0x2e, 0x2e] then some .up
  else (FileName.ofBytes? piece).map .down

/-- The steps of a path from its starting point. A trailing separator demands a directory, as a
final `.` does. -/
def steps (p : Path) : List Step :=
  (pieces p.bytes).filterMap step? ++
    if p.bytes.getLast? = some separator then [.here] else []

end Path

/-- What paths are compared by: the root, and steps. -/
inductive Component
  | root
  | step (s : Step)
deriving DecidableEq, Repr

namespace Component

def rank : Component → Nat
  | root => 0
  | step .here => 1
  | step .up => 2
  | step (.down _) => 3

def bytes : Component → Bytes
  | step (.down name) => name.bytes
  | _ => []

/-- The root comes first, then `.`, then `..`, then names in byte order. -/
instance : LT Component := ⟨fun a b => Prod.lexLt (a.rank, a.bytes) (b.rank, b.bytes)⟩

instance (a b : Component) : Decidable (a < b) := inferInstanceAs (Decidable (Prod.lexLt _ _))

end Component

namespace Path

/-- The components of a path: its steps, those that stay in place left out unless the path begins
with one, and before them the root if the path is absolute. -/
def components (p : Path) : List Component :=
  let steps := ((pieces p.bytes).filterMap step?).filter fun s => decide (s ≠ .here)
  (if p.IsAbsolute then [.root]
    else if (pieces p.bytes).head? = some [0x2e] then [.step .here]
    else []) ++ steps.map .step

/-- Paths are ordered by their components, the first ones counting most. -/
instance : LE Path := ⟨fun p q => p.components ≤ q.components⟩

instance (p q : Path) : Decidable (p ≤ q) :=
  inferInstanceAs (Decidable (p.components ≤ q.components))

/-- The name of the file that a path leads to, if a name is its last component. -/
def fileName? (p : Path) : Option FileName :=
  match p.components.getLast? with
  | some (.step (.down name)) => some name
  | _ => none

end Path

end RegressionGate
