import RegressionGate.Toml.Number
import RegressionGate.Toml.Table
import RegressionGate.Toml.Text

/-! The grammar of TOML documents: values, and the sections that headers divide a document into. -/

namespace RegressionGate.Toml

def skipComment (s : List Char) : List Char :=
  match s with
  | '#' :: r => r.dropWhile isPlain
  | _ => s

/-- The end of a line behind blanks and a comment, at a line ending or the end of the document. -/
def lineEnd? (s : List Char) : Option (List Char) :=
  match skipComment (skipBlanks s) with
  | [] => some []
  | s => newline? s

/-- Blanks, line endings and comments, which may stand anywhere in an array. -/
def skipTrivia : (bound : Nat) → List Char → List Char
  | 0, s => s
  | bound + 1, s =>
    match skipBlanks s with
    | '#' :: r => skipTrivia bound (r.dropWhile isPlain)
    | s =>
      match newline? s with
      | some r => skipTrivia bound r
      | none => s

def isTokenChar (c : Char) : Bool :=
  c.isAlphanum || c = '_' || c = '+' || c = '-' || c = '.' || c = ':'

/-- Whether a time of day begins behind a blank, which joins it to the date before. -/
def joinsTime (s : List Char) : Bool :=
  match s with
  | ' ' :: a :: b :: ':' :: _ => a.isDigit && b.isDigit
  | _ => false

def token : Reader Scalar := fun s => do
  let first := s.takeWhile isTokenChar
  let rest := s.dropWhile isTokenChar
  if isDate first && joinsTime rest then
    if isOffsetTime ((rest.drop 1).takeWhile isTokenChar) then
      some (.dateTime, (rest.drop 1).dropWhile isTokenChar)
    else none
  else some (← Scalar.ofToken? first, rest)

/-- The values of an array up to its closing bracket; a comma may follow the last. -/
def elements (value : Reader Node) : (bound : Nat) → Reader (List Node)
  | 0, _ => none
  | bound + 1, s =>
    match skipTrivia s.length s with
    | ']' :: r => some ([], r)
    | s => do
      let (v, r) ← value s
      match skipTrivia r.length r with
      | ',' :: r => do
        let (vs, r) ← elements value bound r
        some (v :: vs, r)
      | ']' :: r => some ([v], r)
      | _ => none

def assignment (value : Reader Node) : Reader Assignment := fun s => do
  let ((path, key), r) ← dottedKey s
  match r with
  | '=' :: r => do
    let (v, r) ← value (skipBlanks r)
    some (⟨path, key, v⟩, r)
  | _ => none

/-- The assignments between braces, at least one. -/
def members (value : Reader Node) : (bound : Nat) → Reader (List Assignment)
  | 0, _ => none
  | bound + 1, s => do
    let (a, r) ← assignment value s
    match skipBlanks r with
    | ',' :: r => do
      let (as, r) ← members value bound r
      some (a :: as, r)
    | '}' :: r => some ([a], r)
    | _ => none

/-- A value in which arrays and inline tables are nested at most `depth` deep. -/
def valueWithin : (depth : Nat) → Reader Node
  | depth, s =>
    match depth, s with
    | depth + 1, '[' :: r => do
      let (vs, r') ← elements (valueWithin depth) (r.length + 1) r
      some (.array vs (.between s r'), r')
    | depth + 1, '{' :: r =>
      match skipBlanks r with
      | '}' :: r' => some (.table true .own (some (.between s r')) [], r')
      | _ => do
        let (as, r') ← members (valueWithin depth) (r.length + 1) r
        let entries ← assignAll true as
        some (.table true .own (some (.between s r')) entries, r')
    | _, '"' :: _ | _, '\'' :: _ => do
      let (text, r) ← anyString s
      some (.scalar (.string text) (.between s r), r)
    | _, _ => do
      let (scalar, r) ← token s
      some (.scalar scalar (.between s r), r)

def maxNesting : Nat := 79

def value : Reader Node := valueWithin maxNesting

def header : Reader Header := fun s =>
  match s with
  | '[' :: '[' :: r => do
    let ((path, key), r) ← dottedKey r
    match r with
    | ']' :: ']' :: r => some (⟨true, path, key, .between s r⟩, r)
    | _ => none
  | '[' :: r => do
    let ((path, key), r) ← dottedKey r
    match r with
    | ']' :: r => some (⟨false, path, key, .between s r⟩, r)
    | _ => none
  | _ => none

/-- The lines of a document: its headers and assignments in order. -/
def lines : (bound : Nat) → List Char → Option (List Line)
  | 0, _ => none
  | bound + 1, s =>
    match skipBlanks s with
    | [] => some []
    | '[' :: r => do
      let (h, r) ← header ('[' :: r)
      some (.header h :: (← lines bound (← lineEnd? r)))
    | c :: r =>
      if c = '#' || c = '\n' || c = '\r' then do lines bound (← lineEnd? (c :: r))
      else do
        let (a, r) ← assignment value (c :: r)
        some (.assignment a :: (← lines bound (← lineEnd? r)))

end RegressionGate.Toml
