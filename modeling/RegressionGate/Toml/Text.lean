import RegressionGate.Text.Hexadecimal
import RegressionGate.Toml.Basic

/-! The strings and keys of a TOML document. -/

namespace RegressionGate.Toml

/-- A reader of one construct at the front of a document: what it denotes and what follows it;
`none` when it is not there. -/
abbrev Reader (α : Type) := List Char → Option (α × List Char)

def isBlank (c : Char) : Bool := c = ' ' || c = '\t'

def skipBlanks (s : List Char) : List Char := s.dropWhile isBlank

def newline? : List Char → Option (List Char)
  | '\n' :: r => some r
  | '\r' :: '\n' :: r => some r
  | _ => none

/-- A character that stands for itself in comments and strings: a tab or one that is no control
character. -/
def isPlain (c : Char) : Bool := c = '\t' || (' ' ≤ c && c ≠ '\x7f')

/-- The character whose code point a run of hexadecimal digits spells. -/
def codePoint? (digits : List Char) : Option Char := do
  let n ← Text.hexNat? digits
  if n.isValidChar then some (Char.ofNat n) else none

/-- The character that a backslash and a single letter stand for. -/
def shortEscape? (c : Char) : Option Char :=
  if c = 'b' then some '\x08'
  else if c = 't' then some '\t'
  else if c = 'n' then some '\n'
  else if c = 'f' then some '\x0c'
  else if c = 'r' then some '\r'
  else if c = '"' then some '"'
  else if c = '\\' then some '\\'
  else none

/-- The character of the escape whose backslash has just been passed. -/
def escape : Reader Char
  | 'u' :: a :: b :: c :: d :: r => (codePoint? [a, b, c, d]).map (·, r)
  | 'U' :: a :: b :: c :: d :: e :: f :: g :: h :: r =>
    (codePoint? [a, b, c, d, e, f, g, h]).map (·, r)
  | c :: r => (shortEscape? c).map (·, r)
  | [] => none

/-- The rest of a string in double quotes on one line, added to `done` in reverse. The number of
characters bounds that of the steps. -/
def basicRest : (bound : Nat) → (done : List Char) → Reader String
  | 0, _, _ => none
  | bound + 1, done, s =>
    match s with
    | '"' :: r => some (String.ofList done.reverse, r)
    | '\\' :: r => do
      let (c, r) ← escape r
      basicRest bound (c :: done) r
    | c :: r => if isPlain c then basicRest bound (c :: done) r else none
    | [] => none

def literalRest (s : List Char) : Option (String × List Char) :=
  match s.dropWhile fun c => isPlain c && c ≠ '\'' with
  | '\'' :: r => some (String.ofList (s.takeWhile fun c => isPlain c && c ≠ '\''), r)
  | _ => none

/-- What three quotes that end a string leave: up to two more quotes before them belong to the
string. -/
def closeQuotes (quote : Char) (done : List Char) (s : List Char) : String × List Char :=
  match s with
  | a :: b :: r =>
    if a = quote ∧ b = quote then (String.ofList (quote :: quote :: done).reverse, r)
    else if a = quote then (String.ofList (quote :: done).reverse, b :: r)
    else (String.ofList done.reverse, s)
  | [a] =>
    if a = quote then (String.ofList (quote :: done).reverse, [])
    else (String.ofList done.reverse, s)
  | [] => (String.ofList done.reverse, [])

def endsLine (s : List Char) : Bool := (newline? (skipBlanks s)).isSome

/-- The rest of a string in three double quotes. While `trimming`, blanks and line endings are left
out, as they are behind a backslash that ends its line. -/
def multilineBasicRest : (bound : Nat) → (trimming : Bool) → (done : List Char) → Reader String
  | 0, _, _, _ => none
  | bound + 1, trimming, done, s =>
    match s with
    | '"' :: '"' :: '"' :: r => some (closeQuotes '"' done r)
    | '\n' :: r | '\r' :: '\n' :: r =>
      multilineBasicRest bound trimming (if trimming then done else '\n' :: done) r
    | '\\' :: r =>
      if endsLine r then multilineBasicRest bound true done r
      else do
        let (c, r) ← escape r
        multilineBasicRest bound false (c :: done) r
    | c :: r =>
      if trimming && isBlank c then multilineBasicRest bound true done r
      else if isPlain c then multilineBasicRest bound false (c :: done) r
      else none
    | [] => none

def multilineLiteralRest (done : List Char) : Reader String
  | '\'' :: '\'' :: '\'' :: r => some (closeQuotes '\'' done r)
  | '\n' :: r | '\r' :: '\n' :: r => multilineLiteralRest ('\n' :: done) r
  | c :: r => if isPlain c then multilineLiteralRest (c :: done) r else none
  | [] => none

/-- A string on one line, in either kind of quotes. -/
def lineString : Reader String
  | '"' :: r => basicRest (r.length + 1) [] r
  | '\'' :: r => literalRest r
  | _ => none

/-- A string in any of the four forms. A line ending right behind three opening quotes is left
out. -/
def anyString : Reader String
  | '"' :: '"' :: '"' :: r =>
    let r := (newline? r).getD r
    multilineBasicRest (r.length + 1) false [] r
  | '\'' :: '\'' :: '\'' :: r => multilineLiteralRest [] ((newline? r).getD r)
  | s => lineString s

def isBareKeyChar (c : Char) : Bool := c.isAlphanum || c = '_' || c = '-'

def simpleKey : Reader Key := fun s => do
  let (name, r) ←
    match s.takeWhile isBareKeyChar with
    | [] => lineString s
    | name => some (String.ofList name, s.dropWhile isBareKeyChar)
  some (⟨name, .between s r⟩, r)

/-- How many parts a key has less than. -/
def maxKeyParts : Nat := 80

/-- The parts of a key, separated by points, with blanks around each. -/
def keyParts : (bound : Nat) → Reader (List Key)
  | 0, _ => none
  | bound + 1, s => do
    let (k, r) ← simpleKey (skipBlanks s)
    match skipBlanks r with
    | '.' :: r => do
      let (ks, r) ← keyParts bound r
      some (k :: ks, r)
    | r => some ([k], r)

def dottedKey : Reader (List Key × Key) := fun s => do
  let (ks, r) ← keyParts (maxKeyParts - 1) s
  let last ← ks.getLast?
  some ((ks.dropLast, last), r)

end RegressionGate.Toml
