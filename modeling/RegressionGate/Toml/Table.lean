import RegressionGate.Toml.Basic

/-! Building the tables of a document from its assignments and headers. A key may be set once, and
a table may be defined in one way only. -/

namespace RegressionGate.Toml

/-- A key, as its last part behind a path of others, and the value it is set to. -/
structure Assignment where
  path : List Key
  key : Key
  value : Node

/-- A header, of a table or of a further table in an array of tables. -/
structure Header where
  inArray : Bool
  path : List Key
  key : Key
  span : Span
deriving DecidableEq, Repr

inductive Line
  | header (header : Header)
  | assignment (assignment : Assignment)

/-- The entries with `key` set to `value`, which must not be there yet. -/
def addEntry? (key : Key) (value : Node) (entries : List (Key × Node)) :
    Option (List (Key × Node)) :=
  if (Node.find? key.name entries).isSome then none else some (entries ++ [(key, value)])

/-- A table's entries with the value at a path of keys below it assigned. Only tables that dotted
keys made may be extended; missing ones are made. `inTable` tells whether the table at hand may
take the key itself: with a path it has to come from a dotted key, without one it must not. -/
def assign? (isInline : Bool) (key : Key) (value : Node) :
    (path : List Key) → (open_ : Bool) → List (Key × Node) → Option (List (Key × Node))
  | [], open_, entries => if open_ then addEntry? key value entries else none
  | k :: ks, _, entries =>
    match Node.find? k.name entries with
    | none => do
      let below ← assign? isInline key value ks true []
      some (entries ++ [(k, .table isInline .dotted none below)])
    | some (.table inl origin span below) =>
      if inl = isInline ∧ origin ≠ .own then do
        let below ← assign? isInline key value ks (decide (origin = .dotted)) below
        some (Node.replace k.name (.table inl origin span below) entries)
      else none
    | some (.tables elements span) =>
      match elements.getLast? with
      | some (.table inl origin s below) => do
        let below ← assign? isInline key value ks (decide (origin = .dotted)) below
        some (Node.replace k.name
          (.tables (elements.dropLast ++ [.table inl origin s below]) span) entries)
      | _ => none
    | some _ => none

def assignAll (isInline : Bool) (as : List Assignment) : Option (List (Key × Node)) :=
  as.foldlM (fun entries a => assign? isInline a.key a.value a.path true entries) []

end RegressionGate.Toml
