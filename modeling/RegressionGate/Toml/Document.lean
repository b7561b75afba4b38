import RegressionGate.Toml.Grammar

/-! Whole TOML documents: the lines of a document gathered into its root table. -/

namespace RegressionGate.Toml

abbrev Entries := List (Key × Node)

/-- Changes the table that a header's path leads to. Missing tables on the way are made, and an
array of tables stands for its last one. -/
def within? {β : Type} (change : Entries → Option (β × Entries)) :
    (path : List Key) → Entries → Option (β × Entries)
  | [], entries => change entries
  | k :: ks, entries =>
    match Node.find? k.name entries with
    | none => do
      let (b, below) ← within? change ks []
      some (b, entries ++ [(k, .table false .parent none below)])
    | some (.table false origin span below) => do
      let (b, below) ← within? change ks below
      some (b, Node.replace k.name (.table false origin span below) entries)
    | some (.tables elements span) =>
      match elements.getLast? with
      | some (.table inl origin s below) => do
        let (b, below) ← within? change ks below
        some (b, Node.replace k.name
          (.tables (elements.dropLast ++ [.table inl origin s below]) span) entries)
      | _ => none
    | some _ => none

/-- The section being read: its header, `none` for the one before all headers, and the entries
that its table has so far. -/
structure Section where
  header : Option Header
  entries : Entries

/-- The entries with which the table of a header begins. A table that was only brought about as the
parent of others keeps what it has and moves behind its siblings. -/
def openSection (h : Header) : Entries → Option (Entries × Entries) :=
  within? (fun entries =>
    match Node.find? h.key.name entries, h.inArray with
    | none, false => some ([], entries)
    | none, true => some ([], entries ++ [(h.key, .tables [] none)])
    | some (.tables ..), true => some ([], entries)
    | some (.table false .parent _ below), false =>
      some (below, entries.filter fun e => decide (e.1.name ≠ h.key.name))
    | _, _ => none) h.path

def Span.through (first last : Option Span) : Option Span :=
  match first, last with
  | some a, some b => some ⟨a.startLeft, b.stopLeft⟩
  | _, _ => none

/-- The root table's entries with those of a finished section in their place. -/
def closeSection (s : Section) (root : Entries) : Option Entries :=
  match s.header with
  | none => some s.entries
  | some h =>
    let table : Node := .table false .own (some h.span) s.entries
    let result := within? (fun entries =>
      match Node.find? h.key.name entries, h.inArray with
      | none, false => some ((), entries ++ [(h.key, table)])
      | some (.tables elements _), true =>
        let elements := elements ++ [table]
        let span := Span.through (elements.head?.bind Node.span?) (some h.span)
        some ((), Node.replace h.key.name (.tables elements span) entries)
      | _, _ => none) h.path root
    result.map Prod.snd

/-- The root table's entries when `lines` follow a section. A table's stretch goes on to the end of
its last value. -/
def gather : (lines : List Line) → Section → (root : Entries) → Option Entries
  | [], s, root => closeSection s root
  | .assignment a :: ls, s, root => do
    let entries ← assign? false a.key a.value a.path true s.entries
    let header := s.header.map fun h =>
      { h with span := ((Span.through (some h.span) a.value.span?).getD h.span) }
    gather ls ⟨header, entries⟩ root
  | .header h :: ls, s, root => do
    let root ← closeSection s root
    let (entries, root) ← openSection h root
    gather ls ⟨some h, entries⟩ root

/-- The entries of a document's root table; `none` when it is not valid. A byte order mark in front
is passed over. -/
def parse? (document : List Char) : Option Entries := do
  let body :=
    match document with
    | '\ufeff' :: r => r
    | _ => document
  gather (← lines (body.length + 1) body) ⟨none, []⟩ []

end RegressionGate.Toml
