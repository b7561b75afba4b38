import Mathlib.Data.List.Nodup
import RegressionGate.Toml.Document

/-! What a document says, apart from its layout: a tree of keys and values, without the stretches
that spell them and without the way in which a table or an array came to be. Whatever the lines of a
document are, each key of its root table is there once. -/

namespace RegressionGate.Toml

/-- A value, apart from how it is written. -/
inductive Datum
  | scalar (value : Scalar)
  | array (elements : List Datum)
  | table (entries : List (String × Datum))

mutual

def Datum.decEq : (a b : Datum) → Decidable (a = b)
  | .scalar x, .scalar y => decidable_of_iff (x = y) (by simp)
  | .array xs, .array ys =>
    match Datum.decEqAll xs ys with
    | isTrue h => isTrue (congrArg _ h)
    | isFalse h => isFalse (by simpa using h)
  | .table xs, .table ys =>
    match Datum.decEqEntries xs ys with
    | isTrue h => isTrue (congrArg _ h)
    | isFalse h => isFalse (by simpa using h)
  | .scalar _, .array _ | .scalar _, .table _ | .array _, .scalar _ | .array _, .table _
  | .table _, .scalar _ | .table _, .array _ => isFalse nofun

def Datum.decEqAll : (xs ys : List Datum) → Decidable (xs = ys)
  | [], [] => isTrue rfl
  | [], _ :: _ | _ :: _, [] => isFalse nofun
  | x :: xs, y :: ys =>
    match Datum.decEq x y, Datum.decEqAll xs ys with
    | isTrue h, isTrue hs => isTrue (by rw [h, hs])
    | isFalse h, _ => isFalse (by simp [h])
    | _, isFalse hs => isFalse (by simp [hs])

def Datum.decEqEntries : (xs ys : List (String × Datum)) → Decidable (xs = ys)
  | [], [] => isTrue rfl
  | [], _ :: _ | _ :: _, [] => isFalse nofun
  | (n, x) :: xs, (m, y) :: ys =>
    if hn : n = m then
      match Datum.decEq x y, Datum.decEqEntries xs ys with
      | isTrue h, isTrue hs => isTrue (by rw [hn, h, hs])
      | isFalse h, _ => isFalse (by simp [h])
      | _, isFalse hs => isFalse (by simp [hs])
    else isFalse (by simp [hn])

end

instance : DecidableEq Datum := Datum.decEq

mutual

def Node.datum : Node → Datum
  | .scalar value _ => .scalar value
  | .array elements _ | .tables elements _ => .array (Node.data elements)
  | .table _ _ _ entries => .table (Node.content entries)

def Node.data : List Node → List Datum
  | [] => []
  | node :: nodes => node.datum :: Node.data nodes

def Node.content : List (Key × Node) → List (String × Datum)
  | [] => []
  | (key, node) :: entries => (key.name, node.datum) :: Node.content entries

end

/-- What the root table of a document holds; `none` when the text is no document. -/
def content? (text : String) : Option (List (String × Datum)) :=
  (parse? text.toList).map Node.content

section Shapes

variable {node : Node} {name : String} {d : Datum}

theorem content_eq_map (entries : Entries) :
    Node.content entries = entries.map fun e => (e.1.name, e.2.datum) := by
  induction entries with
  | nil => rfl
  | cons e entries ih => rw [Node.content, ih, List.map_cons]

theorem datum_eq_scalar_iff {x : Scalar} :
    node.datum = .scalar x ↔ ∃ span, node = .scalar x span := by
  cases node <;> simp [Node.datum]

theorem datum_eq_table_nil_iff :
    node.datum = .table [] ↔ ∃ isInline origin span, node = .table isInline origin span [] := by
  cases node <;> simp [Node.datum, content_eq_map]

theorem datum_eq_table_singleton_iff :
    node.datum = .table [(name, d)] ↔
      ∃ isInline origin span key below, node = .table isInline origin span [(key, below)] ∧
        key.name = name ∧ below.datum = d := by
  cases node with
  | table isInline origin span entries =>
    simp [Node.datum, content_eq_map, List.map_eq_singleton_iff, -Bool.exists_bool]
  | scalar | array | tables => simp [Node.datum]

theorem datum_eq_array_nil_iff :
    node.datum = .array [] ↔ (∃ span, node = .array [] span) ∨ ∃ span, node = .tables [] span := by
  have hdata (nodes : List Node) : Node.data nodes = [] ↔ nodes = [] := by
    cases nodes <;> simp [Node.data]
  cases node <;> simp [Node.datum, hdata]

end Shapes

/-! ### Keys -/

def names (entries : Entries) : List String := entries.map fun e => e.1.name

/-- Whether each key of a table is there once. -/
abbrev DistinctKeys (entries : Entries) : Prop := (names entries).Nodup

variable {β : Type} {entries entries' root root' : Entries} {key : Key} {value node : Node}
  {name : String} {s : Section}

theorem map_fst_content (entries : Entries) :
    (Node.content entries).map Prod.fst = names entries := by
  rw [content_eq_map, List.map_map]
  rfl

theorem mem_names_iff : name ∈ names entries ↔ ∃ d, (name, d) ∈ Node.content entries := by
  rw [← map_fst_content]
  simp

theorem find?_eq_none_iff : Node.find? name entries = none ↔ name ∉ names entries := by
  rw [Node.find?, Option.map_eq_none_iff, List.find?_eq_none, names, List.mem_map]
  simp

@[simp] theorem names_replace : names (Node.replace name node entries) = names entries := by
  rw [Node.replace, names, names, List.map_map]
  refine List.map_congr_left fun e _ => ?_
  by_cases h : e.1.name = name <;> simp [h]

theorem DistinctKeys.append (h : DistinctKeys entries)
    (hkey : Node.find? key.name entries = none) : DistinctKeys (entries ++ [(key, value)]) := by
  rw [DistinctKeys, names, List.map_append, List.map_singleton, ← List.concat_eq_append]
  exact h.concat (find?_eq_none_iff.mp hkey)

theorem DistinctKeys.replace (h : DistinctKeys entries) :
    DistinctKeys (Node.replace name node entries) := by
  rwa [DistinctKeys, names_replace]

theorem DistinctKeys.filter (h : DistinctKeys entries) (p : Key × Node → Bool) :
    DistinctKeys (entries.filter p) :=
  h.sublist (List.filter_sublist.map _)

/-- An assignment keeps the keys of the table at hand apart: it adds one that is not there, or goes
below one that stays. -/
theorem DistinctKeys.assign? {isInline inTable : Bool} {path : List Key}
    (h : DistinctKeys entries)
    (hassign : Toml.assign? isInline key value path inTable entries = some entries') :
    DistinctKeys entries' := by
  rw [Toml.assign?.eq_def] at hassign
  split at hassign
  · unfold addEntry? at hassign
    split at hassign
    · split at hassign
      · contradiction
      · rename_i hnone
        obtain rfl := Option.some.inj hassign
        exact h.append (Option.not_isSome_iff_eq_none.mp hnone)
    · contradiction
  · split at hassign
    · rename_i hnone
      obtain ⟨below, -, hsome⟩ := Option.bind_eq_some_iff.mp hassign
      obtain rfl := Option.some.inj hsome
      exact h.append hnone
    · split at hassign
      · obtain ⟨below, -, hsome⟩ := Option.bind_eq_some_iff.mp hassign
        obtain rfl := Option.some.inj hsome
        exact h.replace
      · contradiction
    · split at hassign
      · obtain ⟨below, -, hsome⟩ := Option.bind_eq_some_iff.mp hassign
        obtain rfl := Option.some.inj hsome
        exact h.replace
      · contradiction
    · contradiction

/-- A change below a path of keys keeps those of the table at hand apart when it does so where it is
made. -/
theorem DistinctKeys.within? {change : Entries → Option (β × Entries)} {path : List Key} {b : β}
    (h : DistinctKeys entries)
    (hchange : ∀ {es es' : Entries} {b}, DistinctKeys es → change es = some (b, es') →
      DistinctKeys es')
    (hwithin : Toml.within? change path entries = some (b, entries')) : DistinctKeys entries' := by
  rw [Toml.within?.eq_def] at hwithin
  dsimp only at hwithin
  split at hwithin
  · exact hchange h hwithin
  · split at hwithin
    · rename_i hnone
      obtain ⟨⟨c, below⟩, -, hsome⟩ := Option.bind_eq_some_iff.mp hwithin
      obtain ⟨rfl, rfl⟩ := Prod.mk.inj (Option.some.inj hsome)
      exact h.append hnone
    · obtain ⟨⟨c, below⟩, -, hsome⟩ := Option.bind_eq_some_iff.mp hwithin
      obtain ⟨rfl, rfl⟩ := Prod.mk.inj (Option.some.inj hsome)
      exact h.replace
    · split at hwithin
      · obtain ⟨⟨c, below⟩, -, hsome⟩ := Option.bind_eq_some_iff.mp hwithin
        obtain ⟨rfl, rfl⟩ := Prod.mk.inj (Option.some.inj hsome)
        exact h.replace
      · contradiction
    · contradiction

theorem DistinctKeys.openSection {header : Header} (h : DistinctKeys root)
    (hopen : Toml.openSection header root = some (entries, root')) : DistinctKeys root' := by
  refine h.within? (fun {es es' b} hes hchange => ?_) hopen
  split at hchange
  · obtain ⟨-, rfl⟩ := Prod.mk.inj (Option.some.inj hchange)
    exact hes
  · rename_i hnone _
    obtain ⟨-, rfl⟩ := Prod.mk.inj (Option.some.inj hchange)
    exact hes.append hnone
  · obtain ⟨-, rfl⟩ := Prod.mk.inj (Option.some.inj hchange)
    exact hes
  · obtain ⟨-, rfl⟩ := Prod.mk.inj (Option.some.inj hchange)
    exact hes.filter _
  · contradiction

/-- What holds while the lines of a document are gathered: the root table has each key once, and so
have the entries in front of all headers, which are to become the root table. -/
structure Gathering (s : Section) (root : Entries) : Prop where
  front (h : s.header = none) : DistinctKeys s.entries
  root : DistinctKeys root

theorem Gathering.closeSection (h : Gathering s root)
    (hclose : Toml.closeSection s root = some root') : DistinctKeys root' := by
  rw [Toml.closeSection] at hclose
  split at hclose
  · rename_i hnone
    obtain rfl := Option.some.inj hclose
    exact h.front hnone
  · obtain ⟨⟨b, es⟩, hwithin, rfl⟩ := Option.map_eq_some_iff.mp hclose
    refine h.root.within? (fun {es es' b} hes hchange => ?_) hwithin
    split at hchange
    · rename_i hnone _
      obtain ⟨-, rfl⟩ := Prod.mk.inj (Option.some.inj hchange)
      exact hes.append hnone
    · obtain ⟨-, rfl⟩ := Prod.mk.inj (Option.some.inj hchange)
      exact hes.replace
    · contradiction

theorem Gathering.gather {ls : List Line} (h : Gathering s root)
    (hgather : Toml.gather ls s root = some entries) : DistinctKeys entries := by
  induction ls generalizing s root with
  | nil => exact h.closeSection hgather
  | cons l ls ih =>
    cases l with
    | assignment a =>
      obtain ⟨es, hassign, hrest⟩ := Option.bind_eq_some_iff.mp hgather
      refine ih ⟨fun hnone => ?_, h.root⟩ hrest
      exact (h.front (Option.map_eq_none_iff.mp hnone)).assign? hassign
    | header header =>
      obtain ⟨root', hclose, hopened⟩ := Option.bind_eq_some_iff.mp hgather
      obtain ⟨⟨es, root''⟩, hopen, hrest⟩ := Option.bind_eq_some_iff.mp hopened
      have hroot := (h.closeSection hclose).openSection hopen
      exact ih ⟨fun hnone => (Option.some_ne_none _ hnone).elim, hroot⟩ hrest

/-- A document has each key of its root table once. -/
theorem distinctKeys_of_parse? {document : List Char} (hparse : parse? document = some entries) :
    DistinctKeys entries := by
  obtain ⟨ls, -, hgather⟩ := Option.bind_eq_some_iff.mp hparse
  have hstart : Gathering ⟨none, []⟩ [] := ⟨fun _ => List.nodup_nil, List.nodup_nil⟩
  exact hstart.gather hgather

end RegressionGate.Toml
