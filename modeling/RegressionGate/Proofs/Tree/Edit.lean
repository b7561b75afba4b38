import RegressionGate.Proofs.Tree.Walk
import RegressionGate.Tree.Change

/-! Edits of a tree. What is put at a place or removed from it leaves the files as they are that do
not lie there, and a file whose content is replaced is found where it was. -/

namespace RegressionGate

namespace Node

variable {n node : Node} {p q : Place}

/-- The content of the file at a place. -/
def content? (n : Node) (p : Place) : Option Bytes :=
  match n.at? p with
  | some (.file content) => some content
  | _ => none

theorem content?_eq_some_iff {content : Bytes} :
    n.content? p = some content ↔ n.at? p = some (.file content) := by
  rw [content?]
  split
  · rename_i other h
    rw [h, Option.some.injEq, Option.some.injEq, file.injEq]
  · rename_i h
    exact iff_of_false nofun (h content)

theorem content?_directory {entries : List (FileName × Node)}
    (h : n.at? p = some (.directory entries)) : n.content? p = none := by
  rw [content?, h]

theorem lookup_cons_eq_ite (other : FileName) (e : FileName × Node)
    (entries : List (FileName × Node)) :
    (e :: entries).lookup other = if other = e.1 then some e.2 else entries.lookup other := by
  rw [List.lookup_cons]
  by_cases h : other = e.1
  · rw [beq_iff_eq.mpr h, if_pos h]
  · rw [beq_false_of_ne h, if_neg h]

theorem lookup_setEntry (name other : FileName) (node : Node) (entries : List (FileName × Node)) :
    (setEntry name node entries).lookup other =
      if other = name then some node else entries.lookup other := by
  induction entries with
  | nil => rw [setEntry, lookup_cons_eq_ite]
  | cons e entries ih =>
    obtain ⟨old, child⟩ := e
    rw [setEntry]
    by_cases hold : old = name
    · subst hold
      rw [if_pos rfl, lookup_cons_eq_ite, lookup_cons_eq_ite]
      split <;> rfl
    · rw [if_neg hold, lookup_cons_eq_ite, ih, lookup_cons_eq_ite]
      by_cases h : other = old
      · subst h
        rw [if_pos rfl, if_neg hold, if_pos rfl]
      · rw [if_neg h, if_neg h]

theorem lookup_erase (name other : FileName) (entries : List (FileName × Node)) :
    (entries.filter fun e => decide (e.1 ≠ name)).lookup other =
      if other = name then none else entries.lookup other := by
  induction entries with
  | nil => simp
  | cons e entries ih =>
    rw [List.filter_cons]
    by_cases hold : e.1 = name
    · rw [if_neg (by simp [hold]), ih, lookup_cons_eq_ite, hold]
      split <;> rfl
    · rw [if_pos (by simp [hold]), lookup_cons_eq_ite, ih, lookup_cons_eq_ite]
      by_cases h : other = e.1
      · subst h
        rw [if_pos rfl, if_neg hold, if_pos rfl]
      · rw [if_neg h, if_neg h]

theorem at?_directory_cons (entries : List (FileName × Node)) (name : FileName) (p : Place) :
    (directory entries).at? (name :: p) = (entries.lookup name).bind fun c => c.at? p := rfl

/-! ### One edit -/

/-- After something is put at `p`, it is there with all that it holds, or else the place `q` is as
it was, or else it is a directory above `p`, perhaps a new one. -/
theorem at?_put (n : Node) (p : Place) (node : Node) (q : Place) :
    (∃ r, q = p ++ r ∧ (n.put p node).at? q = node.at? r) ∨
      (n.put p node).at? q = n.at? q ∨
      (∃ r, r ≠ [] ∧ p = q ++ r) ∧ (∃ entries, (n.put p node).at? q = some (.directory entries)) ∧
        (n.at? q = none ∨ ∃ entries, n.at? q = some (.directory entries)) := by
  induction p generalizing n q with
  | nil => exact .inl ⟨q, rfl, by cases n <;> rfl⟩
  | cons name p ih =>
    cases n with
    | file content => exact .inr (.inl rfl)
    | link target => exact .inr (.inl rfl)
    | directory entries =>
      cases q with
      | nil => exact .inr (.inr ⟨⟨name :: p, List.cons_ne_nil _ _, rfl⟩, ⟨_, rfl⟩, .inr ⟨_, rfl⟩⟩)
      | cons other q =>
        rw [put, at?_directory_cons, at?_directory_cons, lookup_setEntry]
        by_cases h : other = name
        · subst h
          rw [if_pos rfl, Option.bind_some]
          cases hlookup : entries.lookup other with
          | some child =>
            rcases ih child q with ⟨r, rfl, hr⟩ | hsame | ⟨⟨r, hr, rfl⟩, hnew, hold⟩
            · exact .inl ⟨r, rfl, hr⟩
            · exact .inr (.inl hsame)
            · exact .inr (.inr ⟨⟨r, hr, rfl⟩, hnew, hold⟩)
          | none =>
            -- The directories down to `p` are made, and nothing was below the first of them.
            rcases ih (directory []) q with ⟨r, rfl, hr⟩ | hsame | ⟨⟨r, hr, rfl⟩, hnew, -⟩
            · exact .inl ⟨r, rfl, hr⟩
            · cases q with
              | cons next q => exact .inr (.inl hsame)
              | nil =>
                cases p with
                | nil => exact .inl ⟨[], rfl, rfl⟩
                | cons next p =>
                  exact .inr (.inr ⟨⟨next :: p, List.cons_ne_nil _ _, rfl⟩, ⟨_, hsame⟩, .inl rfl⟩)
            · exact .inr (.inr ⟨⟨r, hr, rfl⟩, hnew, .inl rfl⟩)
        · rw [if_neg h]
          exact .inr (.inl rfl)

theorem at?_put_self (h : (n.at? p).isSome) (node : Node) : (n.put p node).at? p = some node := by
  induction p generalizing n with
  | nil => cases n <;> rfl
  | cons name p ih =>
    cases n with
    | file content => contradiction
    | link target => contradiction
    | directory entries =>
      rw [at?_directory_cons] at h
      rw [put, at?_directory_cons, lookup_setEntry, if_pos rfl, Option.bind_some]
      cases hlookup : entries.lookup name with
      | none =>
        rw [hlookup] at h
        contradiction
      | some child =>
        rw [hlookup] at h
        exact ih h

/-- After the removal of what is at `p`, nothing is there, and any other place is as it was or is a
directory that has lost something. -/
theorem at?_delete (n : Node) (p q : Place) :
    (∃ r, q = p ++ r) ∧ (n.delete p).at? q = none ∨ (n.delete p).at? q = n.at? q ∨
      (∃ entries, (n.delete p).at? q = some (.directory entries)) ∧
        ∃ entries, n.at? q = some (.directory entries) := by
  induction p generalizing n q with
  | nil => exact .inr (.inl rfl)
  | cons name p ih =>
    cases n with
    | file content => exact .inr (.inl (by cases p <;> rfl))
    | link target => exact .inr (.inl (by cases p <;> rfl))
    | directory entries =>
      cases p with
      | nil =>
        cases q with
        | nil => exact .inr (.inr ⟨⟨_, rfl⟩, ⟨_, rfl⟩⟩)
        | cons other q =>
          rw [delete, at?_directory_cons, at?_directory_cons, lookup_erase]
          by_cases h : other = name
          · subst h
            exact .inl ⟨⟨q, rfl⟩, by rw [if_pos rfl]; rfl⟩
          · rw [if_neg h]
            exact .inr (.inl rfl)
      | cons next p =>
        rw [delete.eq_def]
        simp only
        cases hlookup : entries.lookup name with
        | none => exact .inr (.inl rfl)
        | some child =>
          cases q with
          | nil => exact .inr (.inr ⟨⟨_, rfl⟩, ⟨_, rfl⟩⟩)
          | cons other q =>
            rw [at?_directory_cons, at?_directory_cons, lookup_setEntry]
            by_cases h : other = name
            · subst h
              rw [if_pos rfl, hlookup, Option.bind_some, Option.bind_some]
              rcases ih child q with ⟨⟨r, rfl⟩, hnone⟩ | hsame | hdirectories
              · exact .inl ⟨⟨r, rfl⟩, hnone⟩
              · exact .inr (.inl hsame)
              · exact .inr (.inr hdirectories)
            · rw [if_neg h]
              exact .inr (.inl rfl)

/-! ### Files -/

theorem content?_put (h : ¬p <+: q) : (n.put p node).content? q = n.content? q := by
  rcases n.at?_put p node q with ⟨r, rfl, -⟩ | hsame | ⟨-, ⟨entries, hnew⟩, hold⟩
  · exact absurd (List.prefix_append p r) h
  · rw [content?, hsame, content?]
  · rw [content?_directory hnew]
    rcases hold with hold | ⟨old, hold⟩
    · rw [content?, hold]
    · rw [content?_directory hold]

theorem content?_delete (h : ¬p <+: q) : (n.delete p).content? q = n.content? q := by
  rcases n.at?_delete p q with ⟨⟨r, rfl⟩, -⟩ | hsame | ⟨⟨entries, hnew⟩, old, hold⟩
  · exact absurd (List.prefix_append p r) h
  · rw [content?, hsame, content?]
  · rw [content?_directory hnew, content?_directory hold]

/-- Nothing is below a file. -/
theorem at?_below_file {content : Bytes} (h : n.at? p = some (.file content)) {r : Place}
    (hr : r ≠ []) : n.at? (p ++ r) = none := by
  obtain ⟨name, r, rfl⟩ := List.exists_cons_of_ne_nil hr
  rw [at?_append, h]
  rfl

/-- Writing a file anew leaves every other place as it was, but for what the directories above it
hold. -/
theorem at?_put_file {old : Bytes} (h : n.at? p = some (.file old)) (new : Bytes) (hq : q ≠ p) :
    (n.put p (.file new)).at? q = n.at? q ∨
      (∃ entries, (n.put p (.file new)).at? q = some (.directory entries)) ∧
        ∃ entries, n.at? q = some (.directory entries) := by
  rcases n.at?_put p (.file new) q with ⟨r, rfl, hr⟩ | hsame | ⟨⟨r, hr, rfl⟩, hnew, -⟩
  · have hne : r ≠ [] := by
      rintro rfl
      exact hq (List.append_nil p)
    obtain ⟨name, r, rfl⟩ := List.exists_cons_of_ne_nil hne
    exact .inl (hr.trans (at?_below_file h hne).symm)
  · exact .inl hsame
  · exact .inr ⟨hnew, directory_of_at?_append h hr⟩

theorem content?_put_file {old : Bytes} (h : n.at? p = some (.file old)) (new : Bytes) (q : Place) :
    (n.put p (.file new)).content? q = if q = p then some new else n.content? q := by
  split
  · rename_i hq
    rw [hq, content?, at?_put_self (by rw [h, Option.isSome_some])]
  · rename_i hq
    rcases at?_put_file h new hq with hsame | ⟨⟨entries, hnew⟩, old, hold⟩
    · rw [content?, hsame, content?]
    · rw [content?_directory hnew, content?_directory hold]

theorem directory_put_file {old : Bytes} (h : n.at? p = some (.file old)) (new : Bytes)
    (q : Place) :
    (∃ entries, (n.put p (.file new)).at? q = some (.directory entries)) ↔
      ∃ entries, n.at? q = some (.directory entries) := by
  by_cases hq : q = p
  · rw [hq, at?_put_self (by rw [h, Option.isSome_some]), h]
    simp
  · rcases at?_put_file h new hq with hsame | ⟨hnew, hold⟩
    · rw [hsame]
    · exact iff_of_true hnew hold

theorem isSome_put_file {old : Bytes} (h : n.at? p = some (.file old)) (new : Bytes) (q : Place) :
    ((n.put p (.file new)).at? q).isSome ↔ (n.at? q).isSome := by
  by_cases hq : q = p
  · rw [hq, at?_put_self (by rw [h, Option.isSome_some]), h]
    simp
  · rcases at?_put_file h new hq with hsame | ⟨⟨entries, hnew⟩, old, hold⟩
    · rw [hsame]
    · rw [hnew, hold]
      simp

theorem LinkFree.put (h : n.LinkFree) (hnode : node.LinkFree) (p : Place) :
    (n.put p node).LinkFree := by
  intro q target hlink
  rcases n.at?_put p node q with ⟨r, -, hr⟩ | hsame | ⟨-, ⟨entries, hnew⟩, -⟩
  · exact hnode r target (hr ▸ hlink)
  · exact h q target (hsame ▸ hlink)
  · rw [hnew] at hlink
    simp at hlink

/-- Writing a file anew leaves all ways through a tree as they were. -/
theorem passes_put_file {old : Bytes} (h : n.at? p = some (.file old)) (new : Bytes) {place : Place}
    {steps : List Step} : (n.put p (.file new)).Passes place steps ↔ n.Passes place steps := by
  induction steps generalizing place with
  | nil => rfl
  | cons step steps ih =>
    rw [Passes, Passes, ih, Admits, Admits, directory_put_file h]
    simp only [isSome_put_file h]

end Node

/-- An edit of a tree: something is put at a place, to which directories are made as needed, or what
is at a place is removed. -/
inductive Edit
  | put (place : Place) (node : Node)
  | delete (place : Place)

def Edit.place : Edit → Place
  | put place _ | delete place => place

namespace Tree

variable {t : Tree} {e : Edit} {p : Path} {place : Place}

def edit (t : Tree) : Edit → Tree
  | .put place node => { t with root := t.root.put place node }
  | .delete place => { t with root := t.root.delete place }

@[simp] theorem workingDirectory_edit (t : Tree) (e : Edit) :
    (t.edit e).workingDirectory = t.workingDirectory := by
  cases e <;> rfl

/-- The files that do not lie at the place of an edit or below it stay as they are. -/
theorem content?_edit {q : Place} (h : ¬e.place <+: q) :
    (t.edit e).root.content? q = t.root.content? q := by
  cases e with
  | put place node => exact Node.content?_put h
  | delete place => exact Node.content?_delete h

theorem placeOf_congr {t' : Tree} (h : t'.workingDirectory = t.workingDirectory) (p : Path) :
    t'.placeOf p = t.placeOf p := by
  rw [placeOf, placeOf, start, start, h]

theorem isDirectory_put_file {old : Bytes} (hlinks : t.root.LinkFree)
    (h : t.root.at? place = some (.file old)) (new : Bytes) :
    (t.edit (.put place (.file new))).isDirectory p ↔ t.isDirectory p := by
  have hlinks' : (t.edit (.put place (.file new))).root.LinkFree :=
    hlinks.put Node.linkFree_file place
  have hstart : (t.edit (.put place (.file new))).start p = t.start p := rfl
  have hplace : (t.edit (.put place (.file new))).placeOf p = t.placeOf p := rfl
  simp only [isDirectory_iff, find_eq_ok_iff hlinks, find_eq_ok_iff hlinks', hstart, hplace]
  simp only [edit, Node.passes_put_file h, exists_and_left, Node.directory_put_file h]

end Tree

end RegressionGate
