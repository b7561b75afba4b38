import RegressionGate.Lexicographic
import RegressionGate.Tree.Path

/-! The paths of the files in one directory: each ends in the component of its name, so the name can
be read back from it, and the order of the paths is the byte order of the names. The steps that a
joined path spells are those of its parts. -/

namespace RegressionGate

namespace Path

theorem pieces_ne_nil (bytes : Bytes) : pieces bytes ≠ [] := by
  cases bytes with
  | nil => simp [pieces]
  | cons b r =>
    rw [pieces]
    split
    · simp
    · split <;> simp

theorem pieces_append (a b : Bytes) : pieces (a ++ separator :: b) = pieces a ++ pieces b := by
  induction a with
  | nil => simp [pieces]
  | cons c a ih =>
    rw [List.cons_append, pieces, pieces, ih]
    split
    · rfl
    · cases h : pieces a with
      | nil => exact absurd h (pieces_ne_nil a)
      | cons p ps => rfl

theorem pieces_of_notMem {bytes : Bytes} (h : separator ∉ bytes) : pieces bytes = [bytes] := by
  induction bytes with
  | nil => rfl
  | cons b r ih =>
    rw [List.mem_cons, not_or] at h
    rw [pieces, if_neg (Ne.symm h.1), ih h.2]

theorem filterMap_pieces_nil : (pieces []).filterMap step? = [] := rfl

end Path

namespace FileName

variable (name : FileName)

theorem separator_notMem : Path.separator ∉ name.bytes := name.isFileName.2.1

theorem step?_bytes : Path.step? name.bytes = some (.down name) := by
  obtain ⟨-, -, hdot, hdots⟩ := name.isFileName
  simp [Path.step?, hdot, hdots, ofBytes?, name.isFileName]

theorem not_isAbsolute : ¬(⟨name.bytes⟩ : Path).IsAbsolute := fun h =>
  name.separator_notMem (List.mem_of_mem_head? h)

end FileName

namespace Path

/-- A name in a directory adds one piece to the pieces of the directory's path, of which an empty
last one is lost. -/
theorem pieces_child {base : Path} (h : base.bytes ≠ []) (name : FileName) :
    ∃ front last, front ≠ [] ∧ last.filterMap step? = [] ∧ pieces base.bytes = front ++ last ∧
      pieces (base.child name).bytes = front ++ [name.bytes] := by
  have hname := pieces_of_notMem name.separator_notMem
  rw [child, join, if_neg name.not_isAbsolute]
  by_cases hend : base.bytes.getLast? = some separator
  · obtain ⟨front, hfront⟩ := List.getLast?_eq_some_iff.mp hend
    refine ⟨pieces front, [[]], pieces_ne_nil front, rfl, ?_, ?_⟩
    · rw [hfront, pieces_append]
      rfl
    · rw [if_pos (.inr hend)]
      simp only [hfront]
      rw [List.append_assoc, List.singleton_append, pieces_append, hname]
  · refine ⟨pieces base.bytes, [], pieces_ne_nil _, rfl, by simp, ?_⟩
    rw [if_neg (by simp [h, hend])]
    simp only
    rw [pieces_append, hname]

theorem isAbsolute_child {base : Path} (h : base.bytes ≠ []) (name : FileName) :
    (base.child name).IsAbsolute ↔ base.IsAbsolute := by
  obtain ⟨b, r, hb⟩ := List.exists_cons_of_ne_nil h
  rw [child, join, if_neg name.not_isAbsolute]
  split <;> simp [IsAbsolute, hb]

theorem components_child (base : Path) (name : FileName) :
    (base.child name).components = base.components ++ [.step (.down name)] := by
  by_cases h : base.bytes = []
  · have hbytes : (base.child name).bytes = name.bytes := by
      rw [child, join, if_neg name.not_isAbsolute, if_pos (.inl h), h]
      rfl
    have habs : ¬(base.child name).IsAbsolute := by
      rw [IsAbsolute, hbytes]
      exact name.not_isAbsolute
    have hdot : name.bytes ≠ [0x2e] := name.isFileName.2.2.1
    rw [components, components, if_neg habs, h, filterMap_pieces_nil]
    simp [hbytes, pieces_of_notMem name.separator_notMem, name.step?_bytes, hdot, h, IsAbsolute,
      pieces]
  · obtain ⟨front, last, hfront, hlast, hbase, hchild⟩ := pieces_child h name
    have hhead : (front ++ last).head? = (front ++ [name.bytes]).head? := by
      obtain ⟨p, ps, rfl⟩ := List.exists_cons_of_ne_nil hfront
      rfl
    rw [components, components]
    simp [isAbsolute_child h, hbase, hchild, hhead, hlast, name.step?_bytes]

theorem fileName?_child (base : Path) (name : FileName) :
    (base.child name).fileName? = some name := by
  rw [fileName?, components_child, List.getLast?_append]
  rfl

/-! ### Steps -/

/-- The steps that a path spells, whether or not it ends in a separator. -/
def spelled (p : Path) : List Step := (pieces p.bytes).filterMap step?

theorem isAbsolute_join {base part : Path} (h : ¬part.IsAbsolute) :
    (base.join part).IsAbsolute ↔ base.IsAbsolute := by
  rw [join, if_neg h]
  split
  · rename_i hbase
    rcases hbase with hbase | hbase
    · simpa [IsAbsolute, hbase] using h
    · obtain ⟨front, hfront⟩ := List.getLast?_eq_some_iff.mp hbase
      cases front <;> simp [IsAbsolute, hfront]
  · rename_i hbase
    obtain ⟨b, r, hb⟩ := List.exists_cons_of_ne_nil (not_or.mp hbase).1
    simp [IsAbsolute, hb]

theorem spelled_join {base part : Path} (h : ¬part.IsAbsolute) :
    (base.join part).spelled = base.spelled ++ part.spelled := by
  rw [join, if_neg h, spelled, spelled, spelled]
  split
  · rename_i hbase
    rcases hbase with hbase | hbase
    · rw [hbase, filterMap_pieces_nil]
      rfl
    · obtain ⟨front, hfront⟩ := List.getLast?_eq_some_iff.mp hbase
      rw [hfront, List.append_assoc, List.singleton_append, pieces_append, pieces_append,
        List.filterMap_append, List.filterMap_append, filterMap_pieces_nil, List.append_nil]
  · simp [pieces_append]

theorem spelled_child (base : Path) (name : FileName) :
    (base.child name).spelled = base.spelled ++ [.down name] := by
  rw [child, spelled_join name.not_isAbsolute, spelled, spelled,
    pieces_of_notMem name.separator_notMem]
  simp [name.step?_bytes]

/-- The path of a file in a directory is the directory's, extended by the name at least. -/
theorem bytes_child (base : Path) (name : FileName) :
    ∃ link, (base.child name).bytes = base.bytes ++ (link ++ name.bytes) := by
  rw [child, join, if_neg name.not_isAbsolute]
  split
  · exact ⟨[], rfl⟩
  · exact ⟨[separator], rfl⟩

theorem getLast?_child (base : Path) (name : FileName) :
    (base.child name).bytes.getLast? ≠ some separator := by
  obtain ⟨link, hbytes⟩ := bytes_child base name
  have hlast := List.getLast?_eq_some_getLast name.isFileName.1
  rw [hbytes, List.getLast?_append, List.getLast?_append, hlast]
  intro h
  exact name.separator_notMem (Option.some.inj h ▸ List.getLast_mem name.isFileName.1)

theorem steps_child (base : Path) (name : FileName) :
    (base.child name).steps = base.spelled ++ [.down name] := by
  rw [← spelled_child, steps, if_neg (getLast?_child base name), List.append_nil]
  rfl

end Path

namespace Component

theorem lt_irrefl (a : Component) : ¬a < a :=
  Lexicographic.irrefl Nat.lt_irrefl List.lt_irrefl (a.rank, a.bytes)

theorem down_lt_down {a b : FileName} :
    (step (.down a) : Component) < step (.down b) ↔ a.bytes < b.bytes := by
  constructor
  · rintro (h | ⟨-, h⟩)
    · exact absurd h (Nat.lt_irrefl 3)
    · exact h
  · intro h
    exact .inr ⟨rfl, h⟩

theorem append_lt_append {front : List Component} {a b : Component} :
    front ++ [a] < front ++ [b] ↔ a < b := by
  induction front with
  | nil => simp [List.cons_lt_cons_iff]
  | cons c front ih => simp [List.cons_lt_cons_iff, lt_irrefl, ih]

end Component

/-- Files in one directory are ordered by the bytes of their names. -/
theorem Path.child_le_child {base : Path} {a b : FileName} :
    base.child a ≤ base.child b ↔ a.bytes ≤ b.bytes := by
  show ¬(base.child b).components < (base.child a).components ↔ ¬b.bytes < a.bytes
  rw [components_child, components_child, Component.append_lt_append, Component.down_lt_down]

end RegressionGate
