import RegressionGate.Text.Hexadecimal
import RegressionGate.Tree.Change

/-! Listings of file trees: one change a line, its kind followed by its paths and content in
hexadecimal, so that any bytes can stand there.

    dir <path>
    file <path> <content>
    link <path> <target>
    remove <path>
-/

namespace RegressionGate

def Change.ofLine? (line : String) : Option Change := do
  match line.splitOn " " with
  | ["dir", path] => some (.makeDirectory ⟨← Text.hexBytes? path.toList⟩)
  | ["file", path, content] =>
    some (.write ⟨← Text.hexBytes? path.toList⟩ (← Text.hexBytes? content.toList))
  | ["link", path, target] =>
    some (.makeLink ⟨← Text.hexBytes? path.toList⟩ ⟨← Text.hexBytes? target.toList⟩)
  | ["remove", path] => some (.remove ⟨← Text.hexBytes? path.toList⟩)
  | _ => none

namespace Tree

/-- The tree after a change, or as it was when the change cannot be made. -/
def change (t : Tree) (change : Change) : Tree := (t.changed? change).getD t

/-- The tree that the lines of a listing build up in an empty working directory; lines that spell
no change are passed over. -/
def ofListing (lines : List String) : Tree :=
  (lines.filterMap Change.ofLine?).foldl change (emptyAt [Utf8.encode "work"])

end Tree

end RegressionGate
