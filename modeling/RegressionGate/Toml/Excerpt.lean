import RegressionGate.Toml.Basic

/-! Messages about a place in a document: its line and column, the line itself, and marks under the
stretch that the message is about. -/

namespace RegressionGate.Toml

def byteLength (s : List Char) : Nat := s.foldr (fun c n => c.utf8Size + n) 0

def blanks (n : Nat) : List Char := List.replicate n ' '

/-- A message with an excerpt of the document. The marks are as many as the bytes of the stretch,
without going on behind its first line, and at least one. -/
def excerpt (document : List Char) (span : Span) (message : String) : String :=
  let start := document.length - span.startLeft
  let before := document.take start
  let line := (before.reverse.takeWhile (· ≠ '\n')).reverse
  let content := line ++ (document.drop start).takeWhile (· ≠ '\n')
  let number := toString (before.count '\n' + 1)
  let column := line.length
  let stretch := (document.drop start).take (span.startLeft - span.stopLeft)
  let marks := max 1 (min (byteLength stretch) (byteLength content - column))
  let gutter := blanks (number.length + 1)
  let underline := blanks (column + 1) ++ List.replicate marks '^'
  "TOML parse error at line " ++ number ++ ", column " ++ toString (column + 1) ++ "\n" ++
    String.ofList gutter ++ "|\n" ++
    number ++ " | " ++ String.ofList content ++ "\n" ++
    String.ofList gutter ++ "|" ++ String.ofList underline ++ "\n" ++ message ++ "\n"

end RegressionGate.Toml
