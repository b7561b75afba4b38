import RegressionGate.Program
import RegressionGate.Tree.Listing

/-! The command line. The file tree to look at comes as a listing on standard input, because the
program itself sees a tree as a value. -/

namespace RegressionGate.Main

/-- The lines of a stream up to its end, without their line ends. -/
partial def lines (stream : IO.FS.Stream) (done : Array String) : IO (List String) := do
  let line ← stream.getLine
  if line.isEmpty then return done.toList
  lines stream (done.push (line.trimAsciiEnd.toString))

end RegressionGate.Main

/-- Runs the program on the arguments and on the tree listed on standard input. -/
def main (arguments : List String) : IO UInt32 := do
  let listing ← RegressionGate.Main.lines (← IO.getStdin) #[]
  let outcome := RegressionGate.runProgram arguments (.ofListing listing)
  (← IO.getStdout).putStr outcome.output
  (← IO.getStderr).putStr outcome.errors
  return outcome.exitCode.toUInt32
