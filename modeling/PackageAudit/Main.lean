/-
PackageAudit.Main — the program.

The words of the command line ask for an audit. A snapshot of the world
stands on the standard input, and the outcome is written to the standard
output as a document. The exit code is that of the outcome.
-/
import PackageAudit.CommandLine.Snapshot

namespace PackageAudit.CommandLine

/-- Reads a stream to its end, line by line. -/
partial def readLines (input : IO.FS.Stream) (before : String) : IO String := do
  let line ← input.getLine
  if line.isEmpty then return before
  readLines input (before ++ line)

/-- Runs the words of a command line on the snapshot that the input holds. -/
def runOnInput (line : List String) : IO UInt32 := do
  match Snapshot.read (← readLines (← IO.getStdin) "") with
  | .error e =>
    (← IO.getStderr).putStrLn ("The snapshot cannot be read: " ++ e.message)
    return 1
  | .ok world =>
    let outcome := run world line
    (← IO.getStdout).putStrLn outcome.toJson.indented
    return outcome.exitCode.toUInt32

end PackageAudit.CommandLine

/-- The program. -/
def main (line : List String) : IO UInt32 := PackageAudit.CommandLine.runOnInput line
