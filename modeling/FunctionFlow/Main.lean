import FunctionFlow.CommandLine.Report
import FunctionFlow.Project.Snapshot

/-!
Contract: the command line program.

The log and the error go to standard error, and new files into the working directory.
-/

namespace FunctionFlow

partial def readAll (stream : IO.FS.Stream) (soFar : String) : IO String := do
  let line ← stream.getLine
  if line.isEmpty then return soFar else readAll stream (soFar ++ line)

def Report.deliver (report : Report) (before : FileTree) : IO UInt32 := do
  IO.print report.output
  report.log.forM IO.eprintln
  for (path, content) in report.files.changesSince before do
    IO.FS.writeBinFile path content.bytes
  match report.error with
  | some error => IO.eprintln s!"Error: {error}"
  | none => pure ()
  return report.code.toUInt32

end FunctionFlow

open FunctionFlow in
def main (arguments : List String) : IO UInt32 := do
  let document ← readAll (← IO.getStdin) ""
  match (FunctionFlow.Json.parse? document).bind FileTree.ofJson? with
  | some files => (Report.ofArguments arguments files).deliver files
  | none =>
    IO.eprintln "Error: standard input does not hold the files of a project"
    return 1
