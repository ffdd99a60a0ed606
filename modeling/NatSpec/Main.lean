import NatSpec.CommandLine.Run
import NatSpec.FileTree.Snapshot

/-!
The command line. The arguments are those of the program; the project's files come as a snapshot on
one line of standard input. Messages go to the error channel; the changes of the files are written
to standard output as one line of JSON.
-/

open NatSpec

/-- The directory in which the snapshot is placed. -/
def projectPlace : Location := ["project"]

/-- Runs the program on the snapshot of a project. -/
def main (args : List String) : IO UInt32 := do
  let line ← (← IO.getStdin).getLine
  match Json.read line with
  | .ok (.obj entries) =>
    let before := (FileTree.empty projectPlace).withSnapshot entries
    let result := CommandLine.run args before
    IO.print result.out
    IO.eprint result.err
    IO.println (Json.obj (FileTree.changesBelow projectPlace before result.tree)).text
    return (result.status.getD 70).toUInt32
  | _ =>
    IO.eprintln "the snapshot on standard input is not a JSON object"
    return 64
