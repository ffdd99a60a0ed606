import NatSpec.Docgen
import NatSpec.Shell.Run
import NatSpec.Shell.Words
import NatSpec.Text.Blank

/-!
The compile step: an external command is run in the root of a project, and if it succeeds and
documentation is asked for, a documentation run follows. The command line is split into words but
not expanded. The output of a failing command is shown, that on the error channel before the other.
-/

namespace NatSpec.Compile

/-- Why a word that names no known program cannot be run: no such file, or nothing to execute. -/
def refusal (tree : FileTree) (word : String) : Failure :=
  if word.toList.contains '/' then
    match tree.status (Path.ofString word) with
    | .error .notFound => .problem (.commandNotFound word)
    | .error reason => .fault (.refused reason word)
    | .ok _ => .fault (.refused .notPermitted word)
  else if word = "" ∨ word = "." ∨ word = ".." then .fault (.refused .notPermitted word)
  else if FileTree.maxName < word.utf8ByteSize then .fault (.refused .nameTooLong word)
  else .problem (.commandNotFound word)

/-- The location of the directory in which a command runs. -/
def workingPlace (tree : FileTree) (root program : String) : Except Failure Location :=
  if root = "" then (Problem.commandNotFound program).fail
  else
    match tree.locate true (Path.ofString root) with
    | .ok (place, some .directory) => .ok place
    | .ok (_, none) | .error .notFound => (Problem.commandNotFound program).fail
    | .ok (_, some _) => .error (.fault (.refused .notDirectory root))
    | .error reason => .error (.fault (.refused reason root))

/-- What is shown of the output of a command if it fails. All output has to be text. -/
def shownOutput (outcome : Shell.Outcome) : Except Fault String := do
  let out := Text.withLineFeeds (← FileTree.decodeText outcome.out)
  let err := Text.withLineFeeds (← FileTree.decodeText outcome.err)
  .ok (Text.trim (if err ≠ "" then err else out))

def runCommand (root : String) (program : String) (args : List String) : Run Unit := do
  let tree ← get
  if (program :: args).any fun word => word.toList.contains '\x00' then throw (.fault .badValue)
  let place ← (workingPlace tree root program : Except Failure Location)
  let inside := { tree with here := place }
  match Shell.runProcess? program args inside with
  | none => throw (refusal inside program)
  | some outcome =>
    set { outcome.tree with here := tree.here }
    let shown ← (shownOutput outcome : Except Fault String)
    if outcome.ending.code ≠ 0 then
      throw (.problem (.commandFailed outcome.ending.code shown))

def wordsOf (line : Json) : Except Failure (List String) :=
  match line with
  | .str text =>
    match Shell.words? text with
    | some words => .ok words
    | none => .error (.fault .badValue)
  | _ => .error (.fault .notRecord)

/-- Runs the compile command of a project and, if asked for, a documentation run. -/
def run (root : String) (options : Options) (command : Option String) (docgen : Option Bool) :
    Run (Option Report) := do
  let line := (Json.str (command.getD "")).orElse options.compileCommand
  match ← (wordsOf line : Except Failure (List String)) with
  | [] => throw (.problem .emptyCommand)
  | program :: args =>
    runCommand root program args
    if docgen.getD options.runOnCompile.truthy then
      return some (← runDocgen (Path.ofString root) options none {} false)
    else return none

end NatSpec.Compile
