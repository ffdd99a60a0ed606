import NatSpec.CommandLine.Invocation
import NatSpec.Compile
import NatSpec.CompilerInput
import NatSpec.ProjectFile

/-!
Running the program. Progress and warnings are written to the error channel, a line each, unless the
user wants quiet. A problem is reported and gives the status one; misuse of the command line gives
the status two.
-/

namespace NatSpec.CommandLine

/-- The file tree and what has been written to the error channel. -/
structure Console where
  tree : FileTree
  lines : List String
  deriving Inhabited

/-- A run that writes to the error channel. -/
abbrev Talking := ExceptT Failure (StateM Console)

/-- A run on the file tree as part of one that talks. -/
instance : MonadLift Run Talking where
  monadLift x := fun c =>
    let (result, tree) := x c.tree
    (result, { c with tree := tree })

def say (line : String) : Talking Unit :=
  modifyThe Console fun c => { c with lines := c.lines ++ [line] }

/-- Writes a message unless the user wants quiet. -/
def log (l : Loudness) (message : String) : Talking Unit := do
  if !l.quiet then say ("[" ++ programName ++ "] " ++ message)

/-- Writes a detail if the user wants details. -/
def logDetail (l : Loudness) (message : String) : Talking Unit := do
  if l.verbose && !l.quiet then say ("  " ++ message)

/-- Writes what a documentation run has done. -/
def logReport (l : Loudness) (r : Report) : Talking Unit := do
  for (name, doc) in r.docs.sorted do
    let count ← (doc.memberCount : Except Fault Nat)
    logDetail l (name ++ ": " ++ toString count ++ " members")
  for warning in r.warnings do
    log l ("Warning: " ++ warning)
  log l ("Documented " ++ toString r.docs.length ++ " contract(s) in " ++ r.output.toString)
  logDetail l (toString r.written.length ++ " file(s) written")

def resolvedRoot (root : String) : Run Path := do
  return .ofTop (← (← get).resolve (Path.ofString root))

/-- An override that is given or not. -/
def overrideWith (o : Options) (name : OptionName) (text : Option String) : Options :=
  match text with
  | some s => o.set name (.str s)
  | none => o

def perform : Invocation → Talking Unit
  | .prepareInput input l => do
    let _ ← (CompilerInput.patch (Path.ofString input) : Run (Json Utf16))
    log l ("Requested devdoc/userdoc in " ++ input)
  | .docgen root l output clear artifacts strict => do
    let place ← (resolvedRoot root : Run Path)
    let options ← (ProjectFile.load (← getThe Console).tree place : Except Failure Options)
    let options := overrideWith (overrideWith options .path output) .artifacts artifacts
    let options := if clear then options.set .clear (.bool true) else options
    log l "Generating documentation..."
    logDetail l ("Artifacts: " ++ (place / options.artifacts.display).toString)
    logReport l (← (runDocgen place options none {} strict : Run Report))
  | .compile root l command docgen => do
    let place ← (resolvedRoot root : Run Path)
    let options ← (ProjectFile.load (← getThe Console).tree place : Except Failure Options)
    let line := (Json.str (command.getD "")).orElse options.compileCommand
    log l ("Compiling: " ++ line.display)
    let report ← (Compile.run place.toString options line.asText?
      (if docgen then some true else none) : Run (Option Report))
    match report with
    | none => log l "Compiled (documentation not requested)"
    | some r => logReport l r

/-- What the program has written, and its status; there is none if a fault ends it. -/
structure Result where
  status : Option Nat
  out : String
  err : String
  tree : FileTree

def problemLines (l : Loudness) (p : Problem) : List String :=
  ("Error: " ++ p.message) ::
    (if l.verbose then p.cause?.toList.map fun f => "  Caused by: " ++ f.shown else [])

def textOf (lines : List String) : String :=
  String.join (lines.map (· ++ "\n"))

def run (args : List String) (tree : FileTree) : Result :=
  match Invocation.ofArguments args with
  | .error (.misuse program message) =>
    ⟨some 2, "", program ++ ": error: " ++ message ++ "\n", tree⟩
  | .error .showVersion => ⟨some 0, programName ++ " " ++ programVersion ++ "\n", "", tree⟩
  | .error .showHelp => ⟨some 0, "", "", tree⟩
  | .ok invocation =>
    match perform invocation ⟨tree, []⟩ with
    | (.ok _, c) => ⟨some 0, "", textOf c.lines, c.tree⟩
    | (.error (.problem p), c) =>
      ⟨some 1, "", textOf (c.lines ++ problemLines invocation.loudness p), c.tree⟩
    | (.error (.fault _), c) => ⟨none, "", textOf c.lines, c.tree⟩

end NatSpec.CommandLine
