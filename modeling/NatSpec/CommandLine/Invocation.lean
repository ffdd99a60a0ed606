import NatSpec.CommandLine.Arguments
import NatSpec.Version

/-!
The commands of the program: generating documentation, compiling, and preparing compiler input. The
first argument names the command, and the others are read by its own grammar.
-/

namespace NatSpec.CommandLine

/-- How much a command says about its progress. -/
structure Loudness where
  verbose : Bool
  quiet : Bool
  deriving DecidableEq, Repr

inductive Invocation
  | docgen (root : String) (loudness : Loudness) (output : Option String) (clear : Bool)
      (artifacts : Option String) (strict : Bool)
  | compile (root : String) (loudness : Loudness) (command : Option String) (docgen : Bool)
  | prepareInput (input : String) (loudness : Loudness)
  deriving DecidableEq, Repr

def Invocation.loudness : Invocation → Loudness
  | docgen _ loudness .. | compile _ loudness .. | prepareInput _ loudness => loudness

def helpFlag : Flag := ⟨["-h", "--help"], .help⟩

/-- The switches for more and for less talk. -/
def loudnessFlags : List Flag :=
  [⟨["-v", "--verbose"], .switch⟩, ⟨["-q", "--quiet"], .switch⟩]

def mainGrammar : Grammar :=
  ⟨programName, [helpFlag, ⟨["--version"], .version⟩], "command", .command⟩

/-- The grammar of the command that generates documentation. -/
def docgenGrammar : Grammar :=
  ⟨programName ++ " docgen",
    helpFlag :: loudnessFlags ++ [⟨["-o", "--output"], .valued⟩, ⟨["--clear"], .switch⟩,
      ⟨["--artifacts"], .valued⟩, ⟨["--strict"], .switch⟩],
    "root", .optional⟩

def compileGrammar : Grammar :=
  ⟨programName ++ " compile",
    helpFlag :: loudnessFlags ++ [⟨["--command"], .valued⟩, ⟨["--docgen"], .switch⟩],
    "root", .optional⟩

/-- The grammar of the command that prepares compiler input. -/
def prepareGrammar : Grammar :=
  ⟨programName ++ " prepare-input", [helpFlag, ⟨["-q", "--quiet"], .switch⟩], "input", .required⟩

def commandNames : List String := ["docgen", "compile", "prepare-input"]

def grammarOf? (name : String) : Option Grammar :=
  if name = "docgen" then some docgenGrammar
  else if name = "compile" then some compileGrammar
  else if name = "prepare-input" then some prepareGrammar
  else none

def Invocation.of (name : String) (r : Reading) : Invocation :=
  let loudness : Loudness := ⟨r.has "--verbose", r.has "--quiet"⟩
  let slot := (r.slot.getD []).head?
  if name = "docgen" then
    .docgen (slot.getD ".") loudness (r.value? "--output") (r.has "--clear")
      (r.value? "--artifacts") (r.has "--strict")
  else if name = "compile" then
    .compile (slot.getD ".") loudness (r.value? "--command") (r.has "--docgen")
  else .prepareInput (slot.getD "") loudness

def Invocation.ofArguments (args : List String) : Except Stop Invocation := do
  let outer ← readArguments mainGrammar args
  let name := (outer.slot.getD []).head?.getD ""
  match grammarOf? name with
  | none =>
    mainGrammar.misuse ("argument command: invalid choice: " ++ Text.quoted name
      ++ " (choose from " ++ ", ".intercalate (commandNames.map Text.quoted) ++ ")")
  | some g =>
    let inner ← readArguments g ((outer.slot.getD []).drop 1)
    let extras := outer.extras ++ inner.extras
    if extras.isEmpty then .ok (.of name inner)
    else mainGrammar.misuse ("unrecognized arguments: " ++ " ".intercalate extras)

end NatSpec.CommandLine
