import NatSpec.FileTree.Access
import NatSpec.Options
import NatSpec.Toml.Reader

/-!
The options in a project's file. They stand in its table `tool.soldocgen`; without the file or the
table the defaults hold.
-/

namespace NatSpec.ProjectFile

def fileName : String := "pyproject.toml"

def setting : Toml.Value → Setting
  | .text s => .text s
  | .flag b => .flag b
  | .other kindName => .other kindName
  | .array _ => .other "list"
  | .table _ => .other "dict"

/-- The options that a project's table of tables gives. -/
def optionsOf (document : Toml.Entries) : Except Failure Options :=
  match (document.get? "tool").getD (.table []) with
  | .table tools =>
    match Table.get? tools "soldocgen" with
    | none => .ok {}
    | some (.table entries) => Options.ofTable (entries.map fun (key, v) => (key, setting v))
    | some _ => Problem.optionsNotTable.fail
  | _ => .error (.fault .notRecord)

def load (t : FileTree) (root : Path) : Except Failure Options := do
  let path := root / fileName
  if !(← t.holds path) then .ok {}
  else
    match t.readBytes path with
    | .error (.refused reason at_) =>
      (Problem.unreadableOptions path.toString (.refused reason at_)).fail
    | .error fault => .error (.fault fault)
    | .ok content =>
      match Toml.read (← FileTree.decodeText content) with
      | .ok document => optionsOf document
      | .error .invalid => (Problem.unreadableOptions path.toString .notToml).fail
      | .error .longNumber => .error (.fault .badValue)
      | .error .deepNesting => .error (.fault .deepNesting)

end NatSpec.ProjectFile
