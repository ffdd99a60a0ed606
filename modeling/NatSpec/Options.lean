import NatSpec.Json.Equality
import NatSpec.Problem

/-!
The options of a documentation run. They have defaults, are set by a table of the project's file,
and are overridden by the command line. In a table, dashes in the name of an option count as
underscores, the last spelling of an option wins, and a value must have the kind of its option.
-/

namespace NatSpec

inductive OptionName
  | path
  | clear
  | runOnCompile
  | artifacts
  | compileCommand
  deriving DecidableEq, Repr

inductive OptionKind
  | text
  | flag
  deriving DecidableEq, Repr

inductive Setting
  | text (s : String)
  | flag (b : Bool)
  | other (kindName : String)
  deriving DecidableEq, Repr

/-- The options of a run. Overrides are taken as they come, so a value may be of any kind. -/
structure Options where
  path : Json := .str "./docgen"
  clear : Json := .bool false
  runOnCompile : Json := .bool false
  artifacts : Json := .str "./artifacts"
  compileCommand : Json := .str "npx hardhat compile"
  deriving DecidableEq, Repr, Inhabited

namespace OptionName

def ofName? (name : String) : Option OptionName :=
  if name = "path" then some path
  else if name = "clear" then some clear
  else if name = "run_on_compile" then some runOnCompile
  else if name = "artifacts" then some artifacts
  else if name = "compile_command" then some compileCommand
  else none

def ofKey? (key : String) : Option OptionName :=
  ofName? (key.map fun c => if c = '-' then '_' else c)

def kind : OptionName → OptionKind
  | clear | runOnCompile => .flag
  | _ => .text

end OptionName

def OptionKind.word : OptionKind → String
  | text => "str"
  | flag => "bool"

namespace Setting

def kindName : Setting → String
  | text _ => "str"
  | flag _ => "bool"
  | other name => name

def as? : Setting → OptionKind → Option Json
  | text s, .text => some (.str s)
  | flag b, .flag => some (.bool b)
  | _, _ => none

def ofJson : Json → Setting
  | .str s => text s
  | .bool b => flag b
  | v => other v.kindName

end Setting

namespace Options

def set (o : Options) : OptionName → Json → Options
  | .path, v => { o with path := v }
  | .clear, v => { o with clear := v }
  | .runOnCompile, v => { o with runOnCompile := v }
  | .artifacts, v => { o with artifacts := v }
  | .compileCommand, v => { o with compileCommand := v }

def get (o : Options) : OptionName → Json
  | .path => o.path
  | .clear => o.clear
  | .runOnCompile => o.runOnCompile
  | .artifacts => o.artifacts
  | .compileCommand => o.compileCommand

def entry (key : String) (value : Setting) : Except Problem (OptionName × Json) :=
  match OptionName.ofKey? key with
  | none => .error (.unknownOption key)
  | some name =>
    match value.as? name.kind with
    | none => .error (.optionKind key name.kind.word value.kindName)
    | some v => .ok (name, v)

/-- The options with the entries of a table, in order. -/
def withTable (o : Options) : List (String × Setting) → Except Problem Options
  | [] => .ok o
  | (key, value) :: rest =>
    match entry key value with
    | .error problem => .error problem
    | .ok (name, v) => withTable (o.set name v) rest

def ofTable (table : List (String × Setting)) : Except Failure Options :=
  match withTable {} table with
  | .ok o => .ok o
  | .error problem => .error (.problem problem)

/-- The options with every override that is not null. -/
def withOverrides (o : Options) (overrides : Fields) : Except Fault Options :=
  overrides.foldlM (fun o (name, v) =>
    if v.isNull then .ok o
    else
      match name.asText? >>= OptionName.ofName? with
      | some option => .ok (o.set option v)
      | none => .error .wrongKind) o

end Options

end NatSpec
