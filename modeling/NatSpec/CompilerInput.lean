import NatSpec.FileTree.Update
import NatSpec.Bundle.Render
import NatSpec.Json.Writer

/-!
Compiler inputs. The compiler writes the documentation of a contract only if its settings select
`devdoc` and `userdoc` among the outputs; both are added to the selection for all contracts, and the
tables that lead to it are made where they are missing. A file is read and written with all its
texts, also those in which half a pair of UTF-16 units stands on its own.
-/

namespace NatSpec.CompilerInput

variable {τ : Type} [DecidableEq τ] [IsText τ]

def neededOutputs : List τ := ["devdoc", "userdoc"].map IsText.ofString

def selects (selection : Json τ) (output : τ) : Except Fault Bool :=
  match selection with
  | .arr items => .ok (items.any fun v => v.asText? = some output)
  | .str s => .ok (Text.cut? (IsText.units output) (IsText.units s)).isSome
  | .obj fields => .ok (Table.contains fields (.text output))
  | _ => .error .wrongKind

/-- The selection with one more output, unless it is there. -/
def select (selection : Json τ) (output : τ) : Except Fault (Json τ) := do
  if ← selects selection output then .ok selection
  else
    match selection with
    | .arr items => .ok (.arr (items ++ [.str output]))
    | _ => .error .notRecord

/-- Changes the field of an object, which is made with a value of its own if it is missing. -/
def changeField (v : Json τ) (name : String) (missing : Json τ)
    (change : Json τ → Except Fault (Json τ)) : Except Fault (Json τ) :=
  match v with
  | .obj fields => do
    let changed ← change ((Table.get? fields name).getD missing)
    .ok (.obj (Table.set fields name changed))
  | _ => .error .notRecord

/-- A compiler's settings with the needed outputs selected for all contracts. -/
def requestOutputs (compiler : Json τ) : Except Fault (Json τ) :=
  changeField compiler "settings" (.obj []) fun settings =>
    changeField settings "outputSelection" (.obj []) fun selection =>
      changeField selection "*" (.obj []) fun files =>
        changeField files "*" (.arr []) fun outputs =>
          neededOutputs.foldlM select outputs

/-- `requestOutputs` on each of several compilers. -/
def requestAll (compilers : Json τ) : Except Fault (Json τ) :=
  match compilers with
  | .arr items => do .ok (.arr (← items.mapM requestOutputs))
  | .str s => if IsText.units s = [] then .ok (.str s) else .error .notRecord
  | .obj [] => .ok (.obj [])
  | .obj _ => .error .notRecord
  | _ => .error .wrongKind

/-- Adds the needed outputs to the compiler input in a file and gives the new input. -/
def patch (p : Path) : Run (Json Utf16) := do
  match (← get).readValue p with
  | .error (.refused reason path) =>
    throw (.problem (.unreadableInput p.toString (.refused reason path)))
  | .error (.misread place) => throw (.problem (.unreadableInput p.toString (.misread place)))
  | .error fault => throw (.fault fault)
  | .ok v =>
    if v.isObj then
      let patched ← requestOutputs v
      FileTree.writeText p (patched.write (.spaces 2) ++ "\n")
      return patched
    else throw (.problem (.inputNotObject p.toString))

end NatSpec.CompilerInput
