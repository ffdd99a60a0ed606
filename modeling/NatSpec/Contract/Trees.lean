import NatSpec.Problem
import NatSpec.Json.Reader

/-!
The documentation trees of a contract: developer notes and user notes. A tree is taken from the top
level of the compiler's output, and if it is missing there, from the output section of the
contract's metadata, which is an object or the JSON text of one.
-/

namespace NatSpec

/-- Developer notes and user notes. -/
structure Trees where
  devdoc : Json
  userdoc : Json
  deriving Repr, Inhabited

namespace Trees

def metadataFields (contract : String) (metadata : Json) : Except Failure Fields := do
  let value ← match metadata with
    | .str text =>
      match Json.read text with
      | .ok v => pure v
      | .error (.misread place) => (Problem.metadataNotJson contract place).fail
      | .error refusal => throw (.fault (.ofRefusal refusal))
    | v => pure v
  match value with
  | .obj fields => .ok fields
  | _ => (Problem.metadataNotObject contract).fail

/-- The trees, the missing ones of which are looked up in the metadata. -/
def fromMetadata (contract : String) (devdoc userdoc metadata : Json) : Except Failure Trees := do
  let fields ← metadataFields contract metadata
  match (Json.field fields "output").orElse (.obj []) with
  | .obj output =>
    .ok {
      devdoc := if devdoc.isNull then Json.field output "devdoc" else devdoc
      userdoc := if userdoc.isNull then Json.field output "userdoc" else userdoc }
  | _ => .error (.fault .notRecord)

def ofOutput (contract : String) (output : Fields) : Except Failure Trees := do
  let devdoc := Json.field output "devdoc"
  let userdoc := Json.field output "userdoc"
  let metadata := Json.field output "metadata"
  let found ←
    if (devdoc.isNull || userdoc.isNull) && metadata.truthy then
      fromMetadata contract devdoc userdoc metadata
    else pure ⟨devdoc, userdoc⟩
  .ok ⟨found.devdoc.orElse (.obj []), found.userdoc.orElse (.obj [])⟩

end Trees

end NatSpec
