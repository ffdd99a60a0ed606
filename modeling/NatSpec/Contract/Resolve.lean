import NatSpec.Abi.Depth
import NatSpec.Contract.Doc
import NatSpec.Contract.Name
import NatSpec.Contract.Trees
import NatSpec.Members.Groups
import NatSpec.Members.Merge

/-!
Resolving a contract: its compiler output becomes its documentation. The ABI is indexed, the notes
are merged into the index, and the merged members are grouped. If two entries of the ABI have one
signature then a strict run fails; otherwise the later entry counts and a warning tells of it.
-/

namespace NatSpec

/-- The warning about an entry of the ABI that replaced another one. -/
def duplicateWarning (contract signature : String) : String :=
  contract ++ ": duplicate signature " ++ signature ++ ", later ABI entry kept"

/-- The first record of a constructor, null if there is none. -/
def Members.constructorRecord (members : Members) : Json :=
  match members.constructorSignature? with
  | none => .null
  | some signature => (members.get? signature).getD .null

def ContractDoc.ofMembers (id : ContractName) (trees : Trees) (members : Members)
    (groups : Groups) (warnings : List String) : Except Fault ContractDoc := do
  let devdoc ← Abi.fieldsOf trees.devdoc
  let userdoc ← Abi.fieldsOf trees.userdoc
  .ok {
    source := .str id.source
    name := .str id.name
    title := Json.field devdoc "title"
    author := Json.field devdoc "author"
    details := Json.field devdoc "details"
    notice := Json.field userdoc "notice"
    constructor := members.constructorRecord
    fallback := (members.get? "fallback()").getD .null
    receive := (members.get? "receive()").getD .null
    events := groups.ofKind "event"
    stateVariables := groups.ofKind Members.stateVariableKind
    methods := groups.ofKind Abi.functionKind
    warnings := warnings }

def Abi.Index.annotated (index : Abi.Index) (trees : Trees) : Except Fault Members :=
  match Members.merge trees.devdoc trees.userdoc index.members with
  | (members, none) => .ok members
  | (_, some fault) => .error fault

/-- The documentation of a contract with the given compiler output. -/
def resolveContract (contract : String) (output : Json) (strict : Bool) :
    Except Failure ContractDoc := do
  let id ← ContractName.parse contract
  let fields ← Abi.fieldsOf output
  let abi := Json.field fields "abi"
  if abi.isNull then
    (Problem.noAbi contract).fail
  else
    let trees ← Trees.ofOutput contract fields
    Abi.checkEntries abi
    let index ← Abi.index abi
    if strict && !index.duplicates.isEmpty then
      (Problem.duplicateSignatures contract index.duplicates).fail
    else
      let members ← index.annotated trees
      let groups ← members.groups
      ContractDoc.ofMembers id trees members groups
        (index.duplicates.map (duplicateWarning contract))

end NatSpec
