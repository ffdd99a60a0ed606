import NatSpec.Abi.Signature

/-!
The members of an ABI under their signatures. Two members with one signature share an entry: it
keeps the place of the first and the fields of the last, and each further one is reported.
-/

namespace NatSpec

/-- Records under the signatures of the members they describe. -/
abbrev Members := Table String Json

def Members.toJson (members : Members) : Json :=
  .obj (members.map fun (key, record) => (.text key, record))

namespace Abi

/-- Members under their signatures, and the signatures that an entry had already. -/
structure Index where
  members : Members
  duplicates : List String
  deriving Repr, Inhabited

def Index.add (index : Index) (entry : Json) : Except Fault Index := do
  let s ← signatureOf entry
  .ok {
    members := index.members.set s entry
    duplicates :=
      if index.members.contains s then index.duplicates ++ [s] else index.duplicates }

def indexEntries (entries : List Json) : Except Fault Index :=
  entries.foldlM Index.add ⟨[], []⟩

def index (abi : Json) : Except Fault Index :=
  match abi.elements? with
  | none => .error .wrongKind
  | some entries => indexEntries entries

end Abi

end NatSpec
