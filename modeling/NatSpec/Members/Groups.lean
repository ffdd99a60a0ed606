import NatSpec.Abi.Index

/-!
Grouping records by their kind. Each group keeps the order of the records; groups stand in the
order in which their kinds first occur.
-/

namespace NatSpec

abbrev Groups := Table Json.Key Members

namespace Groups

def insert (groups : Groups) (kind : Json.Key) (key : String) (record : Json) : Groups :=
  groups.set kind (((groups.get? kind).getD []).set key record)

/-- The group of a kind, null if there is none. -/
def ofKind (groups : Groups) (kind : String) : Json :=
  match groups.get? kind with
  | none => .null
  | some group => group.toJson

def toJson (groups : Groups) : Json :=
  .obj (groups.map fun (kind, group) => (kind, group.toJson))

end Groups

/-- The kind of a record as a key of the groups. Arrays and objects cannot be keys. -/
def Members.groupKey (record : Json) : Except Fault Json.Key := do
  let fields ← Abi.fieldsOf record
  match (Abi.kindOf fields).asKey? with
  | some kind => .ok kind
  | none => .error .wrongKind

def Members.groups (members : Members) : Except Fault Groups :=
  members.foldlM (fun groups (key, record) => do
    .ok (groups.insert (← groupKey record) key record)) []

end NatSpec
