import NatSpec.Abi.Index
import NatSpec.Json.Display

/-!
The documentation of one contract: its texts, its special functions, and its members in three
groups. What the compiler or a caller left out is null.
-/

namespace NatSpec

structure ContractDoc where
  source : Json
  name : Json
  title : Json
  author : Json
  details : Json
  notice : Json
  constructor : Json
  fallback : Json
  receive : Json
  events : Json
  stateVariables : Json
  methods : Json
  warnings : List String
  deriving Repr, Inhabited

namespace ContractDoc

/-- The name of the source and the name of the contract, separated by a colon. -/
def qualifiedName (doc : ContractDoc) : String :=
  doc.source.display ++ ":" ++ doc.name.display

def groupSize (group : Json) : Except Fault Nat :=
  if group.truthy then
    match group.elements? with
    | some items => .ok items.length
    | none => .error .wrongKind
  else .ok 0

/-- The number of grouped members and special functions. -/
def memberCount (doc : ContractDoc) : Except Fault Nat := do
  let events ← groupSize doc.events
  let stateVariables ← groupSize doc.stateVariables
  let methods ← groupSize doc.methods
  let specials := [doc.constructor, doc.fallback, doc.receive].countP fun v => !v.isNull
  .ok (events + stateVariables + methods + specials)

/-- The record of a contract as it stands in a bundle. Warnings are no part of it. -/
def toJson (doc : ContractDoc) : Json :=
  .obj [
    ("source", doc.source),
    ("name", doc.name),
    ("title", doc.title),
    ("author", doc.author),
    ("details", doc.details),
    ("notice", doc.notice),
    ("constructor", doc.constructor),
    ("fallback", doc.fallback),
    ("receive", doc.receive),
    ("events", doc.events),
    ("stateVariables", doc.stateVariables),
    ("methods", doc.methods)]

end ContractDoc

/-- Documentation under qualified contract names. -/
abbrev Docs := Table String ContractDoc

def Docs.toJson (docs : Docs) : Json :=
  .obj (docs.map fun (name, doc) => (.text name, doc.toJson))

/-- The warnings of all contracts, in order. -/
def Docs.warnings (docs : Docs) : List String :=
  docs.flatMap fun entry => entry.2.warnings

end NatSpec
