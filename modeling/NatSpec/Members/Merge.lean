import NatSpec.Abi.Index
import NatSpec.Json.Overlay

/-!
Merging annotations into indexed members. Five sections of a contract's two documentation trees
are laid over the records one after another, so that later ones win: developer notes on events, on
state variables and on methods, then user notes on events and on methods. A note on an unknown
signature is lost, but a note on a state variable makes a record of its own. The bare key
`constructor` stands for the signature of the constructor.

A step that meets a fault leaves the records as far as it has merged them.
-/

namespace NatSpec.Members

/-- The key under which notes on the constructor stand without its inputs. -/
def constructorKey : String := "constructor"

def constructorStart : String := "constructor("

def stateVariableKind : String := "stateVariable"

/-- A change of the records, which may stop at a fault. -/
abbrev Step := Members → Members × Option Fault

/-- Steps one after another, up to the first that meets a fault. -/
def inTurn : List Step → Step
  | [], members => (members, none)
  | step :: rest, members =>
    match step members with
    | (changed, none) => inTurn rest changed
    | (changed, some fault) => (changed, some fault)

/-- The fault of a value that cannot be laid over a record. -/
def noPairFault : Json.NoPair → Fault
  | .wrongKind => .wrongKind
  | .wrongLength => .badValue

/-- The first signature of a constructor. -/
def constructorSignature? (members : Members) : Option String :=
  members.keys.find? fun key => Text.startsWith key constructorStart

/-- The record under a key, or an empty one outside the table. -/
def lookup (members : Members) (key : String) : Json :=
  match members.get? key with
  | none | some .null => .obj []
  | some record => record

/-- Lays a note over the record under a key; on an unknown key it changes nothing. -/
def annotate (key : String) (note : Json) : Step := fun members =>
  match members.get? key with
  | none | some .null => (members, (Json.overlay [] note).2.map noPairFault)
  | some (.obj fields) =>
    let (changed, noPair) := Json.overlay fields note
    (members.set key (.obj changed), noPair.map noPairFault)
  | some _ => (members, some .notRecord)

/-- Lays a note over the record of a state variable, made if there is none, and gives it its
kind. -/
def annotateVariable (name : String) (note : Json) : Step := fun members =>
  let key := name ++ "()"
  match (members.get? key).getD (.obj []) with
  | .obj fields =>
    match Json.overlay fields note with
    | (changed, none) =>
      (members.set key (.obj (Table.set changed (.text "type") (.str stateVariableKind))), none)
    | (changed, some noPair) => (members.set key (.obj changed), some (noPairFault noPair))
  | _ => (members, some .notRecord)

/-- The entries of a section of a documentation tree under their names, which are texts; a section
that counts as missing has none. -/
def sectionOf (tree : Json) (name : String) : Except Fault (List (String × Json)) :=
  match tree.orElse (.obj []) with
  | .obj fields =>
    match (Json.field fields name).orElse (.obj []) with
    | .obj entries => .ok (entries.filterMap fun (key, note) => key.asText?.map (·, note))
    | _ => .error .notRecord
  | _ => .error .notRecord

/-- The entries of a section with the signature of the constructor in place of its bare key. -/
def nameConstructor (members : Members) (entries : List (String × Json)) :
    List (String × Json) :=
  match members.constructorSignature? with
  | none => entries
  | some signature =>
    Table.ofList (entries.map fun (key, note) =>
      (if key = constructorKey then signature else key, note))

/-- Merges a section, given what to do with its entries. -/
def mergeSection (tree : Json) (name : String)
    (merge : List (String × Json) → Step) : Step := fun members =>
  match sectionOf tree name with
  | .ok entries => merge entries members
  | .error fault => (members, some fault)

def mergeEvents (tree : Json) : Step :=
  mergeSection tree "events" fun entries =>
    inTurn (entries.map fun (key, note) => annotate key note)

/-- Merges notes on state variables. -/
def mergeVariables (tree : Json) : Step :=
  mergeSection tree "stateVariables" fun entries =>
    inTurn (entries.map fun (name, note) => annotateVariable name note)

/-- Merges notes on methods, among them the constructor. -/
def mergeMethods (tree : Json) : Step :=
  mergeSection tree "methods" fun entries members =>
    inTurn ((nameConstructor members entries).map fun (key, note) => annotate key note) members

/-- Merges both documentation trees. -/
def merge (devdoc userdoc : Json) : Step :=
  inTurn [mergeEvents devdoc, mergeVariables devdoc, mergeMethods devdoc,
    mergeEvents userdoc, mergeMethods userdoc]

end NatSpec.Members
