import NatSpec.Json.Display
import NatSpec.Fault
import NatSpec.Text.Search

/-!
Signatures of the members of an ABI. The type of a parameter stands as it is, except that the
first `tuple` in it is replaced by the types of its components in parentheses, so that a suffix
such as `[]` or `[3]` stays behind the closing one. A member without a name goes by its kind, and a
member without a kind is a function.
-/

namespace NatSpec.Abi

/-- The word that stands for a type made of components. -/
def tupleWord : String := "tuple"

/-- The kind of a member that names none. -/
def functionKind : String := "function"

/-- Whether a type mentions components. An array or object mentions them if the word is one of its
items or names. -/
def mentionsTuple : Json → Except Fault Bool
  | .str s => .ok (Text.occurs tupleWord s)
  | .arr items => .ok (items.any fun v => v.asText? = some tupleWord)
  | .obj fields => .ok (Table.contains fields tupleWord)
  | _ => .error .wrongKind

/-- The texts among a list of values, which must hold nothing else. -/
def texts : List Json → Except Fault (List String)
  | [] => .ok []
  | .str s :: rest => do .ok (s :: (← texts rest))
  | _ :: _ => .error .wrongKind

def parenthesized (parts : List String) : String :=
  "(" ++ ",".intercalate parts ++ ")"

mutual

def typeOf : Json → Except Fault Json
  | .obj fields =>
    match Table.get? fields "type" with
    | none => .error (.missingField "type")
    | some type => do
      if ← mentionsTuple type then
        let components ← texts (← componentTypes fields)
        match type with
        | .str s => .ok (.str (Text.replaceFirst tupleWord (parenthesized components) s))
        | _ => .error .notRecord
      else .ok type
  | _ => .error .wrongKind

/-- The types of the components among the fields of a parameter. -/
def componentTypes : List (Json.Key × Json) → Except Fault (List Json)
  | [] => .ok []
  | (name, v) :: rest =>
    if name == .text "components" then
      match v with
      | .arr items => typesOf items
      | other => if other.truthy then .error .wrongKind else .ok []
    else componentTypes rest

/-- The types of parameters, in order. -/
def typesOf : List Json → Except Fault (List Json)
  | [] => .ok []
  | p :: rest => do
    let type ← typeOf p
    .ok (type :: (← typesOf rest))

end

def fieldsOf : Json → Except Fault Fields
  | .obj fields => .ok fields
  | _ => .error .notRecord

def kindOf (member : Fields) : Json :=
  (Json.field member "type").orElse (.str functionKind)

/-- The name of a member, or its kind if it has none. -/
def nameOf (member : Fields) : Json :=
  (Json.field member "name").orElse (kindOf member)

/-- The types of the inputs of a member, in order. -/
def inputTypes (member : Fields) : Except Fault (List Json) :=
  match Json.field member "inputs" with
  | .arr items => typesOf items
  | other => if other.truthy then .error .wrongKind else .ok []

/-- The signature of a member: its name and the types of its inputs. -/
def signature (member : Fields) : Except Fault String := do
  let inputs ← texts (← inputTypes member)
  .ok ((nameOf member).display ++ parenthesized inputs)

/-- The signature of a value, which must be an object. -/
def signatureOf (member : Json) : Except Fault String := do
  signature (← fieldsOf member)

end NatSpec.Abi
