import NatSpec.Json.Basic

/-!
Laying one value over the fields of an object. What is laid over may be another object, or an array
or text whose items are pairs of a name and a value. A name is any scalar. Fields set before an
unsuitable item stay set.
-/

namespace NatSpec.Json

/-- Why a value is no pair of a name and a value. -/
inductive NoPair
  | wrongKind
  | wrongLength
  deriving DecidableEq, Repr

/-- A pair of a name and a value, given as anything made of two items. -/
def asPair (v : Json) : Except NoPair (Key × Json) :=
  match v.elements? with
  | none => .error .wrongKind
  | some [name, value] =>
    match name.asKey? with
    | some n => .ok (n, value)
    | none => .error .wrongKind
  | some _ => .error .wrongLength

/-- Sets the fields that pairs give, up to the first item that is no pair. -/
def overlayPairs (fields : Fields) : List Json → Fields × Option NoPair
  | [] => (fields, none)
  | v :: rest =>
    match v.asPair with
    | .ok (name, value) => overlayPairs (Table.set fields name value) rest
    | .error e => (fields, some e)

def overlay (fields : Fields) (v : Json) : Fields × Option NoPair :=
  match v with
  | obj changes => (Table.overlay fields changes, none)
  | _ =>
    match v.elements? with
    | some items => overlayPairs fields items
    | none => (fields, some .wrongKind)

end NatSpec.Json
