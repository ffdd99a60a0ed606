import NatSpec.Json.Basic

/-!
Values with the fields of all objects in increasing order of their names. Texts are ordered by code
points and numbers by their values; names of different kinds have no order, so that an object which
mixes them cannot be sorted.
-/

namespace NatSpec

/-- A finite number counted in least positive numbers. -/
def Binary64.units? : Binary64 → Option Int
  | finite negative m q =>
    some ((if negative then -(m : Int) else m) * twoTo (q - minExponent).toNat)
  | _ => none

namespace Json

/-- The kinds of names among which there is an order. -/
inductive Key.Kind
  | text
  | null
  | number
  deriving DecidableEq, Repr

def Key.kind : Key → Kind
  | text _ => .text
  | null => .null
  | _ => .number

/-- The place of a number: on which side of all finite numbers it is, and its count of least positive
numbers. -/
def Key.place? : Key → Option (Int × Int)
  | bool b => some (0, cond b 1 0 * Binary64.twoTo 1074)
  | int i => some (0, i * Binary64.twoTo 1074)
  | float (.infinity negative) => some (if negative then -1 else 1, 0)
  | float x => x.units?.map fun n => (0, n)
  | _ => none

/-- Whether a name stands in front of another one of its kind. -/
def Key.isLess (a b : Key) : Bool :=
  match a, b with
  | text s, text t => s < t
  | _, _ =>
    match a.place?, b.place? with
    | some (side, n), some (otherSide, m) => side < otherSide || (side = otherSide && n < m)
    | _, _ => false

/-- The fields in increasing order of their names, if these have one. -/
def sortFields (fields : Fields) : Option Fields :=
  let kinds := fields.keys.map Key.kind
  if kinds.all fun kind => kinds.head? = some kind then
    some (fields.mergeSort fun a b => !b.1.isLess a.1)
  else none

mutual

/-- A value with the fields of all objects in increasing order of their names, if these have one. -/
def sorted? : Json → Option Json
  | .arr items => (sortedItems? items).map .arr
  | .obj fields => (sortedFields? fields).bind fun fields => (sortFields fields).map .obj
  | v => some v

def sortedItems? : List Json → Option (List Json)
  | [] => some []
  | v :: rest => do some ((← sorted? v) :: (← sortedItems? rest))

def sortedFields? : List (Key × Json) → Option (List (Key × Json))
  | [] => some []
  | (k, v) :: rest => do some ((k, ← sorted? v) :: (← sortedFields? rest))

end

end Json

end NatSpec
