import NatSpec.Table
import NatSpec.Json.Key

/-!
JSON values. Objects keep the order of their fields. Whole numbers are unbounded and are told
apart from numbers written with a point or an exponent. What is read from JSON has texts as the
names of all fields. Texts are strings, unless half a pair of UTF-16 units may stand in them on its
own.
-/

namespace NatSpec

inductive Json (τ : Type := String)
  | null
  | bool (b : Bool)
  | int (i : Int)
  | float (x : Binary64)
  | str (s : τ)
  | arr (items : List (Json τ))
  | obj (fields : List (Json.Key τ × Json τ))
  deriving Repr, Inhabited

abbrev Fields (τ : Type := String) := Table (Json.Key τ) (Json τ)

namespace Json

variable {τ : Type}

def Key.toJson : Key τ → Json τ
  | text s => .str s
  | null => .null
  | bool b => .bool b
  | int i => .int i
  | float x => .float x

/-- A value as the name of a field, which an array or object cannot be. -/
def asKey? : Json τ → Option (Key τ)
  | str s => some (.text s)
  | null => some .null
  | bool b => some (.bool b)
  | int i => some (.int i)
  | float x => some (.float x)
  | arr _ | obj _ => none

/-- Whether a value is null. -/
def isNull : Json τ → Bool
  | null => true
  | _ => false

def isObj : Json τ → Bool
  | obj _ => true
  | _ => false

def asText? : Json τ → Option τ
  | str s => some s
  | _ => none

def asFields? : Json τ → Option (Fields τ)
  | obj fields => some fields
  | _ => none

/-- The field of an object, null if it is missing. -/
def field [DecidableEq τ] (fields : Fields τ) (key : Key τ) : Json τ :=
  (Table.get? fields key).getD null

/-- Whether a value counts as present: all do but null, false, zero, and empty texts, arrays and
objects. -/
def truthy : Json → Bool
  | null => false
  | bool b => b
  | int i => i != 0
  | float x => !x.isZero
  | str s => !s.isEmpty
  | arr items => !items.isEmpty
  | obj fields => !fields.isEmpty

/-- A value, or another one in place of a value that does not count as present. -/
def orElse (v other : Json) : Json :=
  if v.truthy then v else other

/-- The items that a value is made of: those of an array, the characters of a text, or the names of
the fields of an object. -/
def elements? : Json → Option (List Json)
  | arr items => some items
  | str s => some (s.toList.map fun c => str (String.singleton c))
  | obj fields => some (fields.map fun entry => entry.1.toJson)
  | _ => none

/-- The word for the kind of a value in messages about options. -/
def kindName : Json → String
  | null => "NoneType"
  | bool _ => "bool"
  | int _ => "int"
  | float _ => "float"
  | str _ => "str"
  | arr _ => "list"
  | obj _ => "dict"

end Json

end NatSpec
