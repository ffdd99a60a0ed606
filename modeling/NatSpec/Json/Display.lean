import NatSpec.Json.Basic
import NatSpec.Decimal.Shortest
import NatSpec.Text.Quoted

/-!
How a value is shown inside running text. A text stands for itself; inside arrays and objects
texts are quoted. Null, truth values and the numbers that are not finite have words of their own.
-/

namespace NatSpec.Json

/-- A number that is not a whole number, in running text. -/
def displayFloat (x : Binary64) : String :=
  x.toText "nan" "inf"

/-- The name of a field inside an object. -/
def Key.displayNested : Key → String
  | .null => "None"
  | .bool true => "True"
  | .bool false => "False"
  | .int i => Text.signedDecimal i
  | .float x => displayFloat x
  | .text s => Text.quoted s

mutual

/-- A value inside an array or object. -/
def displayNested : Json → String
  | .null => Key.displayNested .null
  | .bool b => Key.displayNested (.bool b)
  | .int i => Key.displayNested (.int i)
  | .float x => Key.displayNested (.float x)
  | .str s => Key.displayNested (.text s)
  | .arr items => "[" ++ ", ".intercalate (displayItems items) ++ "]"
  | .obj fields => "\x7b" ++ ", ".intercalate (displayFields fields) ++ "\x7d"

def displayItems : List Json → List String
  | [] => []
  | v :: rest => displayNested v :: displayItems rest

def displayFields : List (Key × Json) → List String
  | [] => []
  | (k, v) :: rest => (k.displayNested ++ ": " ++ displayNested v) :: displayFields rest

end

def display : Json → String
  | .str s => s
  | v => v.displayNested

/-- The name of a field in running text. -/
def Key.display (k : Key) : String :=
  k.toJson.display

end NatSpec.Json
