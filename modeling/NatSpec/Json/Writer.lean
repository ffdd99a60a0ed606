import NatSpec.Json.Basic
import NatSpec.Decimal.Shortest
import NatSpec.Text.Digits

/-!
Writing JSON in ASCII. Fields are written in their order. A layout fixes the separators and
whether each item stands on a line of its own; empty arrays and objects stay on one line.
-/

namespace NatSpec.Json

/-- Separators, and the unit of indentation if each item has its own line. -/
structure Layout where
  betweenItems : List Char
  afterName : List Char
  indent : Option (List Char)
  deriving DecidableEq, Repr

/-- All on one line, with a blank after commas and colons. -/
def Layout.compact : Layout := ⟨[',', ' '], [':', ' '], none⟩

/-- All on one line, without blanks. -/
def Layout.tight : Layout := ⟨[','], [':'], none⟩

def Layout.indented (unit : List Char) : Layout := ⟨[','], [':', ' '], some unit⟩

/-- One item a line, indented by a number of spaces; a negative number counts as zero. -/
def Layout.spaces (n : Int) : Layout := .indented (List.replicate n.toNat ' ')

/-- What stands before an item at a level of nesting. -/
def Layout.lineStart (l : Layout) (level : Nat) : List Char :=
  match l.indent with
  | none => []
  | some unit => '\n' :: (List.replicate level unit).flatten

namespace Writer

def unitEscape (n : Nat) : List Char :=
  '\\' :: 'u' :: Text.hexDigits 4 n

def stringUnit (u : UInt16) : List Char :=
  let c := Text.character u.toNat
  if c = '\x22' then ['\\', '\x22']
  else if c = '\\' then ['\\', '\\']
  else if c = '\n' then ['\\', 'n']
  else if c = '\r' then ['\\', 'r']
  else if c = '\t' then ['\\', 't']
  else if c = '\x0c' then ['\\', 'f']
  else if c = '\x08' then ['\\', 'b']
  else if ' ' ≤ c ∧ c ≤ '~' then [c]
  else unitEscape u.toNat

variable {τ : Type} [IsText τ]

def string (s : τ) : List Char :=
  '\x22' :: (IsText.units s).flatMap stringUnit ++ ['\x22']

/-- A number that is not written as a whole number. -/
def float (x : Binary64) : List Char :=
  (x.toText "NaN" "Infinity").toList

def keyText : Key τ → τ
  | .text s => s
  | .null => IsText.ofString "null"
  | .bool true => IsText.ofString "true"
  | .bool false => IsText.ofString "false"
  | .int i => IsText.ofString (Text.signedDecimal i)
  | .float x => IsText.ofString (String.ofList (float x))

/-- The name of a field, in quotes whatever it is. -/
def key (k : Key τ) : List Char :=
  string (keyText k)

mutual

/-- A value whose items stand one level deeper than the given one. -/
def value (l : Layout) (level : Nat) : Json τ → List Char
  | .null => ['n', 'u', 'l', 'l']
  | .bool true => ['t', 'r', 'u', 'e']
  | .bool false => ['f', 'a', 'l', 's', 'e']
  | .int i => (Text.signedDecimal i).toList
  | .float x => float x
  | .str s => string s
  | .arr [] => ['[', ']']
  | .arr (item :: rest) =>
    '[' :: l.lineStart (level + 1) ++ value l (level + 1) item ++ items l (level + 1) rest
      ++ l.lineStart level ++ [']']
  | .obj [] => ['\x7b', '\x7d']
  | .obj ((name, v) :: rest) =>
    '\x7b' :: l.lineStart (level + 1) ++ key name ++ l.afterName ++ value l (level + 1) v
      ++ entries l (level + 1) rest ++ l.lineStart level ++ ['\x7d']

/-- The further items of an array, each behind its separator. -/
def items (l : Layout) (level : Nat) : List (Json τ) → List Char
  | [] => []
  | item :: rest =>
    l.betweenItems ++ l.lineStart level ++ value l level item ++ items l level rest

/-- The further entries of an object, each behind its separator. -/
def entries (l : Layout) (level : Nat) : List (Key τ × Json τ) → List Char
  | [] => []
  | (name, v) :: rest =>
    l.betweenItems ++ l.lineStart level ++ key name ++ l.afterName ++ value l level v
      ++ entries l level rest

end

end Writer

variable {τ : Type} [IsText τ]

def write (l : Layout) (v : Json τ) : String :=
  String.ofList (Writer.value l 0 v)

def text (v : Json τ) : String :=
  v.write .compact

end NatSpec.Json
