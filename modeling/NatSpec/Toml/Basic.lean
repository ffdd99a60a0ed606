import NatSpec.Table

/-!
TOML values. Numbers, dates and times are kept by the word for their kind only, since no option
takes one. Tables are filled along dotted keys; a key that leads through an array of tables goes on
in its last table.
-/

namespace NatSpec.Toml

inductive Value
  | text (s : String)
  | flag (b : Bool)
  | other (kindName : String)
  | array (items : List Value)
  | table (entries : List (String × Value))
  deriving Repr, Inhabited

/-- A table in the order of its keys. -/
abbrev Entries := Table String Value

abbrev Key := List String

/-- Whether a value is an array or a table. -/
def Value.isContainer : Value → Bool
  | array _ | table _ => true
  | _ => false

/-- Changes the table at the end of a key, with tables made where they are missing. The key may
lead through arrays only if `arrays` is set; it must not lead through other values. -/
def changeAt (arrays : Bool) (change : Entries → Option Entries) :
    Key → Entries → Option Entries
  | [], entries => change entries
  | name :: rest, entries =>
    match entries.get? name with
    | none => do
      let made ← changeAt arrays change rest []
      some (Table.set entries name (.table made))
    | some (.table inner) => do
      let changed ← changeAt arrays change rest inner
      some (Table.set entries name (.table changed))
    | some (.array items) =>
      match arrays, items.getLast? with
      | true, some (.table inner) => do
        let changed ← changeAt arrays change rest inner
        some (Table.set entries name (.array (items.dropLast ++ [.table changed])))
      | _, _ => none
    | some _ => none

def addEntry (name : String) (value : Value) (entries : Entries) : Option Entries :=
  if entries.contains name then none else some (Table.set entries name value)

/-- Adds an empty table to the array under a name, which is made if it is missing. -/
def addToArray (name : String) (entries : Entries) : Option Entries :=
  match entries.get? name with
  | none => some (Table.set entries name (.array [.table []]))
  | some (.array items) => some (Table.set entries name (.array (items ++ [.table []])))
  | some _ => none

end NatSpec.Toml
