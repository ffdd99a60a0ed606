import NatSpec.Toml.Scalar

/-!
Reading TOML documents. A document is a list of statements, one a line: a key with its value, the
header of a table, or the header of one more table of an array. Two sets of keys guard against
contradictions. What a key has as its value is `frozen`: nothing below it can be set or opened. What
a header has opened is `opened`: no second header can open it and no dotted key can go through it.
-/

namespace NatSpec.Toml

def maxNesting : Nat := 985

def arrayRoom : Nat := 2

def tableRoom : Nat := 3

/-- Whether a key or one that leads to it is among the given ones. -/
def isCovered (keys : List Key) (key : Key) : Bool :=
  keys.any fun k => k.isPrefixOf key

/-- The entries of an inline table with one more, where `frozen` keys have an array or table as
their value. -/
def addInline (frozen : List Key) (key : Key) (value : Value) (entries : Entries) :
    Except Stop Entries :=
  if isCovered frozen key then .error .invalid
  else
    match changeAt false (addEntry (key.getLast?.getD "") value) key.dropLast entries with
    | some changed => .ok changed
    | none => .error .invalid

mutual

/-- A value at the start of a text, and what follows it. Each step uses one unit of fuel; `room`
is what is left for nested arrays and tables. -/
def value : Nat → Nat → List Char → Except Stop (Value × List Char)
  | 0, _, _ => .error .invalid
  | fuel + 1, room, cs =>
    match cs with
    | '[' :: rest =>
      if room < arrayRoom then .error .deepNesting
      else do
        let (found, after) ← items fuel (room - arrayRoom) rest
        .ok (.array found, after)
    | '\x7b' :: rest =>
      if room < tableRoom then .error .deepNesting
      else
        match skipBlanks rest with
        | '\x7d' :: after => .ok (.table [], after)
        | inside => do
          let (found, after) ← inlineEntries fuel (room - tableRoom) [] [] inside
          .ok (.table found, after)
    | _ => scalar cs

/-- The items of an array up to its closing bracket, and what follows it. -/
def items : Nat → Nat → List Char → Except Stop (List Value × List Char)
  | 0, _, _ => .error .invalid
  | fuel + 1, room, cs => do
    match ← skipFiller (cs.length + 1) cs with
    | ']' :: after => .ok ([], after)
    | inside =>
      let (item, rest) ← value fuel room inside
      match ← skipFiller (rest.length + 1) rest with
      | ']' :: after => .ok ([item], after)
      | ',' :: more =>
        let (others, after) ← items fuel room more
        .ok (item :: others, after)
      | _ => .error .invalid

/-- The entries of an inline table up to its closing brace, and what follows it. -/
def inlineEntries : Nat → Nat → List Key → Entries → List Char →
    Except Stop (Entries × List Char)
  | 0, _, _, _, _ => .error .invalid
  | fuel + 1, room, frozen, entries, cs => do
    let (k, rest) ← key (cs.length + 1) cs
    match rest with
    | '=' :: rest =>
      let (v, rest) ← value fuel room (skipBlanks rest)
      let entries ← addInline frozen k v entries
      match skipBlanks rest with
      | '\x7d' :: after => .ok (entries, after)
      | ',' :: more =>
        let frozen := if v.isContainer then k :: frozen else frozen
        inlineEntries fuel room frozen entries (skipBlanks more)
      | _ => .error .invalid
    | _ => .error .invalid

end

/-- A document as far as it has been read. -/
structure Document where
  entries : Entries
  header : Key
  frozen : List Key
  opened : List Key
  pending : List Key
  deriving Inhabited

namespace Document

/-- The document with the keys that dotted keys have led through counted as opened. -/
def settle (d : Document) : Document :=
  { d with opened := d.pending ++ d.opened, pending := [] }

/-- The document with a key and its value set below the current header. -/
def set (d : Document) (k : Key) (v : Value) : Except Stop Document :=
  let full := d.header ++ k
  let through := (List.range k.length).drop 1 |>.map fun n => d.header ++ k.take n
  if through.any d.opened.contains || isCovered d.frozen full.dropLast then .error .invalid
  else
    match changeAt true (addEntry (full.getLast?.getD "") v) full.dropLast d.entries with
    | none => .error .invalid
    | some entries => .ok { d with
        entries := entries
        pending := through ++ d.pending
        frozen := if v.isContainer then full :: d.frozen else d.frozen }

def openTable (d : Document) (k : Key) : Except Stop Document :=
  if d.opened.contains k || isCovered d.frozen k then .error .invalid
  else
    match changeAt true some k d.entries with
    | none => .error .invalid
    | some entries => .ok { d with entries := entries, header := k, opened := k :: d.opened }

/-- The document with one more table of an array opened by a header. What an earlier table of the
array has opened or frozen is free again. -/
def openItem (d : Document) (k : Key) : Except Stop Document :=
  if isCovered d.frozen k then .error .invalid
  else
    match changeAt true (addToArray (k.getLast?.getD "")) k.dropLast d.entries with
    | none => .error .invalid
    | some entries => .ok { d with
        entries := entries
        header := k
        opened := k :: d.opened.filter fun other => !k.isPrefixOf other
        frozen := d.frozen.filter fun other => !k.isPrefixOf other }

end Document

/-- The end of a statement: blanks, perhaps a comment, and the end of the line or of the text. -/
def endOfLine (cs : List Char) : Except Stop (List Char) := do
  match ← skipComment (skipBlanks cs) with
  | [] => .ok []
  | '\n' :: rest => .ok rest
  | _ => .error .invalid

def keyValue (d : Document) (cs : List Char) : Except Stop (Document × List Char) := do
  let (k, rest) ← key (cs.length + 1) cs
  match rest with
  | '=' :: rest =>
    let inside := skipBlanks rest
    let (v, after) ← value (2 * inside.length + 2) maxNesting inside
    .ok (← d.set k v, after)
  | _ => .error .invalid

/-- The header of a table or of one more table of an array, behind its first bracket. -/
def header (d : Document) (cs : List Char) : Except Stop (Document × List Char) := do
  let d := d.settle
  match cs with
  | '[' :: rest =>
    let (k, after) ← key (rest.length + 1) (skipBlanks rest)
    let d ← d.openItem k
    match after with
    | ']' :: ']' :: after => .ok (d, after)
    | _ => .error .invalid
  | _ =>
    let (k, after) ← key (cs.length + 1) (skipBlanks cs)
    let d ← d.openTable k
    match after with
    | ']' :: after => .ok (d, after)
    | _ => .error .invalid

def statements : Nat → Document → List Char → Except Stop Document
  | 0, d, _ => .ok d
  | fuel + 1, d, cs =>
    match skipBlanks cs with
    | [] => .ok d
    | '\n' :: rest => statements fuel d rest
    | '#' :: rest => do statements fuel d (← endOfLine ('#' :: rest))
    | '[' :: rest => do
      let (d, after) ← header d rest
      statements fuel d (← endOfLine after)
    | line => do
      let (d, after) ← keyValue d line
      statements fuel d (← endOfLine after)

/-- Turns each CR LF pair into a line feed. -/
def unifyPairs (cs : List Char) : List Char :=
  match cs with
  | '\r' :: '\n' :: rest => '\n' :: unifyPairs rest
  | c :: rest => c :: unifyPairs rest
  | [] => []

/-- The table that a document writes. -/
def read (text : String) : Except Stop Entries := do
  let cs := unifyPairs text.toList
  let d ← statements (cs.length + 1) ⟨[], [], [], [], []⟩ cs
  .ok d.entries

end NatSpec.Toml
