import NatSpec.Text.Search

/-!
Paths. A path is a start and a list of components. Empty components and single dots vanish when a
path is read; double dots stay. A path starts where it is used, at the top of the file system, or,
with exactly two slashes in front, at a top of its own kind.
-/

namespace NatSpec

inductive Path.Start
  | here
  | top
  | doubleTop
  deriving DecidableEq, Repr, Inhabited

/-- A path: a start and the components behind it. -/
structure Path where
  start : Path.Start
  parts : List String
  deriving DecidableEq, Repr, Inhabited

namespace Path

def Start.text : Start → String
  | here => ""
  | top => "/"
  | doubleTop => "//"

/-- The components of a text between slashes, without empty ones and single dots. -/
def components (text : List Char) : List String :=
  ((Text.splitOn '/' text).map String.ofList).filter fun part => part ≠ "" ∧ part ≠ "."

def startOf : List Char → Start
  | '/' :: '/' :: '/' :: _ => .top
  | '/' :: '/' :: _ => .doubleTop
  | '/' :: _ => .top
  | _ => .here

def ofString (text : String) : Path :=
  ⟨startOf text.toList, components text.toList⟩

/-- The name whose bytes are the numbers of characters. One that is not UTF-8 is that of no file here:
it has a slash for each byte beyond ASCII, and no name in a tree has one. -/
def nameOfBytes (bytes : List Char) : String :=
  (String.fromUTF8? ⟨(bytes.map fun c => UInt8.ofNat c.toNat).toArray⟩).getD
    (String.ofList (bytes.map fun c => if c.toNat < 0x80 then c else '/'))

def ofBytes (bytes : List UInt8) : Path :=
  let chars := bytes.map fun b => Char.ofNat b.toNat
  ⟨startOf chars,
    ((Text.splitOn '/' chars).map nameOfBytes).filter fun part => part ≠ "" ∧ part ≠ "."⟩

/-- The text of a path; the path of no components is a single dot. -/
def toString (p : Path) : String :=
  if p.start = .here ∧ p.parts = [] then "."
  else p.start.text ++ "/".intercalate p.parts

/-- A path taken from another one; an absolute path replaces it. -/
def join (base p : Path) : Path :=
  if p.start = .here then ⟨base.start, base.parts ++ p.parts⟩ else p

instance : HDiv Path String Path := ⟨fun base text => base.join (ofString text)⟩

/-- The path at the top of the file system with the given components. -/
def ofTop (parts : List String) : Path :=
  ⟨.top, parts⟩

/-- The path without its last component. -/
def parent (p : Path) : Path :=
  ⟨p.start, p.parts.dropLast⟩

/-- The last component, empty if there is none. -/
def name (p : Path) : String :=
  p.parts.getLast?.getD ""

/-- The path with another last component, if it has one and the new one is a single component. -/
def withName? (p : Path) (name : String) : Option Path :=
  match p.parts with
  | [] => none
  | _ =>
    match ofString name with
    | ⟨.here, [_]⟩ => some ⟨p.start, p.parts.dropLast ++ [name]⟩
    | _ => none

/-- Resolves dots: each component cancels with a double dot behind it, and double dots at the top
vanish. -/
def normalize (base : List String) : List String → List String
  | [] => base
  | part :: rest =>
    if part = ".." then normalize base.dropLast rest else normalize (base ++ [part]) rest

end Path

end NatSpec
