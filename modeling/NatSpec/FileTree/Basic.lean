import NatSpec.FileTree.Path
import NatSpec.Table
import NatSpec.Fault

/-!
File trees. A tree maps locations, which are lists of component names from the top, to files, links
and directories. The top is always a directory. Operations start relative paths at the tree's
working directory.
-/

namespace NatSpec

inductive Entry
  | file (content : ByteArray)
  | link (target : String)
  | directory
  deriving Inhabited

/-- Entries are compared by kind and content. -/
instance : DecidableEq Entry
  | .file a, .file b =>
    if h : a.data = b.data then isTrue (congrArg Entry.file (ByteArray.ext h))
    else isFalse fun same => h (congrArg ByteArray.data (Entry.file.inj same))
  | .link a, .link b =>
    if h : a = b then isTrue (congrArg Entry.link h)
    else isFalse fun same => h (Entry.link.inj same)
  | .directory, .directory => isTrue rfl
  | .file _, .link _ | .file _, .directory | .link _, .file _ | .link _, .directory
  | .directory, .file _ | .directory, .link _ => isFalse nofun

def Entry.isLink : Entry → Bool
  | link _ => true
  | file _ | directory => false

/-- The components that lead from the top to a place. -/
abbrev Location := List String

structure FileTree where
  here : Location
  entries : Table Location Entry
  deriving Inhabited

/-- A computation on a file tree that may stop at a fault and then keeps what it has changed. -/
abbrev Filing := ExceptT Fault (StateM FileTree)

namespace FileTree

def at? (t : FileTree) (place : Location) : Option Entry :=
  if place = [] then some .directory else t.entries.get? place

def put (t : FileTree) (place : Location) (entry : Entry) : FileTree :=
  { t with entries := t.entries.set place entry }

/-- The tree without the entries below a location. -/
def clearBelow (t : FileTree) (place : Location) : FileTree :=
  { t with entries := t.entries.filter fun e => !(place.isPrefixOf e.1 && e.1 != place) }

/-- The tree without the entries at and below a location. -/
def remove (t : FileTree) (place : Location) : FileTree :=
  { t with entries := t.entries.filter fun e => !place.isPrefixOf e.1 }

/-- The tree with directories made where they are missing on the way from a location. -/
def withDirectories (t : FileTree) (above : Location) : List String → FileTree
  | [] => t
  | name :: rest =>
    let place := above ++ [name]
    withDirectories (if (t.at? place).isSome then t else t.put place .directory) place rest

/-- The empty tree with a working directory. -/
def empty (here : Location) : FileTree :=
  withDirectories ⟨here, []⟩ [] here

def startOf (t : FileTree) (p : Path) : Location :=
  if p.start = .here then t.here else []

/-- The absolute location that a path denotes if no component is a link. -/
def plainLocation (t : FileTree) (p : Path) : Location :=
  Path.normalize (t.startOf p) p.parts

/-- The names in a directory with their entries. -/
def children (t : FileTree) (place : Location) : List (String × Entry) :=
  t.entries.filterMap fun (p, entry) =>
    match p.getLast? with
    | some name => if p.dropLast = place then some (name, entry) else none
    | none => none

end FileTree

end NatSpec
