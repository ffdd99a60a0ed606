import NatSpec.FileTree.Basic

/-!
Comparing two states of a file tree below one directory: what is new or different, and what is
gone. Directories are listed with a slash behind their names.
-/

namespace NatSpec.FileTree

def below? (directory place : Location) : Option Location :=
  if directory.isPrefixOf place && directory != place then some (place.drop directory.length)
  else none

def listedName (relative : Location) (entry : Entry) : String :=
  "/".intercalate relative ++ if entry = .directory then "/" else ""

/-- The entries below a directory under their names. -/
def listing (t : FileTree) (directory : Location) : Table String Entry :=
  t.entries.filterMap fun (place, entry) =>
    (below? directory place).map fun relative => (listedName relative entry, entry)

/-- What is new or different. -/
def changed (before after : Table String Entry) : Table String Entry :=
  after.filter fun (name, entry) => before.get? name != some entry

/-- The names of what is gone, in increasing order. -/
def gone (before after : Table String Entry) : List String :=
  (before.keys.filter fun name => !after.contains name).mergeSort fun a b => a ≤ b

end NatSpec.FileTree
