import NatSpec.FileTree.Access
import NatSpec.Shell.Octets

/-!
Where names lead. An empty name leads nowhere, and a name that ends in a slash leads to a directory.
-/

namespace NatSpec.Shell

def endsInSlash (name : String) : Bool :=
  name.toList.getLast? = some '/'

/-- The place that a name leads to, and what stands there. A link at the end is followed if `follow`
is set. -/
def placeOf (tree : FileTree) (follow : Bool) (name : String) :
    Except Refused (Location × Option Entry) :=
  let p := pathOf name
  if name = "" then .error .notFound
  else if endsInSlash name && !p.parts.isEmpty then
    tree.locate follow ⟨p.start, p.parts ++ ["."]⟩
  else tree.locate follow p

def entryOf (tree : FileTree) (name : String) : Except Refused Entry :=
  match placeOf tree true name with
  | .ok (_, some entry) => .ok entry
  | .ok (_, none) => .error .notFound
  | .error reason => .error reason

def leadsToDirectory (tree : FileTree) (name : String) : Bool :=
  (entryOf tree name).toOption = some .directory

def leadsToFile (tree : FileTree) (name : String) : Bool :=
  (entryOf tree name).toOption matches some (.file _)

def bytesOf (tree : FileTree) (name : String) : Except Refused ByteArray :=
  match entryOf tree name with
  | .ok (.file content) => .ok content
  | .ok _ => .error .isDirectory
  | .error reason => .error reason

end NatSpec.Shell
