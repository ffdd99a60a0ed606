import NatSpec.FileTree.Resolve
import NatSpec.Text.Lines

/-!
Reading a file tree: whether a path leads somewhere, and the content of a file. Text is UTF-8 and is
read with unified line ends.
-/

namespace NatSpec.FileTree

/-- The entry at the end of a path, if any. Only a name beyond the limit of the file system is a
fault; what is missing or leads through something other than a directory has no entry. -/
def lookup (t : FileTree) (p : Path) : Except Fault (Option Entry) :=
  if holdsNull p then .ok none
  else
    match t.status p with
    | .ok entry => .ok (some entry)
    | .error .nameTooLong => .error (.refused .nameTooLong p.toString)
    | .error _ => .ok none

def holds (t : FileTree) (p : Path) : Except Fault Bool := do
  .ok (← t.lookup p).isSome

def isDirectory (t : FileTree) (p : Path) : Except Fault Bool := do
  .ok (decide ((← t.lookup p) = some .directory))

/-- Whether a path leads to a link. Only a name beyond the limit of the file system is a fault. -/
def isLink (t : FileTree) (p : Path) : Except Fault Bool :=
  if holdsNull p then .ok false
  else
    match t.locate false p with
    | .ok (_, entry) => .ok (entry.any Entry.isLink)
    | .error .nameTooLong => .error (.refused .nameTooLong p.toString)
    | .error _ => .ok false

def readBytes (t : FileTree) (p : Path) : Except Fault ByteArray :=
  if holdsNull p then .error .badValue
  else
    match t.status p with
    | .ok (.file content) => .ok content
    | .ok _ => .error (.refused .isDirectory p.toString)
    | .error reason => .error (.refused reason p.toString)

def decodeText (content : ByteArray) : Except Fault String :=
  match String.fromUTF8? content with
  | some s => .ok s
  | none => .error .undecodable

def readText (t : FileTree) (p : Path) : Except Fault String := do
  .ok (Text.withLineFeeds (← decodeText (← t.readBytes p)))

/-- The JSON value that the file at the end of a path holds. -/
def readValue {τ : Type} [DecidableEq τ] [IsText τ] (t : FileTree) (p : Path) :
    Except Fault (Json τ) := do
  match Json.read (← t.readText p) with
  | .ok v => .ok v
  | .error refusal => .error (.ofRefusal refusal)

end NatSpec.FileTree
