import NatSpec.FileTree.Changes
import NatSpec.FileTree.Update
import NatSpec.Json.Writer
import NatSpec.Text.Base64

/-!
Snapshots: file trees as JSON. A snapshot is an object that maps paths to what stands there: a text
for a file, null for a directory, and an object for a link or for a file whose bytes are no text.
Changes are told in the same way, with directories marked by a slash.
-/

namespace NatSpec.FileTree

/-- Puts an entry of a snapshot in its place. What an entry does not say is left out. -/
def placeEntry (name : String) (content : Json) : Filing Unit := do
  let p := Path.ofString name
  match content with
  | .null => makeDirectories p
  | .str s =>
    makeDirectories p.parent
    writeText p s
  | .obj [(.text "b64", .str s)] =>
    makeDirectories p.parent
    writeBytes p ⟨(Base64.decode s.toList).toArray⟩
  | .obj [(.text "link", .str target)] =>
    makeDirectories p.parent
    match (← get).locate false p with
    | .ok (place, _) => modify fun t => t.put place (.link target)
    | .error _ => pure ()
  | _ => pure ()

/-- The tree with the entries of a snapshot, in order. -/
def withSnapshot (t : FileTree) (entries : Fields) : FileTree :=
  entries.foldl (fun t (key, content) =>
    match key.asText? with
    | some name => (placeEntry name content t).2
    | none => t) t

def changedEntry : Entry → Json
  | .directory => .str ""
  | .link target => .str ("-> " ++ target)
  | .file content =>
    match String.fromUTF8? content with
    | some s => .str s
    | none => .obj [("b64", .str (String.ofList (Base64.encode content.toList)))]

/-- The changes below a directory from one state to another: what is new or different, and what is
gone. -/
def changesBelow (directory : Location) (before after : FileTree) : Fields :=
  let old := before.listing directory
  let new := after.listing directory
  [("changed", .obj ((changed old new).map fun (name, entry) => (.text name, changedEntry entry))),
    ("removed", .arr ((gone old new).map .str))]

end NatSpec.FileTree
