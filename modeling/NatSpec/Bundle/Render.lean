import NatSpec.Bundle.Index
import NatSpec.FileTree.Update
import NatSpec.Problem

/-!
Writing a bundle: the data of all contracts, then one page a contract, then the index page. A file
is written only if its resolved place is inside the bundle's directory. The first failure ends the
run and leaves what has been written.
-/

namespace NatSpec

/-- What a bundle holds, and how its data are laid out. -/
structure RenderOptions where
  includeHtml : Bool := true
  includeMarkdown : Bool := true
  jsonIndent : Json := .int 2
  deriving Repr, Inhabited

/-- A run on a file tree that may fail and then keeps what it has changed. -/
abbrev Run := ExceptT Failure (StateM FileTree)

/-- A computation on a file tree as part of a run. -/
instance : MonadLift Filing Run where
  monadLift x := fun t =>
    match x t with
    | (.ok a, t) => (.ok a, t)
    | (.error fault, t) => (.error (.fault fault), t)

/-- A computation that may meet a fault as part of a run. -/
instance : MonadLift (Except Fault) Run where
  monadLift x := liftM (m := Except Failure) (liftM (m := Except Fault) x : Except Failure _)

/-- The layout of data with an indentation: none, a number of blanks, or a text. -/
def Json.Layout.ofIndent : Json → Except Fault Json.Layout
  | .null => .ok .compact
  | .int n => .ok (.spaces n)
  | .bool b => .ok (.spaces (cond b 1 0))
  | .str unit => .ok (.indented unit.toList)
  | _ => .error .wrongKind

namespace Bundle

def dataFile : String := "docgen-data.json"

def indexFile : String := "index.html"

/-- Whether a location is a directory or inside it. -/
def isInside (directory place : Location) : Bool :=
  directory.isPrefixOf place

/-- Writes a file of a bundle and gives its resolved path. -/
def write (directory : Path) (relative : Path) (content : String) : Run Path := do
  let t ← get
  let target ← t.resolve (directory.join relative)
  let root ← t.resolve directory
  if isInside root target then
    let path := Path.ofTop target
    FileTree.makeDirectories path.parent
    FileTree.writeText path content
    return path
  else throw (.problem (.outsideBundle relative.toString))

def dataText (docs : Docs) (indent : Json) : Except Fault String := do
  .ok (docs.data.write (← Json.Layout.ofIndent indent) ++ "\n")

/-- Writes the pages of contracts, in order. -/
def writePages (directory : Path) : Docs → Run (List Path)
  | [] => return []
  | (_, doc) :: rest => do
    let page ← doc.pagePath
    let written ← write directory page (← Page.render doc)
    return written :: (← writePages directory rest)

/-- Writes all files of a bundle and gives their paths in the order of writing. -/
def writeAll (docs : Docs) (directory : Path) (options : RenderOptions) : Run (List Path) := do
  FileTree.makeDirectories directory
  let data ← write directory (Path.ofString dataFile) (← dataText docs options.jsonIndent)
  let pages ← if options.includeMarkdown then writePages directory docs else pure []
  let index ←
    if options.includeHtml then do
      let content ← Index.render docs options.includeMarkdown
      let path ← write directory (Path.ofString indexFile) content
      pure [path]
    else pure []
  return data :: pages ++ index

/-- Whether a fault while a bundle is written is reported as a problem of the bundle. -/
def isReported : Fault → Bool
  | .refused _ _ | .wrongKind | .badValue | .undefinedName => true
  | _ => false

/-- The failure that is reported for a failure while a bundle is written. -/
def report : Failure → Failure
  | .fault f => if isReported f then .problem (.bundleNotWritten f) else .fault f
  | failure => failure

/-- Writes a bundle and gives the paths of its files in the order of writing. -/
def render (docs : Docs) (directory : Path) (options : RenderOptions) : Run (List Path) := do
  try writeAll docs directory options
  catch failure => throw (report failure)

end Bundle

end NatSpec
