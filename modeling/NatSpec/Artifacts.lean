import NatSpec.BuildInfo
import NatSpec.FileTree.Access
import NatSpec.FileTree.Changes

/-!
Artifact directories. Each contract has an artifact, a JSON file that names its source and itself;
beside it a debug file, named for the contract, refers to the build-info document with the
compiler's output. Links are not followed while looking for artifacts, and the directory of
build-info documents at the top is left out. A reader notes the files that are no artifacts.
-/

namespace NatSpec

/-- A contract artifact and where it was found. -/
structure Artifact where
  path : Path
  id : ContractName
  deriving DecidableEq, Repr

/-- The file that refers to the build-info document of a contract. -/
def ContractName.debugFile (name : String) : String :=
  name ++ ".dbg.json"

/-- The debug file beside an artifact, if the name of the contract can name a file. -/
def Artifact.debugPath? (a : Artifact) : Option Path :=
  a.path.withName? (ContractName.debugFile a.id.name)

def FileTree.readJson {τ : Type} [DecidableEq τ] [IsText τ] (t : FileTree) (p : Path) :
    Except Failure (Json τ) :=
  match t.readValue p with
  | .ok v => .ok v
  | .error (.refused .notFound _) => (Problem.fileNotFound p.toString).fail
  | .error (.misread place) => (Problem.fileNotJson p.toString place).fail
  | .error (.refused reason path) =>
    (Problem.unreadableFile p.toString (.refused reason path)).fail
  | .error .undecodable => (Problem.unreadableFile p.toString .undecodable).fail
  | .error fault => .error (.fault fault)

namespace Artifacts

def buildInfoDirectory : String := "build-info"

/-- The location of an artifact directory, which must be there. -/
def openDirectory (t : FileTree) (p : Path) : Except Failure Location := do
  let place ← t.resolve p
  let path := Path.ofTop place
  if !(← t.holds path) then
    (Problem.noArtifactsDirectory path.toString).fail
  else if !(← t.isDirectory path) then
    (Problem.artifactsNotDirectory path.toString).fail
  else .ok place

/-- Whether a file may be an artifact, judged by its name. -/
def isCandidate (name : String) : Bool :=
  Text.endsWith name ".json" && !Text.endsWith name ".dbg.json"

/-- Where the path of a directory leads, which is the directory itself unless a link was left in its
path. -/
def landing (t : FileTree) (directory : Location) : Location :=
  match t.locate true (.ofTop directory) with
  | .ok (place, _) => place
  | .error _ => directory

/-- The names in a directory below an artifact directory, whose path leads to `top`, with what stands
there. A directory whose path is beyond the limit of the file system is passed over. -/
def listed (t : FileTree) (directory top relative : Location) : List (String × Entry) :=
  if FileTree.maxPath < (Path.ofTop (directory ++ relative)).toString.utf8ByteSize then []
  else t.children (top ++ relative)

/-- The files and links that may be artifacts, by their locations below the artifact directory, as a
walk from one of its directories meets them: those of each directory in the order in which it lists
them, then those of the directories in it. Links are not followed. The walk goes at most `depth`
deep. -/
def walk (t : FileTree) (directory top : Location) : Nat → Location → List Location
  | 0, _ => []
  | depth + 1, relative =>
    let children := listed t directory top relative
    let files := children.filter fun (name, entry) => entry ≠ .directory && isCandidate name
    let inner := children.filter fun (name, entry) =>
      entry = .directory && !(relative = [] && name = buildInfoDirectory)
    files.map (fun child => relative ++ [child.1]) ++
      inner.flatMap fun child => walk t directory top depth (relative ++ [child.1])

/-- The files and links that may be artifacts, as the walk through the whole directory meets
them. -/
def candidates (t : FileTree) (directory : Location) : List Location :=
  walk t directory (landing t directory) t.entries.length []

def contractOf? (v : Json) : Option ContractName := do
  let fields ← v.asFields?
  let source ← (Json.field fields "sourceName").asText?
  let name ← (Json.field fields "contractName").asText?
  some ⟨source, name⟩

/-- The warning about a file that is no artifact. -/
def skipWarning (relative : Location) : String :=
  "Not a contract artifact, skipped: " ++ "/".intercalate relative

/-- A reader of an artifact directory, with the warnings of its last walk. -/
structure Reader where
  directory : Location
  warnings : List String
  deriving Repr, Inhabited

/-- What a reader makes of the files and links that a walk meets: links are passed over, artifacts
are collected, and any other file is noted. The first one that cannot be read ends the walk, and the
notes stay. -/
def Reader.visit (t : FileTree) (found : List Artifact) (reader : Reader) :
    List Location → Except Failure (List Artifact) × Reader
  | [] => (.ok (found.mergeSort fun a b => a.id.qualified ≤ b.id.qualified), reader)
  | relative :: places =>
    let path := Path.ofTop (reader.directory ++ relative)
    match t.isLink path with
    | .error fault => (.error (.fault fault), reader)
    | .ok true => visit t found reader places
    | .ok false =>
      match t.readJson path with
      | .error e => (.error e, reader)
      | .ok v =>
        match contractOf? v with
        | some id => visit t (found ++ [⟨path, id⟩]) reader places
        | none =>
          visit t found { reader with warnings := reader.warnings ++ [skipWarning relative] } places

/-- All artifacts of a directory, in increasing order of their qualified names. The warnings of the
last walk are forgotten. -/
def Reader.findArtifacts (t : FileTree) (reader : Reader) :
    Except Failure (List Artifact) × Reader :=
  visit t [] { reader with warnings := [] } (candidates t reader.directory)

/-- What a walk has found: artifacts, and warnings about other files. -/
structure Findings where
  artifacts : List Artifact
  warnings : List String
  deriving Repr, Inhabited

def find (t : FileTree) (directory : Location) : Except Failure Findings := do
  let (artifacts, reader) := Reader.findArtifacts t ⟨directory, []⟩
  .ok ⟨← artifacts, reader.warnings⟩

def reference? (v : Json Utf16) : Option Utf16 := do
  let fields ← v.asFields?
  (Json.field fields "buildInfo").asText?

/-- The path that a text writes, in which a half of a pair of units may have no bytes. -/
def referencePath (text : Utf16) : Except Fault Path :=
  match text.toString? with
  | some s => .ok (.ofString s)
  | none =>
    match Text.nameBytes? text.units with
    | some bytes => .ok (.ofBytes bytes)
    | none => .error .unencodable

section

variable {τ : Type} [DecidableEq τ] [IsText τ]

/-- The build-info document to which the debug file of a contract refers. -/
def buildInfo (t : FileTree) (directory : Location) (contract : String) :
    Except Failure (Json τ) := do
  let id ← ContractName.parse contract
  let debug := Path.ofTop directory / id.source / ContractName.debugFile id.name
  match reference? (← t.readJson debug) with
  | none => (Problem.noBuildInfoReference debug.toString).fail
  | some reference =>
    let place ← t.resolve (debug.parent.join (← referencePath reference))
    let document ← t.readJson (.ofTop place)
    if document.isObj then .ok document else (Problem.malformedBuildInfo contract).fail

def output (t : FileTree) (directory : Location) (contract : String) :
    Except Failure (Json τ) := do
  let id ← ContractName.parse contract
  BuildInfo.output (← buildInfo t directory contract) id

end

def listing (t : FileTree) (directory : Location) : Except Failure Listing := do
  let found ← find t directory
  .ok ⟨found.artifacts.map fun a => a.id.qualified, found.warnings⟩

def store (t : FileTree) (directory : Location) : Store :=
  ⟨listing t directory, output t directory⟩

end Artifacts

end NatSpec
