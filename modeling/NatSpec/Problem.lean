import NatSpec.Fault

/-!
Problems: what a run reports to its user, with the fault that caused it if there is one. A run
that fails has met a problem or a fault that no problem accounts for.
-/

namespace NatSpec

inductive Problem
  | unknownOption (key : String)
  | optionKind (key expected given : String)
  | unreadableOptions (path : String) (cause : Fault)
  | optionsNotTable
  | outputOutsideRoot
  | outputIsRoot
  | unreadableInput (path : String) (cause : Fault)
  | inputNotObject (path : String)
  | notQualified (name : String)
  | noAbi (contract : String)
  | metadataNotJson (contract : String) (place : Json.Misread)
  | metadataNotObject (contract : String)
  | fileNotFound (path : String)
  | fileNotJson (path : String) (place : Json.Misread)
  | unreadableFile (path : String) (cause : Fault)
  | noArtifactsDirectory (path : String)
  | artifactsNotDirectory (path : String)
  | noBuildInfoReference (path : String)
  | malformedBuildInfo (contract : String)
  | noOutput (source name : String) (cause : Fault)
  | malformedOutput (source name : String)
  | noContractsTable
  | bodyNotObject
  | duplicateSignatures (contract : String) (signatures : List String)
  | bundleNotWritten (cause : Fault)
  | outsideBundle (path : String)
  | notCleared (path : String) (cause : Fault)
  | emptyCommand
  | commandNotFound (program : String)
  | commandFailed (status : Int) (output : String)
  deriving DecidableEq, Repr

inductive Problem.Kind
  | configuration
  | artifact
  | duplicateSignature
  | bundle
  | compile
  deriving DecidableEq, Repr

namespace Problem

def kind : Problem → Kind
  | unknownOption .. | optionKind .. | unreadableOptions .. | optionsNotTable
  | outputOutsideRoot | outputIsRoot | unreadableInput .. | inputNotObject .. => .configuration
  | duplicateSignatures .. => .duplicateSignature
  | bundleNotWritten .. | outsideBundle .. | notCleared .. => .bundle
  | emptyCommand | commandNotFound .. | commandFailed .. => .compile
  | _ => .artifact

/-- Whether a problem is one of the compiler's artifacts, duplicate signatures among them. -/
def isArtifact (p : Problem) : Bool :=
  p.kind = .artifact || p.kind = .duplicateSignature

def message : Problem → String
  | unknownOption key => "Unknown soldocgen option: " ++ key
  | optionKind key expected given =>
    "Option " ++ key ++ " must be a " ++ expected ++ ", got " ++ given
  | unreadableOptions path cause => "Could not read " ++ path ++ ": " ++ cause.detail
  | optionsNotTable => "[tool.soldocgen] must be a table"
  | outputOutsideRoot => "resolved path must be inside of project directory"
  | outputIsRoot => "resolved path must not be root directory"
  | unreadableInput path cause => "Could not read compiler input " ++ path ++ ": " ++ cause.detail
  | inputNotObject path => "Compiler input is not a JSON object: " ++ path
  | notQualified name => "Not a fully-qualified contract name: " ++ Text.quoted name
  | noAbi contract => "Compiler output for " ++ contract ++ " has no ABI"
  | metadataNotJson contract place =>
    "Invalid metadata JSON for " ++ contract ++ ": " ++ place.message
  | metadataNotObject contract => "Invalid metadata for " ++ contract
  | fileNotFound path => "File not found: " ++ path
  | fileNotJson path place => "Invalid JSON in " ++ path ++ ": " ++ place.message
  | unreadableFile path cause => "Could not read " ++ path ++ ": " ++ cause.detail
  | noArtifactsDirectory path =>
    "Artifacts directory does not exist: " ++ path ++ " (compile the project first)"
  | artifactsNotDirectory path => "Artifacts path is not a directory: " ++ path
  | noBuildInfoReference path => "No buildInfo reference in " ++ path
  | malformedBuildInfo contract => "Malformed build-info for " ++ contract
  | noOutput source name _ => "Build info has no output for " ++ source ++ ":" ++ name
  | malformedOutput source name => "Malformed output for " ++ source ++ ":" ++ name
  | noContractsTable => "Build info has no output.contracts table"
  | bodyNotObject => "Request body must be a JSON object"
  | duplicateSignatures contract signatures =>
    "Duplicate signatures in " ++ contract ++ ": " ++ ", ".intercalate signatures
  | bundleNotWritten cause => "Failed to write documentation bundle: " ++ cause.detail
  | outsideBundle path => "Refusing to write outside the bundle: " ++ path
  | notCleared path _ => "Could not clear " ++ path ++ ": " ++ Fault.withheld
  | emptyCommand => "Compile command is empty"
  | commandNotFound program => "Compile command not found: " ++ program
  | commandFailed status output =>
    "Compile command failed with exit code " ++ Text.signedDecimal status ++ ": " ++ output

def cause? : Problem → Option Fault
  | unreadableOptions _ cause | unreadableInput _ cause | unreadableFile _ cause
  | noOutput _ _ cause | bundleNotWritten cause | notCleared _ cause => some cause
  | metadataNotJson _ place | fileNotJson _ place => some (.misread place)
  | fileNotFound path => some (.refused .notFound path)
  | commandNotFound program => some (.refused .notFound program)
  | commandFailed .. => some .exitStatus
  | _ => none

end Problem

inductive Failure
  | problem (p : Problem)
  | fault (f : Fault)
  deriving DecidableEq, Repr

/-- A computation that may meet a fault is one that may fail. -/
instance : MonadLift (Except Fault) (Except Failure) where
  monadLift
    | .ok a => .ok a
    | .error f => .error (.fault f)

def Problem.fail {α : Type} (p : Problem) : Except Failure α :=
  .error (.problem p)

end NatSpec
