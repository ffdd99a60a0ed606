import NatSpec.Address.Basic
import NatSpec.BuildInfo
import NatSpec.Json.Sorted
import NatSpec.Json.Writer
import NatSpec.FileTree.Access
import NatSpec.Service.Request
import NatSpec.Service.Route
import NatSpec.Version

/-!
Answers of the service. It resolves one contract or all contracts of a build-info document that is
posted as JSON, and serves the files of a bundle. A problem of the posted data is a client error, a
fault an internal one. Answers in JSON have their fields in increasing order.
-/

namespace NatSpec.Service

/-- An answer: a status and, for those that have one, a body. -/
structure Response where
  status : Nat
  body : Option String
  deriving DecidableEq, Repr

def Response.json (status : Nat) (v : Json) : Response :=
  ⟨status, some (v.write .tight ++ "\n")⟩

def Response.error (status : Nat) (message : String) : Response :=
  .json status (.obj [("error", .str message)])

/-- The answer of a success, whose fields must have an order. -/
def Response.sorted (v : Json) : Except Failure Response :=
  match v.sorted? with
  | some v => .ok (.json 200 v)
  | none => .error (.fault .wrongKind)

/-- The answer for a resource that is not there. -/
def notFound : Response := .error 404 "Not found"

/-- The answer to a method that a resource does not have. -/
def methodNotAllowed : Response := ⟨405, none⟩

/-- The answer that leads to the one address of a resource. -/
def movedPermanently : Response := ⟨308, none⟩

/-- The answer after a fault of the service. -/
def internalError : Response := .error 500 "Internal server error"

/-- The answer to a request that makes no sense. -/
def notUnderstood : Response :=
  ⟨400, some (String.join [
    "<!doctype html>\n<html lang=en>\n<title>400 Bad Request</title>\n<h1>Bad Request</h1>\n",
    "<p>The browser (or proxy) sent a request that this server could not understand.</p>\n"])⟩

/-- The answer of a successful computation, or of its failure. -/
def answer (result : Except Failure Response) : Response :=
  match result with
  | .ok response => response
  | .error (.problem p) =>
    if p.isArtifact then .error 400 p.message else internalError
  | .error (.fault _) => internalError

/-- The answer to a body that is too large to be read. -/
def bodyTooLarge : Response := .error 413 "Request too large. Maximum size is 50MB."

/-- The answer of an endpoint that reads the body of a request before all else. -/
def answerBody (r : Request) (result : Except Failure Response) : Response :=
  if r.isTooLarge then bodyTooLarge else answer result

def bodyFields (r : Request) : Except Failure Fields :=
  match r.value (τ := String) with
  | .ok (some (.obj fields)) => .ok fields
  | .ok _ => Problem.bodyNotObject.fail
  | .error refusal => .error (.fault (.ofRefusal refusal))

def health : Response :=
  .json 200 (.obj [("status", .str "healthy"), ("version", .str programVersion)])

def textArray (texts : List String) : Json :=
  .arr (texts.map .str)

def resolve (r : Request) : Except Failure Response := do
  let fields ← bodyFields r
  match Json.field fields "contract", Json.field fields "output" with
  | .str contract, .obj output =>
    let doc ← resolveContract contract (.obj output) (Json.field fields "strict").truthy
    Response.sorted (.obj [("success", .bool true), ("contract", doc.toJson),
      ("warnings", textArray doc.warnings)])
  | .str _, _ => .ok (.error 400 "'output' must be an object")
  | _, _ => .ok (.error 400 "'contract' is required")

/-- Whether the query of a request asks for strictness. -/
def isStrict (r : Request) : Bool :=
  lowerCase ((queryValue? r.query "strict").getD "false") = "true"

/-- Resolves all contracts of the posted build-info document. -/
def generate (r : Request) : Except Failure Response := do
  let fields ← bodyFields r
  let store ← BuildInfo.store (.obj fields)
  let docs ← store.resolveAll (isStrict r)
  Response.sorted (.obj [("success", .bool true), ("contracts", Docs.toJson docs),
    ("warnings", textArray docs.warnings)])

/-- The components of a relative path with double dots resolved; those that lead above its start
stay in front. -/
def foldDots (done : List String) : List String → List String
  | [] => done
  | part :: rest =>
    if part = ".." ∧ done ≠ [] ∧ done.getLast? ≠ some ".." then foldDots done.dropLast rest
    else foldDots (done ++ [part]) rest

/-- The components of a file below a bundle, if the path does not lead out of it. -/
def insidePath? (path : String) : Option (List String) :=
  let p := Path.ofString path
  let parts := foldDots [] p.parts
  if p.start ≠ .here ∨ parts.head? = some ".." then none else some parts

def holdsLineEnd (s : String) : Bool :=
  s.toList.any fun c => c = '\n' || c = '\r'

/-- Serves a file of a bundle, which is told to the client by its name. -/
def bundleFile (t : FileTree) (bundle : Option Location) (path : String) : Response :=
  match bundle, insidePath? path with
  | some directory, some parts =>
    let p : Path := .ofTop (directory ++ parts)
    if FileTree.holdsNull p then notFound
    else
      match t.status p with
      | .ok (.file content) =>
        if holdsLineEnd p.name then internalError
        else ⟨200, some (Text.decodeLossy content.toList)⟩
      | _ => notFound
  | _, _ => notFound

/-- The file that is served for the top of a bundle. -/
def indexFile : String := "index.html"

def Endpoint.answer (t : FileTree) (bundle : Option Location) (r : Request) :
    Endpoint → Response
  | .index => bundleFile t bundle indexFile
  | .health => Service.health
  | .resolve => answerBody r (Service.resolve r)
  | .generate => answerBody r (Service.generate r)
  | .nothing => notFound
  | .file path => bundleFile t bundle path

/-- The answer to a request that leads somewhere. What can be done with an endpoint is told without
a body. -/
def Route.answer (t : FileTree) (bundle : Option Location) (r : Request) (method : String) :
    Route → Response
  | .found endpoint =>
    if method = "OPTIONS" then ⟨200, some ""⟩ else endpoint.answer t bundle r
  | .moved => movedPermanently
  | .wrongMethod => methodNotAllowed
  | .wrongScheme => notUnderstood
  | .missing => notFound

def routeOf (address : Address) (method : String) : Route :=
  let plainScheme := address.scheme ≠ "ws" && address.scheme ≠ "wss"
  let path := Text.unescape address.path
  if path = "" then .ofNone plainScheme method
  else .of plainScheme method (String.ofList (path.toList.dropWhile (· = '/')))

/-- Answers a request to an address. A name of a host that cannot be looked up is not understood. The
answer to a request for the heading of a resource has an empty body. -/
def respondTo (t : FileTree) (bundle : Option Location) (r : Request) (address : Address) :
    Response :=
  let method := methodName r.method
  let response :=
    if Label.areSized address.serverName then
      (routeOf address method).answer t bundle r method
    else notUnderstood
  if method = "HEAD" then { response with body := response.body.map fun _ => "" } else response

/-- Answers a request. An address with a query of its own cannot be requested, nor can a content type
of several lines be given. -/
def respond (t : FileTree) (bundle : Option Location) (r : Request) : Except Fault Response :=
  match Address.ofRequest? r.address with
  | none => .error .badValue
  | some address =>
    if address.query ≠ "" || holdsLineEnd (r.contentType.getD "") then .error .badValue
    else .ok (respondTo t bundle r address)

/-- The location of the bundle that a service serves, if it serves one. -/
def openBundle (t : FileTree) (directory : String) : Except Fault (Option Location) :=
  if directory = "" then .ok none
  else do .ok (some (← t.resolve (Path.ofString directory)))

end NatSpec.Service
