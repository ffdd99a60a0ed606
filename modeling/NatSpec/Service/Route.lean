import NatSpec.Text.Search

/-!
What the service has under a path. Each endpoint has its methods, and an endpoint for one path stands
in front of those for many. If the methods of all that stand under a path do not fit, the path is
tried once more with two slashes in a row replaced by one.
-/

namespace NatSpec.Service

inductive Endpoint
  | index
  | health
  | resolve
  | generate
  | nothing
  | file (path : String)
  deriving DecidableEq, Repr

def Endpoint.methods : Endpoint → List String
  | resolve | generate => ["POST", "OPTIONS"]
  | _ => ["GET", "HEAD", "OPTIONS"]

/-- Whether a text can stand for several components of a path: it does not start with a slash, and
no line ends behind its first character. -/
def isTail : List Char → Bool
  | [] => false
  | c :: rest => c ≠ '/' && !rest.contains '\n'

/-- The directory of files that belong to the service itself, of which there are none. -/
def ownDirectory : List Char :=
  ['s', 't', 'a', 't', 'i', 'c', '/']

/-- The endpoints under a path, the first to be tried first. -/
def endpoints (path : String) : List Endpoint :=
  let cs := path.toList
  let single := if path = "" then [.index]
    else if path = "api/health" then [.health]
    else if path = "api/resolve" then [.resolve]
    else if path = "api/generate" then [.generate]
    else if ownDirectory.isPrefixOf cs && isTail (cs.drop ownDirectory.length) then [.nothing]
    else []
  single ++ if isTail cs then [.file path] else []

/-- Two slashes in a row replaced by one, from left to right. -/
def mergeSlashes (path : String) : String :=
  String.ofList (Text.replacePairs '/' '/' ['/'] path.toList)

inductive Route
  | found (endpoint : Endpoint)
  | moved
  | wrongMethod
  | wrongScheme
  | missing
  deriving DecidableEq, Repr

/-- Where a request with a method leads that asks for an unescaped path without slashes in front.
Under a scheme for other conversations nothing can be had. -/
def Route.of (plainScheme : Bool) (method path : String) : Route :=
  let suits (e : Endpoint) : Bool := plainScheme && e.methods.contains method
  let merged := endpoints (mergeSlashes path)
  let all := endpoints path ++ merged
  match (endpoints path).find? suits with
  | some (.file "index.html") => .moved
  | some endpoint => .found endpoint
  | none =>
    if merged.any suits then .moved
    else if all.any fun e => !e.methods.contains method then .wrongMethod
    else if all.isEmpty then .missing
    else .wrongScheme

/-- Where a request without a path leads. -/
def Route.ofNone (plainScheme : Bool) (method : String) : Route :=
  if plainScheme && Endpoint.index.methods.contains method then .moved else .missing

end NatSpec.Service
