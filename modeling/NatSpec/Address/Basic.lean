import NatSpec.Address.Authority

/-!
Addresses of resources: a scheme, an authority, a path and a query, each of which may be missing; a
fragment is dropped. The path behind an authority may itself start like an address, and is then taken
for one once more.
-/

namespace NatSpec

structure Address where
  scheme : String
  authority : String
  path : String
  query : String
  deriving DecidableEq, Repr, Inhabited

namespace Address

def isSchemeChar (c : Char) : Bool :=
  c.isAlphanum || c = '+' || c = '-' || c = '.'

/-- The scheme in small letters, empty if there is none, and what follows it. -/
def splitScheme (cs : List Char) : List Char × List Char :=
  match cs.head?.map Char.isAlpha, cs.dropWhile isSchemeChar with
  | some true, ':' :: rest => ((cs.takeWhile isSchemeChar).map Char.toLower, rest)
  | _, _ => ([], cs)

/-- The authority, empty if there is none, and what follows it. -/
def splitAuthority : List Char → List Char × List Char
  | '/' :: '/' :: rest =>
    let ends (c : Char) : Bool := c = '/' || c = '?' || c = '#'
    (rest.takeWhile fun c => !ends c, rest.dropWhile fun c => !ends c)
  | cs => ([], cs)

/-- The parts of an address, if it can have its authority. Line ends and tabs in it count for
nothing, and neither do blanks and controls in front. -/
def split? (text : String) : Option Address :=
  let cs := (text.toList.dropWhile (· ≤ ' ')).filter fun c => c ≠ '\n' && c ≠ '\r' && c ≠ '\t'
  let (scheme, rest) := splitScheme cs
  let (authority, rest) := splitAuthority rest
  if Authority.isAdmitted authority then
    let unmarked := rest.takeWhile (· ≠ '#')
    let (path, query) := Authority.divide '?' unmarked
    some ⟨.ofList scheme, .ofList authority, .ofList path, .ofList query⟩
  else none

/-- The schemes whose addresses have two slashes even without an authority. -/
def slashedSchemes : List String := [
  "ftp", "http", "gopher", "nntp", "telnet", "imap", "wais", "file", "mms", "https", "shttp",
  "snews", "prospero", "rtsp", "rtspu", "rsync", "svn", "svn+ssh", "sftp", "nfs", "git", "git+ssh",
  "ws", "wss"]

/-- The text of an address without a query, given its authority in ASCII. -/
def textWith (a : Address) (authority : String) : String :=
  let slashed := authority ≠ "" || (slashedSchemes.contains a.scheme && !a.path.startsWith "//")
  let path := if slashed && a.path ≠ "" && !a.path.startsWith "/" then "/" ++ a.path else a.path
  (if a.scheme = "" then "" else a.scheme ++ ":") ++ (if slashed then "//" else "") ++ authority
    ++ path

def encodedAuthority? (a : Address) : Option String :=
  (Authority.ofChars a.authority.toList).encode?

/-- The authority that stands for a missing one. -/
def defaultAuthority : String := "localhost"

/-- The address of a request, with its authority in ASCII and the path that is asked for. The path
is split once more, and what comes of it is brought into its plain form. -/
def ofRequest? (text : String) : Option Address := do
  let outer ← split? text
  let authority ←
    if outer.authority = "" then some defaultAuthority else outer.encodedAuthority?
  let inner ← split? outer.path
  let plain ← split? inner.path
  let path := plain.textWith (← plain.encodedAuthority?)
  some { outer with authority := authority, path := path }

/-- The name of the host as it is looked up: without a port, and with a user if there is one. -/
def serverName (a : Address) : List Char :=
  (a.authority.toList.takeWhile (· ≠ ':')).map Char.toLower

end Address

end NatSpec
