import NatSpec.Json.Reader
import NatSpec.Text.Blank
import NatSpec.Text.Encoding
import NatSpec.Text.Percent
import NatSpec.Text.Search

/-!
Requests to the service: a method, the address of a resource, a query, and a body that counts as
JSON only under a media type for JSON.
-/

namespace NatSpec.Service

structure Request where
  method : String
  address : String
  query : String
  contentType : Option String
  body : Option String
  deriving Repr, Inhabited

/-- Characters outside ASCII whose capitals are made of ASCII letters, with these. -/
def foldedLetters : List (Char × List Char) := [
  ('\u00DF', ['S', 'S']), ('\u0131', ['I']), ('\u017F', ['S']), ('\uFB00', ['F', 'F']),
  ('\uFB01', ['F', 'I']), ('\uFB02', ['F', 'L']), ('\uFB03', ['F', 'F', 'I']),
  ('\uFB04', ['F', 'F', 'L']), ('\uFB05', ['S', 'T']), ('\uFB06', ['S', 'T'])]

/-- A method in capitals, as far as these are ASCII letters. -/
def methodName (s : String) : String :=
  String.ofList <| s.toList.flatMap fun c =>
    ((foldedLetters.find? fun entry => entry.1 = c).map Prod.snd).getD [c.toUpper]

/-- One name or value in a query: a plus sign stands for a blank. -/
def queryText (s : String) : String :=
  Text.unescape (s.map fun c => if c = '+' then ' ' else c)

/-- The names and values of a query, in order; a name may stand alone. -/
def queryEntries (query : String) : List (String × String) :=
  ((Text.splitOn '&' query.toList).filter (· ≠ [])).map fun part =>
    let text := String.ofList part
    match Text.splitFirst? "=" text with
    | some (name, value) => (queryText name, queryText value)
    | none => (queryText text, "")

/-- The first value of a name in a query. -/
def queryValue? (query name : String) : Option String :=
  (queryEntries query |>.find? fun entry => entry.1 = name).map Prod.snd

def lowerCase (s : String) : String :=
  s.map Char.toLower

/-- Whether a content type is one of JSON, whatever its parameters. -/
def isJsonType (contentType : String) : Bool :=
  let media := lowerCase (Text.trim (String.ofList (contentType.toList.takeWhile (· ≠ ';'))))
  media = "application/json"
    || (Text.startsWith media "application/" && Text.endsWith media "+json")

/-- The greatest size of a body that is read, in bytes. -/
def maxBody : Nat := 50 * 1024 * 1024

/-- Whether a request has a body of JSON that is larger than what is read. -/
def Request.isTooLarge (r : Request) : Bool :=
  match r.contentType, r.body with
  | some contentType, some body => isJsonType contentType && maxBody < body.utf8ByteSize
  | _, _ => false

/-- The text of a body, which may come in any encoding with a byte order mark in front or without
one. -/
def bodyText? (body : String) : Option String :=
  match body.toList with
  | '\uFEFF' :: rest => some (String.ofList rest)
  | cs =>
    if (cs.take 3).contains '\x00' then
      let bytes := body.toUTF8.toList
      (Text.Encoding.ofBytes bytes).decode? bytes
    else some body

/-- The JSON value of a body of a size that is read, if it has one. Nesting beyond the reader's limit
is an error. -/
def Request.value {τ : Type} [DecidableEq τ] [IsText τ] (r : Request) :
    Except Json.Refusal (Option (Json τ)) :=
  match r.contentType, r.body with
  | some contentType, some body =>
    if isJsonType contentType then
      match (bodyText? body).map Json.read with
      | some (.ok v) => .ok (some v)
      | some (.error .deepNesting) => .error .deepNesting
      | some (.error _) | none => .ok none
    else .ok none
  | _, _ => .ok none

end NatSpec.Service
