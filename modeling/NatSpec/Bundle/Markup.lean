import NatSpec.Text.Search

/-!
Text inside HTML. A page is a list of pieces: markup, texts, and the data of a script. In a text the
five characters with a meaning in markup are written as entities. Data are kept from ending their
script early by a backslash behind each `<` that a slash follows.
-/

namespace NatSpec

inductive Piece
  | markup (s : String)
  | text (s : String)
  | data (s : String)
  deriving DecidableEq, Repr

namespace Markup

/-- One character of a text inside HTML. -/
def escapeChar (c : Char) : List Char :=
  if c = '&' then ['&', 'a', 'm', 'p', ';']
  else if c = '<' then ['&', 'l', 't', ';']
  else if c = '>' then ['&', 'g', 't', ';']
  else if c = '\x27' then ['&', '#', '3', '9', ';']
  else if c = '\x22' then ['&', '#', '3', '4', ';']
  else [c]

def escape (s : String) : String :=
  String.ofList (s.toList.flatMap escapeChar)

def guardScript (s : String) : String :=
  String.ofList (Text.replacePairs '<' '/' ['<', '\\', '/'] s.toList)

def pieceText : Piece → String
  | .markup s => s
  | .text s => escape s
  | .data s => guardScript s

def render (pieces : List Piece) : String :=
  String.join (pieces.map pieceText)

end Markup

end NatSpec
