import NatSpec.Text.Digits
import NatSpec.Text.Utf8

/-!
Percent escapes. A byte is written as a percent sign and two hexadecimal digits; bytes that are read
together make up characters. A percent sign that no two digits follow stands for itself.
-/

namespace NatSpec.Text

def bytesOf (c : Char) : List UInt8 :=
  (String.singleton c).toUTF8.toList

/-- The bytes of a text with its percent escapes replaced by the bytes they stand for. -/
def unescapeBytes : List Char → List UInt8
  | '%' :: a :: b :: rest =>
    match hexNumber? [a, b] with
    | some n => n.toUInt8 :: unescapeBytes rest
    | none => 0x25 :: unescapeBytes (a :: b :: rest)
  | c :: rest => bytesOf c ++ unescapeBytes rest
  | [] => []

/-- A text with its percent escapes replaced by the characters they stand for. -/
def unescape (s : String) : String :=
  decodeLossy (unescapeBytes s.toList)

/-- Whether a character is never escaped. -/
def isUnreserved (c : Char) : Bool :=
  c.isAlphanum || c = '-' || c = '.' || c = '_' || c = '~'

def escapeByte (b : UInt8) : List Char :=
  ['%', (hexDigit (b.toNat / 16)).toUpper, (hexDigit (b.toNat % 16)).toUpper]

/-- A text with its characters escaped, apart from letters, digits and the given ones. -/
def escape (safe : List Char) (s : String) : String :=
  String.ofList <| s.toList.flatMap fun c =>
    if isUnreserved c || safe.contains c then [c] else (bytesOf c).flatMap escapeByte

end NatSpec.Text
