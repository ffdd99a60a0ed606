import NatSpec.Text.Utf16

/-!
Encodings of a text as bytes, with one, two or four bytes to a unit. A text that starts with an
ASCII character shows its encoding by the places of the zeros among its first bytes.
-/

namespace NatSpec.Text

/-- An encoding: UTF-8, or one with wider units, whose bytes come in either order. -/
inductive Encoding
  | utf8
  | utf16 (bigEndian : Bool)
  | utf32 (bigEndian : Bool)
  deriving DecidableEq, Repr

namespace Encoding

/-- The encoding of bytes, judged by their zeros. -/
def ofBytes : List UInt8 → Encoding
  | [a, b] => if a = 0 then .utf16 true else if b = 0 then .utf16 false else .utf8
  | a :: b :: c :: d :: _ =>
    if a = 0 then
      if b ≠ 0 then .utf16 true else .utf32 true
    else if b = 0 then
      if c ≠ 0 ∨ d ≠ 0 then .utf16 false else .utf32 false
    else .utf8
  | _ => .utf8

/-- The number that bytes make up in an order. -/
def number (bigEndian : Bool) (bytes : List UInt8) : Nat :=
  (if bigEndian then bytes else bytes.reverse).foldl (fun n b => 256 * n + b.toNat) 0

def units16? (bigEndian : Bool) : List UInt8 → Option (List UInt16)
  | [] => some []
  | a :: b :: rest => (units16? bigEndian rest).map (.ofNat (number bigEndian [a, b]) :: ·)
  | _ => none

/-- The characters of units of four bytes. -/
def characters32? (bigEndian : Bool) : List UInt8 → Option (List Char)
  | [] => some []
  | a :: b :: c :: d :: rest =>
    let n := number bigEndian [a, b, c, d]
    if n < 0x110000 then
      (characters32? bigEndian rest).map (character n :: ·)
    else none
  | _ => none

def decode? (e : Encoding) (bytes : List UInt8) : Option String :=
  match e with
  | utf8 => String.fromUTF8? ⟨bytes.toArray⟩
  | utf16 bigEndian => (units16? bigEndian bytes).map fun units =>
    String.ofList (decodeUnits units)
  | utf32 bigEndian => (characters32? bigEndian bytes).map String.ofList

end Encoding

end NatSpec.Text
