/-!
Bytes written with sixty-four characters, four for three bytes, with equals signs at the end in
place of what is missing.
-/

namespace NatSpec.Base64

/-- The characters in the order of their values. -/
def digits : List Char :=
  "ABCDEFGHIJKLMNOPQRSTUVWXYZabcdefghijklmnopqrstuvwxyz0123456789+/".toList

/-- The character of a value below sixty-four. -/
def digit (n : Nat) : Char :=
  digits.getD n '='

def encode : List UInt8 → List Char
  | a :: b :: c :: rest =>
    let n := a.toNat * 65536 + b.toNat * 256 + c.toNat
    digit (n / 262144) :: digit (n / 4096 % 64) :: digit (n / 64 % 64) :: digit (n % 64)
      :: encode rest
  | [a, b] =>
    let n := a.toNat * 65536 + b.toNat * 256
    [digit (n / 262144), digit (n / 4096 % 64), digit (n / 64 % 64), '=']
  | [a] =>
    let n := a.toNat * 65536
    [digit (n / 262144), digit (n / 4096 % 64), '=', '=']
  | [] => []

/-- The bytes of values below sixty-four. -/
def bytesOf : List Nat → List UInt8
  | a :: b :: c :: d :: rest =>
    let n := a * 262144 + b * 4096 + c * 64 + d
    (n / 65536).toUInt8 :: (n / 256 % 256).toUInt8 :: (n % 256).toUInt8 :: bytesOf rest
  | [a, b, c] =>
    let n := a * 262144 + b * 4096 + c * 64
    [(n / 65536).toUInt8, (n / 256 % 256).toUInt8]
  | [a, b] => [((a * 262144 + b * 4096) / 65536).toUInt8]
  | _ => []

/-- The bytes that characters write; all but the sixty-four are left out. -/
def decode (cs : List Char) : List UInt8 :=
  bytesOf ((cs.filter digits.contains).map digits.idxOf)

end NatSpec.Base64
