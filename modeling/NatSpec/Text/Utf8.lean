/-!
Reading bytes as UTF-8 where any bytes may come: each longest start of a character that does not go
on as a character is read as the replacement character.
-/

namespace NatSpec.Text

/-- The bits of a byte that continues a character, if it lies in the given range. -/
def continuation? (low high : Nat) (b : UInt8) : Option Nat :=
  let n := b.toNat
  if low ≤ n ∧ n ≤ high then some (n % 64) else none

def replacement : Char := '\uFFFD'

/-- How a character goes on behind its first byte: the number of bytes, the range of the next one,
and the bits of the first. -/
def leadingByte? (b : UInt8) : Option (Nat × Nat × Nat × Nat) :=
  let n := b.toNat
  if 0xC2 ≤ n ∧ n ≤ 0xDF then some (1, 0x80, 0xBF, n % 32)
  else if n = 0xE0 then some (2, 0xA0, 0xBF, 0)
  else if n = 0xED then some (2, 0x80, 0x9F, 13)
  else if 0xE1 ≤ n ∧ n ≤ 0xEF then some (2, 0x80, 0xBF, n % 16)
  else if n = 0xF0 then some (3, 0x90, 0xBF, 0)
  else if 0xF1 ≤ n ∧ n ≤ 0xF3 then some (3, 0x80, 0xBF, n % 8)
  else if n = 0xF4 then some (3, 0x80, 0x8F, 4)
  else none

/-- The character of a number of further bytes, and the bytes behind it. -/
def goOn (low high bits : Nat) : Nat → List UInt8 → Char × List UInt8
  | 0, rest => (Char.ofNat bits, rest)
  | _ + 1, [] => (replacement, [])
  | count + 1, b :: rest =>
    match continuation? low high b with
    | some more => goOn 0x80 0xBF (64 * bits + more) count rest
    | none => (replacement, b :: rest)

def decodeFrom : Nat → List UInt8 → List Char
  | 0, _ => []
  | _, [] => []
  | fuel + 1, b :: rest =>
    if b.toNat < 0x80 then Char.ofNat b.toNat :: decodeFrom fuel rest
    else
      match leadingByte? b with
      | none => replacement :: decodeFrom fuel rest
      | some (count, low, high, bits) =>
        let (c, after) := goOn low high bits count rest
        c :: decodeFrom fuel after

def decodeLossy (bytes : List UInt8) : String :=
  String.ofList (decodeFrom bytes.length bytes)

end NatSpec.Text
