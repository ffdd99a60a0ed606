import NatSpec.Address.Punycode
import NatSpec.Text.Search

/-!
Names of hosts in ASCII. A name is made of labels between dots, and a label has at most 63
characters. A label with other characters than ASCII ones is written in Punycode behind a mark; it
must hold no control and no character without a meaning in a name, and one that runs from right to
left must do so at both ends and not change its direction.
-/

namespace NatSpec.Label

def isWithin (ranges : List (Nat × Nat)) (c : Char) : Bool :=
  ranges.any fun (first, last) => first ≤ c.toNat && c.toNat ≤ last

/-- Characters that count for nothing in a label. -/
def ignored : List (Nat × Nat) := [
  (0xAD, 0xAD), (0x34F, 0x34F), (0x1806, 0x1806), (0x180B, 0x180D), (0x200B, 0x200D),
  (0x2060, 0x2060), (0xFE00, 0xFE0F), (0xFEFF, 0xFEFF)]

/-- Characters that a label must not hold, apart from the last two of each plane. -/
def refused : List (Nat × Nat) := [
  (0x80, 0x9F), (0x6DD, 0x6DD), (0x70F, 0x70F), (0x1680, 0x1680), (0x180E, 0x180E),
  (0x200E, 0x200F), (0x2028, 0x202E), (0x2061, 0x2063), (0x206A, 0x206F), (0x2FF0, 0x2FFB),
  (0xE000, 0xF8FF), (0xFDD0, 0xFDEF), (0xFFF9, 0xFFFF), (0x1D173, 0x1D17A), (0xE0001, 0xE0001),
  (0xE0020, 0xE007F), (0xEFFFE, 0x10FFFF)]

/-- Characters of scripts that run from right to left. -/
def rightToLeft : List (Nat × Nat) := [
  (0x5BE, 0x5BE), (0x5C0, 0x5C0), (0x5C3, 0x5C3), (0x5D0, 0x5EA), (0x5F0, 0x5F4), (0x61B, 0x61B),
  (0x61F, 0x61F), (0x621, 0x63A), (0x640, 0x64A), (0x66D, 0x66F), (0x671, 0x6D5), (0x6E5, 0x6E6),
  (0x6FA, 0x6FE), (0x700, 0x70D), (0x710, 0x710), (0x712, 0x72C), (0x780, 0x7A5), (0x7B1, 0x7B1),
  (0x2135, 0x2138), (0xFB1D, 0xFB1D), (0xFB1F, 0xFB28), (0xFB2A, 0xFB36), (0xFB38, 0xFB3C),
  (0xFB3E, 0xFB3E), (0xFB40, 0xFB41), (0xFB43, 0xFB44), (0xFB46, 0xFBB1), (0xFBD3, 0xFC5D),
  (0xFC64, 0xFD3D), (0xFD50, 0xFD8F), (0xFD92, 0xFDC7), (0xFDF0, 0xFDFC), (0xFE71, 0xFE71),
  (0xFE73, 0xFE73), (0xFE77, 0xFE77), (0xFE79, 0xFE79), (0xFE7B, 0xFE7B), (0xFE7D, 0xFE7D),
  (0xFE7F, 0xFEFC), (0x1EE00, 0x1EEBB)]

/-- Blocks of letters that run from left to right. -/
def leftToRight : List (Nat × Nat) := [
  (0x41, 0x5A), (0x61, 0x7A), (0xC0, 0x2B8), (0x370, 0x589), (0x903, 0x1FFC), (0x3005, 0xFB17),
  (0xFF21, 0xFFDC), (0x10300, 0x1EDFF), (0x1EF00, 0x2FA1D)]

/-- Whether a label must not hold a character. -/
def isRefused (c : Char) : Bool :=
  isWithin refused c || 0xFFFE ≤ c.toNat % 0x10000

def keepsDirection (cs : List Char) : Bool :=
  !cs.any (isWithin rightToLeft)
    || (!cs.any (isWithin leftToRight) && (cs.head?.map (isWithin rightToLeft)).getD false
      && (cs.getLast?.map (isWithin rightToLeft)).getD false)

def isAscii (cs : List Char) : Bool :=
  cs.all fun c => c.toNat < 0x80

/-- A label, if it has the size of one. -/
def sized? (cs : List Char) : Option (List Char) :=
  if 0 < cs.length ∧ cs.length < 64 then some cs else none

def mark : List Char := ['x', 'n', '-', '-']

def encode? (cs : List Char) : Option (List Char) :=
  if isAscii cs then sized? cs
  else
    let kept := cs.filter fun c => !isWithin ignored c
    if kept.any isRefused || !keepsDirection kept then none
    else if isAscii kept then sized? kept
    else if mark.isPrefixOf kept then none
    else sized? (mark ++ Punycode.encode kept)

def split (isDot : Char → Bool) (name : List Char) : List (List Char) :=
  Text.splitOn '.' (name.map fun c => if isDot c then '.' else c)

/-- Whether the labels of an ASCII name have the sizes of labels; the last one may be empty. -/
def areSized (name : List Char) : Bool :=
  let labels := split (· = '.') name
  labels.dropLast.all (fun label => (sized? label).isSome)
    && decide ((labels.getLast?.getD []).length < 64)

def isDot (c : Char) : Bool :=
  c = '.' || c = '\u3002' || c = '\uFF0E' || c = '\uFF61'

def encodeName? (name : List Char) : Option (List Char) :=
  if isAscii name then
    if areSized name then some name else none
  else
    let labels := split isDot name
    let (labels, ending) :=
      if labels.getLast? = some [] then (labels.dropLast, ['.']) else (labels, [])
    (labels.mapM encode?).map fun encoded => ['.'].intercalate encoded ++ ending

end NatSpec.Label
