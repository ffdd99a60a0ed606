import NatSpec.Text.Digits
import NatSpec.Text.Search

/-!
Hosts in brackets: addresses of version 6 of the Internet Protocol, which are eight groups of
hexadecimal digits between colons, or of a version to come, which is told by a number behind a `v`.
One run of zero groups may be left out between two colons, and the last two groups may be written
as an address of version 4. A zone may follow a percent sign.
-/

namespace NatSpec.Bracketed

/-- Whether characters are one part of an address of version 4. -/
def isOctet (cs : List Char) : Bool :=
  !cs.isEmpty && cs.length ≤ 3 && cs.all Char.isDigit && (cs.length = 1 || cs.head? ≠ some '0')
    && Text.decimalNumber cs ≤ 255

def isVersion4 (cs : List Char) : Bool :=
  let parts := Text.splitOn '.' cs
  parts.length = 4 && parts.all isOctet

/-- Whether characters are a group of an address of version 6. -/
def isGroup (cs : List Char) : Bool :=
  !cs.isEmpty && cs.length ≤ 4 && cs.all fun c => (Text.hexValue? c).isSome

/-- The groups with the address of version 4 at their end, if there is one, counted as two. -/
def withoutVersion4? (groups : List (List Char)) : Option (List (List Char)) :=
  match groups.getLast? with
  | some last =>
    if last.contains '.' then
      if isVersion4 last then some (groups.dropLast ++ [['0'], ['0']]) else none
    else some groups
  | none => none

/-- Whether groups around a gap make up an address: an end next to the gap is empty. -/
def isGapped (before after : List (List Char)) : Bool :=
  let before := if before = [[]] then [] else before
  let after := if after = [[]] then [] else after
  before.all isGroup && after.all isGroup && before.length + after.length < 8

/-- Whether groups make up an address. An empty group that is not at an end marks the gap. -/
def areGroups (groups : List (List Char)) : Bool :=
  let inner := (groups.drop 1).dropLast
  match inner.count [] with
  | 0 => groups.length = 8 && groups.all isGroup
  | 1 =>
    let place := inner.takeWhile (· ≠ []) |>.length
    isGapped (groups.take (place + 1)) (groups.drop (place + 2))
  | _ => false

/-- Whether characters are an address of version 6 without a zone. -/
def isVersion6 (cs : List Char) : Bool :=
  let groups := Text.splitOn ':' cs
  3 ≤ groups.length
    && match withoutVersion4? groups with
      | some groups => groups.length ≤ 9 && areGroups groups
      | none => false

/-- Whether characters, behind a `v`, tell a version to come and an address. -/
def isFuture (cs : List Char) : Bool :=
  let version := cs.takeWhile fun c => (Text.hexValue? c).isSome
  match cs.drop version.length with
  | '.' :: address => !version.isEmpty && !address.isEmpty
  | _ => false

def isValid (cs : List Char) : Bool :=
  match cs with
  | 'v' :: rest => isFuture rest
  | _ =>
    let zone := cs.dropWhile (· ≠ '%')
    (zone.isEmpty || (zone.length ≠ 1 && !(zone.drop 1).contains '%'))
      && isVersion6 (cs.takeWhile (· ≠ '%'))

end NatSpec.Bracketed
