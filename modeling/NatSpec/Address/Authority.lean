import NatSpec.Address.Bracketed
import NatSpec.Address.Label
import NatSpec.Text.Percent

/-!
The part of an address between two slashes and the path: a user with a password, a host and a port.
It is read leniently and then written in ASCII, which fails for a host or a port that cannot be.
-/

namespace NatSpec

/-- A user with a password, a host and a port, each of which may be empty. -/
structure Authority where
  user : String
  password : String
  host : String
  port : String
  deriving DecidableEq, Repr

namespace Authority

/-- Characters that a compatible form of Unicode turns into ones that end an authority or divide
it. -/
def disguised : List Char := [
  '\u2047', '\u2048', '\u2049', '\u2100', '\u2101', '\u2105', '\u2106', '\u2A74', '\uFE13',
  '\uFE16', '\uFE55', '\uFE56', '\uFE5F', '\uFE6B', '\uFF03', '\uFF0F', '\uFF1A', '\uFF1F',
  '\uFF20']

/-- Whether an address can have an authority with these characters: brackets stand around one host
of their own, and no character is disguised. -/
def isAdmitted (cs : List Char) : Bool :=
  let brackets :=
    if cs.contains '[' && cs.contains ']' then
      Bracketed.isValid (((cs.dropWhile (· ≠ '[')).drop 1).takeWhile (· ≠ ']'))
    else !cs.contains '[' && !cs.contains ']'
  brackets && !cs.any disguised.contains

/-- What stands before the first occurrence of a character and what stands behind it. -/
def divide (c : Char) (cs : List Char) : List Char × List Char :=
  (cs.takeWhile (· ≠ c), (cs.dropWhile (· ≠ c)).drop 1)

/-- What stands before the last at sign and what stands behind it; without one, all stands
behind. -/
def divideUser (cs : List Char) : List Char × List Char :=
  if cs.contains '@' then
    let (behind, before) := divide '@' cs.reverse
    (before.reverse, behind.reverse)
  else ([], cs)

def ofChars (cs : List Char) : Authority :=
  let (user, place) := divideUser cs
  let (name, password) := divide ':' user
  let (host, port) :=
    if place.contains '[' then
      let (host, rest) := divide ']' (divide '[' place).2
      (host, (divide ':' rest).2)
    else divide ':' place
  ⟨.ofList name, .ofList password, .ofList host, .ofList port⟩

/-- The host in small letters, apart from a zone behind a percent sign. -/
def plainHost (a : Authority) : List Char :=
  let cs := a.host.toList
  (cs.takeWhile (· ≠ '%')).map Char.toLower ++ cs.dropWhile (· ≠ '%')

/-- The number of the port, which is zero if there is none. -/
def portNumber? (a : Authority) : Option Nat :=
  let n := Text.decimalNumber a.port.toList
  if a.port.toList.all Char.isDigit && n ≤ 65535 then some n else none

/-- Characters of a user and a password that are not escaped. -/
def plainInUser : List Char :=
  ['%', '!', '$', '&', '\x27', '(', ')', '*', '+', ',', ';', '=']

/-- The user with the password in front of a host. -/
def writeUser (a : Authority) : String :=
  if a.user = "" then ""
  else
    Text.escape plainInUser a.user
      ++ (if a.password = "" then "" else ":" ++ Text.escape plainInUser a.password) ++ "@"

def encode? (a : Authority) : Option String := do
  let host ← Label.encodeName? a.plainHost
  let port ← a.portNumber?
  let shown := String.ofList (if host.contains ':' then '[' :: host ++ [']'] else host)
  some (a.writeUser ++ shown ++ if port = 0 then "" else ":" ++ toString port)

end Authority

end NatSpec
