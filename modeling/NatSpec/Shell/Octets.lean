import NatSpec.FileTree.Path
import NatSpec.Text.Utf8

/-!
The texts of a shell. A shell reads and writes bytes and knows no characters beyond them: a text is
a string in which each character stands for one byte. Texts from outside are narrowed to their UTF-8
form, and names are widened again where the file tree is asked for them.
-/

namespace NatSpec.Shell

def ofBytes (bytes : ByteArray) : String :=
  String.ofList (bytes.toList.map fun b => Char.ofNat b.toNat)

def octets (s : String) : ByteArray :=
  ⟨(s.toList.map fun c => c.toNat.toUInt8).toArray⟩

def narrow (s : String) : String :=
  ofBytes s.toUTF8

def widen (s : String) : String :=
  Text.decodeLossy (octets s).toList

def pathOf (s : String) : Path :=
  Path.ofString (widen s)

/-- The lines of a text without their ends. What follows the last end is a line of its own unless it
is empty. -/
def linesOf (s : String) : List String :=
  let parts := (Text.splitOn '\n' s.toList).map String.ofList
  if parts.getLast? = some "" then parts.dropLast else parts

def startsName (c : Char) : Bool :=
  c.isAlpha || c = '_'

def continuesName (c : Char) : Bool :=
  c.isAlphanum || c = '_'

def isName (s : String) : Bool :=
  match s.toList with
  | c :: rest => startsName c && rest.all continuesName
  | [] => false

end NatSpec.Shell
