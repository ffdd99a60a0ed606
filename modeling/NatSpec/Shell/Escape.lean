import NatSpec.Text.Digits

/-!
Backslash escapes in output. One letter stands for a control character and octal digits for a byte;
a backslash before anything else stands for itself.
-/

namespace NatSpec.Shell

def isOctal (c : Char) : Bool :=
  '0' ≤ c && c ≤ '7'

def octalByte (digits : List Char) : Char :=
  Char.ofNat (digits.foldl (fun n c => 8 * n + Text.digitValue c) 0 % 256)

def octalDigits (count : Nat) (cs : List Char) : List Char :=
  (cs.take count).takeWhile isOctal

/-- The character that a letter behind a backslash stands for. -/
def escapeLetter? : Char → Option Char
  | 'n' => some '\n'
  | 'r' => some '\r'
  | 't' => some '\t'
  | 'a' => some '\x07'
  | 'b' => some '\x08'
  | 'f' => some '\x0c'
  | 'v' => some '\x0b'
  | '\\' => some '\\'
  | _ => none

/-- What a backslash and the text behind it stand for: a character, and how many characters of the
text belong to it. -/
def escaped (cs : List Char) : Char × Nat :=
  match cs with
  | [] => ('\\', 0)
  | c :: _ =>
    match escapeLetter? c with
    | some x => (x, 1)
    | none => if isOctal c then (octalByte (octalDigits 3 cs), (octalDigits 3 cs).length) else ('\\', 0)

/-- A text with its escapes replaced, up to one that ends all output, and whether there is none. Here
octal digits may stand behind a zero. -/
def unescape (fuel : Nat) (taken : List Char) (cs : List Char) : List Char × Bool :=
  match fuel, cs with
  | 0, _ | _, [] => (taken.reverse, true)
  | _ + 1, '\\' :: 'c' :: _ => (taken.reverse, false)
  | fuel + 1, '\\' :: '0' :: d :: rest =>
    let digits := if isOctal d then d :: rest else '0' :: d :: rest
    unescape fuel ((escaped digits).1 :: taken) (digits.drop (escaped digits).2)
  | fuel + 1, '\\' :: rest =>
    unescape fuel ((escaped rest).1 :: taken) (rest.drop (escaped rest).2)
  | fuel + 1, c :: rest => unescape fuel (c :: taken) rest

/-- A text with its escapes replaced, and whether output may go on behind it. -/
def unescaped (s : String) : String × Bool :=
  let (cs, goesOn) := unescape (s.length + 1) [] s.toList
  (String.ofList cs, goesOn)

/-- What a call for output writes: the words with single spaces between them. A first word `-n`
leaves out the line end. -/
def echoed (words : List String) : String :=
  let rec go : List String → String → String
    | [], ending => ending
    | word :: rest, ending =>
      let (text, goesOn) := unescaped word
      if !goesOn then text
      else if rest.isEmpty then text ++ ending
      else text ++ " " ++ go rest ending
  match words with
  | "-n" :: rest => go rest ""
  | words => go words "\n"

end NatSpec.Shell
