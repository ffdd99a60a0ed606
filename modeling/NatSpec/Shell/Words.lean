/-!
Splitting a command line into words. Blanks separate words, quotes keep them together, and a
backslash takes the next character as it is; inside double quotes it does so only for a double quote
or a backslash, and otherwise stands for itself.
-/

namespace NatSpec.Shell

/-- Where a place in a command line stands: outside quotes, or inside those of one kind. -/
inductive Quoting
  | outside
  | single
  | double
  deriving DecidableEq, Repr

def isSeparator (c : Char) : Bool :=
  c = ' ' || c = '\t' || c = '\r' || c = '\n'

/-- The words from a place on, where `word` is what has been read of the current one, last character
first, if one has begun. There are none if a quote is left open or nothing follows a backslash. -/
def wordsFrom : Quoting → Option (List Char) → List Char → Option (List String)
  | .outside, none, [] => some []
  | .outside, some word, [] => some [String.ofList word.reverse]
  | _, _, [] => none
  | .outside, word, '\\' :: c :: rest => wordsFrom .outside (some (c :: word.getD [])) rest
  | .outside, _, '\\' :: [] => none
  | .outside, word, c :: rest =>
    if isSeparator c then
      match word with
      | none => wordsFrom .outside none rest
      | some w => (wordsFrom .outside none rest).map (String.ofList w.reverse :: ·)
    else if c = '\x27' then wordsFrom .single (some (word.getD [])) rest
    else if c = '\x22' then wordsFrom .double (some (word.getD [])) rest
    else wordsFrom .outside (some (c :: word.getD [])) rest
  | .single, word, c :: rest =>
    if c = '\x27' then wordsFrom .outside word rest
    else wordsFrom .single (some (c :: word.getD [])) rest
  | .double, word, '\\' :: c :: rest =>
    if c = '\\' ∨ c = '\x22' then wordsFrom .double (some (c :: word.getD [])) rest
    else wordsFrom .double (some (c :: '\\' :: word.getD [])) rest
  | .double, word, c :: rest =>
    if c = '\x22' then wordsFrom .outside word rest
    else wordsFrom .double (some (c :: word.getD [])) rest

def words? (text : String) : Option (List String) :=
  wordsFrom .outside none text.toList

end NatSpec.Shell
