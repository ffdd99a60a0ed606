/-!
Line ends. Text is read with every carriage return, alone or before a line feed, taken as one
line feed. Positions in a text are counted in lines and columns from one.
-/

namespace NatSpec.Text

/-- Turns each CR LF pair and each lone CR into one LF. -/
def unifyLineEnds : List Char → List Char
  | '\r' :: '\n' :: rest => '\n' :: unifyLineEnds rest
  | '\r' :: rest => '\n' :: unifyLineEnds rest
  | c :: rest => c :: unifyLineEnds rest
  | [] => []

def withLineFeeds (s : String) : String :=
  String.ofList (unifyLineEnds s.toList)

/-- Line and column, both from one, of the place behind the given characters. -/
def lineAndColumn (before : List Char) : Nat × Nat :=
  (before.count '\n' + 1, (before.reverse.takeWhile (· ≠ '\n')).length + 1)

end NatSpec.Text
