import NatSpec.Shell.Script

/-!
Patterns. A star matches any text, a question mark one character, and brackets one of the characters
they list; quoted characters match themselves.
-/

namespace NatSpec.Shell

/-- A character of a word whose quotes have been taken out: `literal` if it was quoted, `divisible`
if it came out of something replaced and may therefore separate fields. -/
structure Glyph where
  char : Char
  literal : Bool
  divisible : Bool
  deriving DecidableEq, Repr, Inhabited

def Glyph.textOf (glyphs : List Glyph) : String :=
  String.ofList (glyphs.map Glyph.char)

def Glyph.quoted (s : String) : List Glyph :=
  s.toList.map fun c => ⟨c, true, false⟩

/-- What brackets list: a range of characters or a class of them. -/
inductive Listed
  | range (first last : Char)
  | kind (name : String)
  deriving DecidableEq, Repr

inductive Matcher
  | char (c : Char)
  | one
  | many
  | among (wanted : Bool) (listed : List Listed)
  deriving DecidableEq, Repr

def isOfKind (name : String) (c : Char) : Bool :=
  let graphic := '!' ≤ c && c ≤ '~'
  match name with
  | "alpha" => c.isAlpha
  | "digit" => c.isDigit
  | "alnum" => c.isAlphanum
  | "upper" => c.isUpper
  | "lower" => c.isLower
  | "space" => c = ' ' || ('\t' ≤ c && c ≤ '\r')
  | "blank" => c = ' ' || c = '\t'
  | "punct" => graphic && !c.isAlphanum
  | "graph" => graphic
  | "print" => graphic || c = ' '
  | "cntrl" => c < ' ' || c = '\x7f'
  | "xdigit" => c.isDigit || ('a' ≤ c && c ≤ 'f') || ('A' ≤ c && c ≤ 'F')
  | _ => false

/-- Whether something listed in brackets holds a character. -/
def Listed.holds (c : Char) : Listed → Bool
  | range first last => first ≤ c && c ≤ last
  | kind name => isOfKind name c

/-- Whether an element of a pattern matches one character. -/
def Matcher.accepts (c : Char) : Matcher → Bool
  | char d => c = d
  | one | many => true
  | among wanted listed => (listed.any (·.holds c)) == wanted

def matchesAll : List Matcher → List Char → Bool
  | [], cs => cs.isEmpty
  | .many :: ms, [] => matchesAll ms []
  | .many :: ms, c :: cs => matchesAll ms (c :: cs) || matchesAll (.many :: ms) cs
  | _ :: _, [] => false
  | m :: ms, c :: cs => m.accepts c && matchesAll ms cs
termination_by ms cs => ms.length + cs.length

def Glyph.isBare (g : Glyph) (c : Char) : Bool :=
  !g.literal && g.char = c

/-- What brackets list and what follows them, given what has been listed; none if they stay open. -/
def listedFrom : Nat → List Listed → List Glyph → Option (List Listed × List Glyph)
  | 0, _, _ => none
  | _, _, [] => none
  | fuel + 1, listed, g :: rest =>
    if g.isBare ']' && !listed.isEmpty then some (listed, rest)
    else
      let named := (rest.drop 1).takeWhile fun h => h.char.isAlpha
      let behind := rest.drop (named.length + 1)
      if g.isBare '[' && (rest.head?.map Glyph.char) = some ':'
          && (behind.take 2).map Glyph.char = [':', ']'] then
        listedFrom fuel (.kind (Glyph.textOf named) :: listed) (behind.drop 2)
      else
        match rest with
        | dash :: last :: after =>
          if dash.isBare '-' && !last.isBare ']' then
            listedFrom fuel (.range g.char last.char :: listed) after
          else listedFrom fuel (.range g.char g.char :: listed) rest
        | rest => listedFrom fuel (.range g.char g.char :: listed) rest

def matchersFrom : Nat → List Glyph → List Matcher
  | 0, _ => []
  | _, [] => []
  | fuel + 1, g :: rest =>
    if g.isBare '*' then .many :: matchersFrom fuel rest
    else if g.isBare '?' then .one :: matchersFrom fuel rest
    else if g.isBare '[' then
      let negated := (rest.head?.map (·.isBare '!')).getD false
      match listedFrom (rest.length + 1) [] (if negated then rest.drop 1 else rest) with
      | some (listed, after) => .among (!negated) listed :: matchersFrom fuel after
      | none => .char '[' :: matchersFrom fuel rest
    else .char g.char :: matchersFrom fuel rest

def matchers (glyphs : List Glyph) : List Matcher :=
  matchersFrom (glyphs.length + 1) glyphs

/-- Whether glyphs hold anything that can match another text than their own. -/
def isPattern (glyphs : List Glyph) : Bool :=
  glyphs.any fun g => g.isBare '*' || g.isBare '?' || g.isBare '['

def matchesText (glyphs : List Glyph) (s : String) : Bool :=
  matchesAll (matchers glyphs) s.toList

/-- A text without what a pattern matches at one of its ends, as little or as much as possible. -/
def trimmed (side : Side) (most : Bool) (pattern : List Matcher) (s : String) : String :=
  let cs := s.toList
  let counts := List.range (cs.length + 1)
  let hit := (if most then counts.reverse else counts).find? fun n =>
    match side with
    | .front => matchesAll pattern (cs.take n)
    | .back => matchesAll pattern (cs.drop (cs.length - n))
  match hit, side with
  | none, _ => s
  | some n, .front => String.ofList (cs.drop n)
  | some n, .back => String.ofList (cs.take (cs.length - n))

end NatSpec.Shell
