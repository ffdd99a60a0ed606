import NatSpec.Shell.Pattern
import NatSpec.Text.Digits

/-!
Regular expressions of lines. In the basic form some signs need a backslash that stand alone in the
extended form.
-/

namespace NatSpec.Shell

inductive Regular
  | empty
  | one (m : Matcher)
  | atStart
  | atEnd
  | joined (a b : Regular)
  | either (a b : Regular)
  | repeated (r : Regular) (least : Nat) (most : Option Nat)
  deriving Repr, Inhabited

namespace Regular

/-- The characters that one character matches: itself, or both cases. -/
def letter (anyCase : Bool) (c : Char) : Regular :=
  if anyCase && c.toLower ≠ c.toUpper then
    .one (.among true [.range c.toLower c.toLower, .range c.toUpper c.toUpper])
  else .one (.char c)

/-- What remains behind each match of an expression at the front of a text, given the length of the
whole line. -/
def rests (length : Nat) : Nat → Regular → List Char → List (List Char)
  | 0, _, _ => []
  | _, .empty, cs => [cs]
  | _, .one m, cs =>
    match cs with
    | c :: rest => if m.accepts c then [rest] else []
    | [] => []
  | _, .atStart, cs => if cs.length = length then [cs] else []
  | _, .atEnd, cs => if cs.isEmpty then [cs] else []
  | fuel + 1, .joined a b, cs => (rests length fuel a cs).flatMap (rests length fuel b)
  | fuel + 1, .either a b, cs => rests length fuel a cs ++ rests length fuel b cs
  | fuel + 1, .repeated r least most, cs =>
    let more := if most = some 0 then []
      else
        ((rests length fuel r cs).filter fun rest => rest.length < cs.length).eraseDups.flatMap
          (rests length fuel (.repeated r (least - 1) (most.map (· - 1))))
    if least = 0 then (cs :: more).eraseDups else more.eraseDups

/-- What remains behind the longest match at the front of a text. -/
def longest? (r : Regular) (length : Nat) (cs : List Char) : Option (List Char) :=
  (rests length (4 * cs.length + 64) r cs).foldl (fun best rest =>
    match best with
    | none => some rest
    | some other => if rest.length < other.length then some rest else best) none

/-- The text before the first match in what is left of a line, and what remains behind it. -/
def find? (r : Regular) (length : Nat) : List Char → Option (List Char × List Char)
  | [] => (r.longest? length []).map fun rest => ([], rest)
  | c :: cs =>
    match r.longest? length (c :: cs) with
    | some rest => some ([], rest)
    | none => (find? r length cs).map fun (before, rest) => (c :: before, rest)

def occursIn (r : Regular) (line : String) : Bool :=
  (r.find? line.length line.toList).isSome

end Regular

/-- Whether a sign has its meaning at the front of a text, and what follows it. -/
def signInFront? (extended : Bool) (c : Char) : List Char → Option (List Char)
  | '\\' :: d :: rest => if !extended && d = c then some rest else none
  | d :: rest => if extended && d = c then some rest else none
  | [] => none

def countInFront (cs : List Char) : Option Nat × List Char :=
  let digits := cs.takeWhile Char.isDigit
  (if digits.isEmpty then none else some (Text.decimalNumber digits), cs.drop digits.length)

/-- The bounds of a repetition between braces, whose first has been read. -/
def boundsInFront? (extended : Bool) (cs : List Char) :
    Option (Nat × Option Nat × List Char) :=
  match countInFront cs with
  | (least, ',' :: rest) =>
    let (most, rest) := countInFront rest
    (signInFront? extended '\x7d' rest).map fun rest => (least.getD 0, most, rest)
  | (some n, rest) => (signInFront? extended '\x7d' rest).map fun rest => (n, some n, rest)
  | _ => none

mutual

def readEither (extended anyCase : Bool) : Nat → List Char → Regular × List Char
  | 0, cs => (.empty, cs)
  | fuel + 1, cs =>
    let (first, rest) := readSequence extended anyCase fuel .empty cs
    match signInFront? extended '|' rest with
    | some rest =>
      let (second, rest) := readEither extended anyCase fuel rest
      (.either first second, rest)
    | none => (first, rest)

/-- Reads expressions that follow one another; `before` holds those read so far. -/
def readSequence (extended anyCase : Bool) : Nat → Regular → List Char → Regular × List Char
  | 0, before, cs => (before, cs)
  | fuel + 1, before, cs =>
    match cs with
    | [] => (before, [])
    | c :: rest =>
      if (signInFront? extended '|' cs).isSome || (signInFront? extended ')' cs).isSome then
        (before, cs)
      else
        let go (r : Regular) (rest : List Char) :=
          let (r, rest) := readRepetition extended anyCase fuel r rest
          readSequence extended anyCase fuel (.joined before r) rest
        match signInFront? extended '(' cs with
        | some inner =>
          let (r, rest) := readEither extended anyCase fuel inner
          go r ((signInFront? extended ')' rest).getD rest)
        | none =>
          if c = '^' && (extended || before matches .empty) then
            readSequence extended anyCase fuel (.joined before .atStart) rest
          else if c = '$' && (extended || rest.isEmpty || (signInFront? extended ')' rest).isSome) then
            readSequence extended anyCase fuel (.joined before .atEnd) rest
          else if c = '.' then go (.one .one) rest
          else if c = '[' then
            let negated := rest.head? = some '^'
            let glyphs := (if negated then rest.drop 1 else rest).map fun c => ⟨c, false, false⟩
            match listedFrom (rest.length + 1) [] glyphs with
            | some (listed, after) =>
              go (.one (.among (!negated) listed)) (after.map Glyph.char)
            | none => go (Regular.letter anyCase c) rest
          else if c = '\\' then
            match rest with
            | 'n' :: rest => go (.one (.char '\n')) rest
            | 't' :: rest => go (.one (.char '\t')) rest
            | d :: rest => go (Regular.letter anyCase d) rest
            | [] => go (.one (.char '\\')) []
          else go (Regular.letter anyCase c) rest

def readRepetition (extended anyCase : Bool) : Nat → Regular → List Char → Regular × List Char
  | 0, r, cs => (r, cs)
  | fuel + 1, r, cs =>
    if cs.head? = some '*' then
      readRepetition extended anyCase fuel (.repeated r 0 none) (cs.drop 1)
    else
      match signInFront? extended '+' cs, signInFront? extended '?' cs,
          (signInFront? extended '\x7b' cs).bind (boundsInFront? extended) with
      | some rest, _, _ => readRepetition extended anyCase fuel (.repeated r 1 none) rest
      | _, some rest, _ => readRepetition extended anyCase fuel (.repeated r 0 (some 1)) rest
      | _, _, some (least, most, rest) =>
        readRepetition extended anyCase fuel (.repeated r least most) rest
      | _, _, _ => (r, cs)

end

def Regular.ofText (extended anyCase : Bool) (text : String) : Regular :=
  (readEither extended anyCase (4 * text.length + 16) text.toList).1

end NatSpec.Shell
