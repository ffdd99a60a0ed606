import NatSpec.Decimal.Binary64
import NatSpec.Shell.Arithmetic
import NatSpec.Shell.Escape

/-!
Formatted output. A format is text with directives; each directive takes the next argument and shows
it as a text or a number, filled up to a width. A format that takes arguments is used again as long
as there are some.
-/

namespace NatSpec.Shell

/-- A directive of a format: its flags, its least width, the precision if one is given, and the
letter that says what it shows. -/
structure Directive where
  flags : List Char
  width : Nat
  precision : Option Nat
  letter : Char
  deriving Inhabited

/-- A text filled up to the width of a directive: behind it if a minus asks for that, else in
front. -/
def Directive.fill (d : Directive) (text : String) : String :=
  let blanks := String.ofList (List.replicate (d.width - text.length) ' ')
  if d.flags.contains '-' then text ++ blanks else blanks ++ text

/-- A number from its sign, the mark of its base and its digits, filled up to the width of a
directive; zeros stand between the sign and the digits if asked for. -/
def Directive.fillNumber (d : Directive) (zeros : Bool) (sign digits : String) : String :=
  let missing := d.width - (sign.length + digits.length)
  if zeros && d.flags.contains '0' && !d.flags.contains '-' then
    sign ++ String.ofList (List.replicate missing '0') ++ digits
  else d.fill (sign ++ digits)

def Directive.sign (d : Directive) (negative : Bool) : String :=
  if negative then "-"
  else if d.flags.contains '+' then "+"
  else if d.flags.contains ' ' then " "
  else ""

/-- The digits of a number with zeros in front up to a precision; zero has none at precision zero. -/
def Directive.digits (d : Directive) (base n : Nat) : String :=
  let digits := if n = 0 && d.precision = some 0 then [] else Nat.toDigits base n
  let missing := d.precision.getD 1 - digits.length
  String.ofList (List.replicate missing '0' ++ digits)

def Directive.showWhole (d : Directive) (n : Int) : String :=
  let natural := (Int.emod n (Binary64.twoTo 64)).toNat
  let plain := d.precision.isNone
  let marked := d.flags.contains '#'
  match d.letter with
  | 'o' =>
    let digits := d.digits 8 natural
    d.fillNumber plain "" (if marked && digits.toList.head? ≠ some '0' then "0" ++ digits else digits)
  | 'x' => d.fillNumber plain (if marked && natural ≠ 0 then "0x" else "") (d.digits 16 natural)
  | 'X' =>
    d.fillNumber plain (if marked && natural ≠ 0 then "0X" else "")
      (String.ofList ((d.digits 16 natural).toList.map Char.toUpper))
  | 'u' => d.fillNumber plain "" (d.digits 10 natural)
  | _ => d.fillNumber plain (d.sign (n < 0)) (d.digits 10 n.natAbs)

/-- The digits of a quotient rounded to so many places behind the point. -/
def fixedPlaces (num den places : Nat) : String :=
  let n := Binary64.roundQuotient (num * Binary64.tenTo places) den
  let digits := Nat.toDigits 10 n
  let all := List.replicate (places + 1 - digits.length) '0' ++ digits
  let whole := String.ofList (all.take (all.length - places))
  if places = 0 then whole else whole ++ "." ++ String.ofList (all.drop (all.length - places))

/-- The first digits of a quotient, so many behind the first, and the exponent of the first. -/
def leadingDigits (num den places : Nat) : List Char × Int :=
  let guess : Int := (Nat.toDigits 10 num).length - (Nat.toDigits 10 den).length
  let digitsAt (exponent : Int) : List Char :=
    let shift : Int := (places : Int) - exponent
    Nat.toDigits 10
      (Binary64.roundQuotient (num * Binary64.tenTo shift.toNat)
        (den * Binary64.tenTo (-shift).toNat))
  let found := [guess + 1, guess, guess - 1].find? fun e => (digitsAt e).length = places + 1
  let exponent := found.getD guess
  (digitsAt exponent, exponent)

/-- An exponent with its sign and at least two digits. -/
def exponentText (letter : Char) (exponent : Int) : String :=
  let digits := Nat.toDigits 10 exponent.natAbs
  String.ofList
    (letter :: (if exponent < 0 then '-' else '+') :: List.replicate (2 - digits.length) '0' ++ digits)

/-- A text without zeros behind its point, and without a point that nothing follows. -/
def withoutTrailingZeros (s : String) : String :=
  if s.toList.contains '.' then
    let kept := s.toList.reverse.dropWhile (· = '0')
    String.ofList ((if kept.head? = some '.' then kept.drop 1 else kept).reverse)
  else s

/-- The digits of a positive quotient as a directive shows them. -/
def Directive.realDigits (d : Directive) (num den : Nat) : String :=
  let precision := d.precision.getD 6
  let scientific (places : Nat) (trim : Bool) : String :=
    let (digits, exponent) :=
      if num = 0 then (List.replicate (places + 1) '0', 0) else leadingDigits num den places
    let first := String.ofList (digits.take 1)
    let text := if places = 0 then first else first ++ "." ++ String.ofList (digits.drop 1)
    let letter := if d.letter.isUpper then 'E' else 'e'
    (if trim then withoutTrailingZeros text else text) ++ exponentText letter exponent
  match d.letter.toLower with
  | 'e' => scientific precision false
  | 'g' =>
    let count := max precision 1
    let exponent : Int := if num = 0 then 0 else (leadingDigits num den (count - 1)).2
    let trim := !d.flags.contains '#'
    if exponent < -4 || (count : Int) ≤ exponent then scientific (count - 1) trim
    else
      let text := fixedPlaces num den ((count : Int) - 1 - exponent).toNat
      if trim then withoutTrailingZeros text else text
  | _ => fixedPlaces num den precision

def Directive.showReal (d : Directive) : Binary64 → String
  | .nan => d.fill "nan"
  | .infinity negative => d.fill (d.sign negative ++ "inf")
  | .finite negative m q =>
    let (num, den) :=
      if 0 ≤ q then (m * Binary64.twoTo q.toNat, 1) else (m, Binary64.twoTo (-q).toNat)
    d.fillNumber true (d.sign negative) (d.realDigits num den)

/-- The real number in front of a text and what follows it. -/
def realInFront? (s : String) : Option (Binary64 × List Char) := do
  let cs := s.toList.dropWhile isNumberBlank
  let (negative, cs) := match cs with
    | '-' :: cs => (true, cs)
    | '+' :: cs => (false, cs)
    | cs => (false, cs)
  let whole := cs.takeWhile Char.isDigit
  let (part, rest) := match cs.drop whole.length with
    | '.' :: more => (more.takeWhile Char.isDigit, more.dropWhile Char.isDigit)
    | more => ([], more)
  if whole.isEmpty && part.isEmpty then none
  let (power, rest) : Int × List Char := match rest with
    | e :: more =>
      if e = 'e' || e = 'E' then
        match signedInFront? true (String.ofList (more.takeWhile fun c => !isNumberBlank c)) with
        | some (n, after) => (n, after ++ more.dropWhile fun c => !isNumberBlank c)
        | none => (0, rest)
      else (0, rest)
    | [] => (0, [])
  let exponent : Int := power - (part.length : Int)
  some (Binary64.ofDecimal negative (Text.decimalNumber (whole ++ part)) exponent, rest)

/-- The state of formatted output: the arguments left, what has been written, complaints about
arguments, and a mistake in the format that ends all output. -/
structure Formatting where
  left : List String
  written : List Char
  complaints : List String
  mistake : Option String
  ended : Bool
  deriving Inhabited

namespace Formatting

def takeArgument (f : Formatting) : Option String × Formatting :=
  (f.left.head?, { f with left := f.left.drop 1 })

def write (f : Formatting) (s : String) : Formatting :=
  { f with written := s.toList.reverse ++ f.written }

def complain (f : Formatting) (complaint : String) : Formatting :=
  { f with complaints := f.complaints ++ [complaint] }

/-- Complains if an argument has not been read to its end. -/
def check (f : Formatting) (s : String) (rest : Option (List Char)) (inRange : Bool) : Formatting :=
  match rest with
  | none => if s.isEmpty then f else f.complain (s ++ ": expected numeric value")
  | some (_ :: _) => f.complain (s ++ ": not completely converted")
  | some [] => if inRange then f else f.complain (s ++ ": Numerical result out of range")

/-- The character whose number an argument asks for: one behind a quote. -/
def quotedCharacter? (s : String) : Option Char :=
  match s.toList with
  | '"' :: rest | '\x27' :: rest => some (rest.head?.getD '\x00')
  | _ => none

/-- Takes the next argument as a whole number. -/
def takeWhole (f : Formatting) (signed : Bool) : Int × Formatting :=
  match f.takeArgument with
  | (none, f) => (0, f)
  | (some s, f) =>
    match quotedCharacter? s, signedInFront? false s with
    | some c, _ => (c.toNat, f)
    | none, none => (0, f.check s none true)
    | none, some (n, rest) =>
      let kept := if signed then clamped n else min n (Binary64.twoTo 64 - 1)
      (kept, f.check s (some rest) (kept = n))

/-- Takes the next argument as a real number. -/
def takeReal (f : Formatting) : Binary64 × Formatting :=
  match f.takeArgument with
  | (none, f) => (Binary64.ofDecimal false 0 0, f)
  | (some s, f) =>
    match quotedCharacter? s, realInFront? s with
    | some c, _ => (Binary64.ofDecimal false c.toNat 0, f)
    | none, none => (Binary64.ofDecimal false 0 0, f.check s none true)
    | none, some (x, rest) => (x, f.check s (some rest) true)

/-- Shows the next argument as a directive asks. -/
def present (f : Formatting) (text : String) (d : Directive) : Formatting :=
  let cut (s : String) : String := match d.precision with
    | some n => String.ofList (s.toList.take n)
    | none => s
  match d.letter with
  | 's' =>
    let (s, f) := f.takeArgument
    f.write (d.fill (cut (s.getD "")))
  | 'b' =>
    let (s, f) := f.takeArgument
    let (s, goesOn) := unescaped (s.getD "")
    { f.write (d.fill (cut s)) with ended := !goesOn }
  | 'c' =>
    let (s, f) := f.takeArgument
    f.write (d.fill (String.singleton ((s.getD "").toList.head?.getD '\x00')))
  | letter =>
    if letter = 'd' || letter = 'i' then
      let (n, f) := f.takeWhole true
      f.write (d.showWhole n)
    else if letter = 'o' || letter = 'u' || letter = 'x' || letter = 'X' then
      let (n, f) := f.takeWhole false
      f.write (d.showWhole n)
    else if "eEfFgG".toList.contains letter then
      let (x, f) := f.takeReal
      f.write (d.showReal x)
    else { f with mistake := some (text ++ ": invalid directive"), ended := true }

/-- A number of a directive: written out, or taken from the arguments for a star. -/
def takeNumber (f : Formatting) (cs : List Char) : Option Int × List Char × Formatting :=
  match cs with
  | '*' :: rest =>
    let (n, f) := f.takeWhole true
    (some n, rest, f)
  | cs =>
    let digits := cs.takeWhile Char.isDigit
    (if digits.isEmpty then none else some (Text.decimalNumber digits), cs.drop digits.length, f)

/-- Carries out a directive whose text follows a percent sign; what follows the directive is the
second result. -/
def directive (f : Formatting) (cs : List Char) : Formatting × List Char :=
  let flags := cs.takeWhile fun c => "#-+ 0".toList.contains c
  let (width, behind, f) := f.takeNumber (cs.drop flags.length)
  let (precision, behind, f) : Option Nat × List Char × Formatting := match behind with
    | '.' :: more =>
      let (n, behind, f) := f.takeNumber more
      (match n with
        | some (.negSucc _) => none
        | some (.ofNat n) => some n
        | none => some 0, behind, f)
    | behind => (none, behind, f)
  let width := width.getD 0
  let flags := if width < 0 then '-' :: flags else flags
  match behind with
  | [] => ({ f with mistake := some "missing format character", ended := true }, [])
  | letter :: rest =>
    let text := '%' :: cs.take (cs.length - rest.length)
    (f.present (String.ofList text) ⟨flags, width.natAbs, precision, letter⟩, rest)

/-- Goes through a format once. -/
def run : Nat → Formatting → List Char → Formatting
  | 0, f, _ => f
  | _, f, [] => f
  | fuel + 1, f, '%' :: '%' :: rest => run fuel (f.write "%") rest
  | fuel + 1, f, '%' :: rest =>
    let (f, rest) := f.directive rest
    if f.ended then f else run fuel f rest
  | fuel + 1, f, '\\' :: rest =>
    let (c, count) := escaped rest
    run fuel (f.write (String.singleton c)) (rest.drop count)
  | fuel + 1, f, c :: rest => run fuel (f.write (String.singleton c)) rest

/-- Goes through a format as long as it takes arguments and some are left. -/
def runAll (format : List Char) : Nat → Formatting → Formatting
  | 0, f => f
  | fuel + 1, f =>
    let g := run (format.length + 1) f format
    if g.ended || g.left.isEmpty || g.left.length = f.left.length then g else runAll format fuel g

end Formatting

def formatted (format : String) (arguments : List String) : Formatting :=
  Formatting.runAll format.toList (arguments.length + 1) ⟨arguments, [], [], none, false⟩

end NatSpec.Shell
