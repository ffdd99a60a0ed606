import NatSpec.Toml.Basic
import NatSpec.Text.Digits

/-!
The parts of a TOML document that hold no others: strings, keys, numbers, dates and times. Each
function takes the characters that are left and gives what it has read with what follows.
-/

namespace NatSpec.Toml

/-- Why a text is no TOML document, or goes beyond a limit of the reader. -/
inductive Stop
  | invalid
  | longNumber
  | deepNesting
  deriving DecidableEq, Repr

/-- The greatest number of digits of a whole number. -/
def maxDigits : Nat := 4300

/-- Whether a character is a control character of ASCII other than the tab. -/
def isControl (c : Char) : Bool :=
  (c.toNat < 0x20 && c ≠ '\t') || c.toNat = 0x7F

/-- Drops spaces and tabs. -/
def skipBlanks (cs : List Char) : List Char :=
  cs.dropWhile fun c => c = ' ' || c = '\t'

/-- Drops spaces, tabs and line feeds. -/
def skipLines (cs : List Char) : List Char :=
  cs.dropWhile fun c => c = ' ' || c = '\t' || c = '\n'

/-- Drops a comment up to the end of its line. -/
def skipComment (cs : List Char) : Except Stop (List Char) :=
  match cs with
  | '#' :: rest =>
    if (rest.takeWhile (· ≠ '\n')).any isControl then .error .invalid
    else .ok (rest.dropWhile (· ≠ '\n'))
  | _ => .ok cs

/-- Drops blanks, line ends and comments, in any number. -/
def skipFiller : Nat → List Char → Except Stop (List Char)
  | 0, cs => .ok cs
  | fuel + 1, cs => do
    let rest ← skipComment (skipLines cs)
    if rest.length = cs.length then .ok rest else skipFiller fuel rest

/-- The character that an escape of one letter stands for. -/
def shortEscape? (c : Char) : Option Char :=
  if c = 'b' then some '\x08'
  else if c = 't' then some '\t'
  else if c = 'n' then some '\n'
  else if c = 'f' then some '\x0c'
  else if c = 'r' then some '\r'
  else if c = '\x22' then some '\x22'
  else if c = '\\' then some '\\'
  else none

/-- The character written by a number of hexadecimal digits. -/
def numberedChar (count : Nat) (cs : List Char) : Except Stop Char :=
  let ds := cs.take count
  if ds.length < count then .error .invalid
  else
    match Text.hexNumber? ds with
    | none => .error .invalid
    | some n => if n.isValidChar then .ok (Char.ofNat n) else .error .invalid

/-- What follows a line end that is escaped inside a string: blanks up to the line end, which must
be there, and all blanks and line ends behind it. -/
def joinLines (cs : List Char) : Except Stop (List Char) :=
  match skipBlanks cs with
  | [] => .ok []
  | '\n' :: rest => .ok (skipLines rest)
  | _ => .error .invalid

/-- The rest of a string in double quotes. -/
def basicBody (lines : Bool) : Nat → List Char → Except Stop (List Char × List Char)
  | 0, _ => .error .invalid
  | fuel + 1, cs =>
    match cs with
    | [] => .error .invalid
    | '\x22' :: rest =>
      if !lines then .ok ([], rest)
      else
        match rest with
        | '\x22' :: '\x22' :: after => .ok ([], after)
        | _ => do
          let (more, after) ← basicBody lines fuel rest
          .ok ('\x22' :: more, after)
    | '\\' :: 'u' :: rest => do
      let c ← numberedChar 4 rest
      let (more, after) ← basicBody lines fuel (rest.drop 4)
      .ok (c :: more, after)
    | '\\' :: 'U' :: rest => do
      let c ← numberedChar 8 rest
      let (more, after) ← basicBody lines fuel (rest.drop 8)
      .ok (c :: more, after)
    | '\\' :: c :: rest =>
      if lines && (c = ' ' || c = '\t' || c = '\n') then do
        basicBody lines fuel (← joinLines (c :: rest))
      else
        match shortEscape? c with
        | none => .error .invalid
        | some x => do
          let (more, after) ← basicBody lines fuel rest
          .ok (x :: more, after)
    | c :: rest =>
      if c = '\\' || (isControl c && !(lines && c = '\n')) then .error .invalid
      else do
        let (more, after) ← basicBody lines fuel rest
        .ok (c :: more, after)

/-- The rest of a string in single quotes. -/
def literalBody : List Char → Except Stop (List Char × List Char)
  | [] => .error .invalid
  | '\x27' :: rest => .ok ([], rest)
  | c :: rest =>
    if isControl c then .error .invalid
    else do
      let (more, after) ← literalBody rest
      .ok (c :: more, after)

/-- The rest of a string of several lines in single quotes. -/
def literalLines : List Char → Except Stop (List Char × List Char)
  | '\x27' :: '\x27' :: '\x27' :: rest => .ok ([], rest)
  | [] => .error .invalid
  | c :: rest =>
    if isControl c && c ≠ '\n' then .error .invalid
    else do
      let (more, after) ← literalLines rest
      .ok (c :: more, after)

/-- Takes up to two more quotes behind the end of a string of several lines into the string. -/
def extraQuotes (quote : Char) (body : List Char) (rest : List Char) : List Char × List Char :=
  match rest with
  | a :: b :: after =>
    if a = quote ∧ b = quote then (body ++ [quote, quote], after)
    else if a = quote then (body ++ [quote], b :: after)
    else (body, rest)
  | [a] => if a = quote then (body ++ [quote], []) else (body, rest)
  | [] => (body, rest)

/-- Drops a line end right behind the quotes that open a string of several lines. -/
def skipFirstLineEnd : List Char → List Char
  | '\n' :: rest => rest
  | cs => cs

/-- A string, if one starts here. -/
def string? (cs : List Char) : Option (Except Stop (String × List Char)) :=
  let finish (x : Except Stop (List Char × List Char)) : Except Stop (String × List Char) :=
    x.map fun (s, after) => (String.ofList s, after)
  match cs with
  | '\x22' :: '\x22' :: '\x22' :: rest =>
    some <| finish <|
      (basicBody true (rest.length + 1) (skipFirstLineEnd rest)).map fun (s, after) =>
        extraQuotes '\x22' s after
  | '\x22' :: rest => some (finish (basicBody false (rest.length + 1) rest))
  | '\x27' :: '\x27' :: '\x27' :: rest =>
    some <| finish <| (literalLines (skipFirstLineEnd rest)).map fun (s, after) =>
      extraQuotes '\x27' s after
  | '\x27' :: rest => some (finish (literalBody rest))
  | _ => none

/-- Whether a character may stand in a key without quotes. -/
def isBareKeyChar (c : Char) : Bool :=
  c.isAlphanum || c = '-' || c = '_'

def keyPart (cs : List Char) : Except Stop (String × List Char) :=
  match cs with
  | '\x22' :: rest =>
    (basicBody false (rest.length + 1) rest).map fun (s, after) => (String.ofList s, after)
  | '\x27' :: rest => (literalBody rest).map fun (s, after) => (String.ofList s, after)
  | _ =>
    match cs.takeWhile isBareKeyChar with
    | [] => .error .invalid
    | name => .ok (String.ofList name, cs.dropWhile isBareKeyChar)

/-- A dotted key with the blanks behind it. -/
def key : Nat → List Char → Except Stop (Key × List Char)
  | 0, _ => .error .invalid
  | fuel + 1, cs => do
    let (part, rest) ← keyPart cs
    match skipBlanks rest with
    | '.' :: more => do
      let (parts, after) ← key fuel (skipBlanks more)
      .ok (part :: parts, after)
    | after => .ok ([part], after)

/-- Digits that may be separated by single underscores, behind a first one. -/
def moreDigits (isDigit : Char → Bool) : List Char → List Char × List Char
  | '_' :: d :: rest =>
    if isDigit d then
      let (ds, after) := moreDigits isDigit rest
      (d :: ds, after)
    else ([], '_' :: d :: rest)
  | d :: rest =>
    if isDigit d then
      let (ds, after) := moreDigits isDigit rest
      (d :: ds, after)
    else ([], d :: rest)
  | [] => ([], [])

/-- At least one digit, and further ones. -/
def digits? (isDigit : Char → Bool) : List Char → Option (List Char × List Char)
  | d :: rest =>
    if isDigit d then
      let (ds, after) := moreDigits isDigit rest
      some (d :: ds, after)
    else none
  | [] => none

/-- What follows a fraction, if there is one. -/
def fraction? : List Char → Option (List Char)
  | '.' :: rest => (digits? Char.isDigit rest).map Prod.snd
  | _ => none

/-- What follows a power of ten, if there is one. -/
def power? : List Char → Option (List Char)
  | e :: rest =>
    if e = 'e' || e = 'E' then
      let unsigned := match rest with
        | s :: more => if s = '+' || s = '-' then more else rest
        | [] => []
      (digits? Char.isDigit unsigned).map Prod.snd
    else none
  | [] => none

/-- A number whose whole digits have been read. -/
def numberFrom (whole rest : List Char) : Except Stop (Value × List Char) :=
  let afterFraction := fraction? rest
  let unpowered := afterFraction.getD rest
  match afterFraction, power? unpowered with
  | none, none =>
    if maxDigits < whole.length then .error .longNumber else .ok (.other "int", rest)
  | _, some after => .ok (.other "float", after)
  | some after, none => .ok (.other "float", after)

/-- A number of base ten without its sign. -/
def unsigned? : List Char → Option (Except Stop (Value × List Char))
  | '0' :: rest => some (numberFrom ['0'] rest)
  | cs => (digits? Char.isDigit cs).map fun (ds, rest) => numberFrom ds rest

/-- A number of base sixteen, eight or two behind its leading zero. -/
def basedNumber? (mark : Char) (rest : List Char) : Option (List Char) :=
  let isDigit : Char → Bool :=
    if mark = 'x' then fun c => (Text.hexValue? c).isSome
    else if mark = 'o' then fun c => '0' ≤ c && c ≤ '7'
    else if mark = 'b' then fun c => c = '0' || c = '1'
    else fun _ => false
  (digits? isDigit rest).map Prod.snd

/-- A number, if one starts here. -/
def number? (cs : List Char) : Option (Except Stop (Value × List Char)) :=
  match cs with
  | '0' :: mark :: rest =>
    match basedNumber? mark rest with
    | some after => some (.ok (.other "int", after))
    | none => unsigned? cs
  | '+' :: rest | '-' :: rest => unsigned? rest
  | _ => unsigned? cs

/-- The number written by exactly the given count of digits. -/
def fixedNumber? (count : Nat) (cs : List Char) : Option (Nat × List Char) :=
  let ds := cs.take count
  if ds.length = count && ds.all Char.isDigit then some (Text.decimalNumber ds, cs.drop count)
  else none

def after? (c : Char) : List Char → Option (List Char)
  | x :: rest => if x = c then some rest else none
  | [] => none

/-- What follows the decimals of a second, of which there may be any number. -/
def skipDecimals : List Char → List Char
  | '.' :: d :: rest => if d.isDigit then rest.dropWhile Char.isDigit else '.' :: d :: rest
  | cs => cs

def time? (cs : List Char) : Option (List Char) := do
  let (hour, rest) ← fixedNumber? 2 cs
  let (minute, rest) ← fixedNumber? 2 (← after? ':' rest)
  let (second, rest) ← fixedNumber? 2 (← after? ':' rest)
  if hour < 24 ∧ minute < 60 ∧ second < 60 then some (skipDecimals rest) else none

/-- What follows an offset from universal time. -/
def offset? : List Char → Option (List Char)
  | 'Z' :: rest | 'z' :: rest => some rest
  | '+' :: rest | '-' :: rest => do
    let (hour, rest) ← fixedNumber? 2 rest
    let (minute, rest) ← fixedNumber? 2 (← after? ':' rest)
    if hour < 24 ∧ minute < 60 then some rest else none
  | _ => none

def daysOf (year month : Nat) : Nat :=
  if month = 2 then
    if year % 4 = 0 ∧ (year % 100 ≠ 0 ∨ year % 400 = 0) then 29 else 28
  else if month = 4 ∨ month = 6 ∨ month = 9 ∨ month = 11 then 30
  else 31

/-- A date, or a date and a time, if one starts here. -/
def date? (cs : List Char) : Option (Except Stop (Value × List Char)) := do
  let (year, rest) ← fixedNumber? 4 cs
  let (month, rest) ← fixedNumber? 2 (← after? '-' rest)
  let (day, rest) ← fixedNumber? 2 (← after? '-' rest)
  if 1 ≤ month ∧ month ≤ 12 ∧ 1 ≤ day ∧ day ≤ 31 then
    let (kind, after) := match rest with
      | c :: more =>
        if c = 'T' || c = 't' || c = ' ' then
          match time? more with
          | some after => ("datetime", (offset? after).getD after)
          | none => ("date", rest)
        else ("date", rest)
      | [] => ("date", [])
    some (if 1 ≤ year ∧ day ≤ daysOf year month then .ok (.other kind, after) else .error .invalid)
  else none

/-- A number that is not finite, or none, if it starts here. -/
def special? (cs : List Char) : Option (List Char) :=
  let unsigned := match cs with
    | '+' :: rest | '-' :: rest => rest
    | _ => cs
  match unsigned with
  | 'i' :: 'n' :: 'f' :: rest | 'n' :: 'a' :: 'n' :: rest => some rest
  | _ => none

/-- A value that holds no others. -/
def scalar (cs : List Char) : Except Stop (Value × List Char) :=
  match string? cs with
  | some (.ok (s, after)) => .ok (.text s, after)
  | some (.error stop) => .error stop
  | none =>
    match cs with
    | 't' :: 'r' :: 'u' :: 'e' :: rest => .ok (.flag true, rest)
    | 'f' :: 'a' :: 'l' :: 's' :: 'e' :: rest => .ok (.flag false, rest)
    | _ =>
      match date? cs with
      | some read => read
      | none =>
        match time? cs with
        | some rest => .ok (.other "time", rest)
        | none =>
          match number? cs with
          | some read => read
          | none =>
            match special? cs with
            | some rest => .ok (.other "float", rest)
            | none => .error .invalid

end NatSpec.Toml
