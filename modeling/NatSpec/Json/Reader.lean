import NatSpec.Json.Basic
import NatSpec.Text.Digits
import NatSpec.Text.Lines

/-!
Reading JSON. The reader works on the characters that are left, and a complaint keeps those that
were left where it arose; `read` turns them into a line, a column and an offset. Objects with a
repeated key keep its first place and its last value. The numbers that are not finite have the
spellings `NaN`, `Infinity` and `-Infinity`.
-/

namespace NatSpec.Json

/-- What is wrong at a place of a text. -/
inductive Complaint
  | expectingValue
  | expectingName
  | expectingColon
  | expectingComma
  | extraData
  | unterminatedString
  | controlCharacter
  | badEscape
  | badUnicodeEscape
  | byteOrderMark
  deriving DecidableEq, Repr

def Complaint.wording : Complaint → String
  | expectingValue => "Expecting value"
  | expectingName => "Expecting property name enclosed in double quotes"
  | expectingColon => "Expecting ':' delimiter"
  | expectingComma => "Expecting ',' delimiter"
  | extraData => "Extra data"
  | unterminatedString => "Unterminated string starting at"
  | controlCharacter => "Invalid control character at"
  | badEscape => "Invalid \\escape"
  | badUnicodeEscape => "Invalid \\uXXXX escape"
  | byteOrderMark => "Unexpected UTF-8 BOM (decode using utf-8-sig)"

/-- A complaint about a place of a text. -/
structure Misread where
  complaint : Complaint
  line : Nat
  column : Nat
  offset : Nat
  deriving DecidableEq, Repr

def Misread.message (m : Misread) : String :=
  m.complaint.wording ++ ": line " ++ toString m.line ++ " column " ++ toString m.column
    ++ " (char " ++ toString m.offset ++ ")"

/-- Why a text has no value: it is misread, or it goes beyond a limit of the reader. -/
inductive Refusal
  | misread (m : Misread)
  | longNumber
  | deepNesting
  deriving DecidableEq, Repr

namespace Reader

/-- Why reading stops, with the characters left at the place of a complaint. -/
inductive Stop
  | complaint (c : Complaint) (left : List Char)
  | longNumber
  | deepNesting
  deriving DecidableEq, Repr

/-- The greatest number of digits of a whole number. -/
def maxDigits : Nat := 4300

/-- The greatest depth of arrays and objects. -/
def maxNesting : Nat := 990

/-- Drops the blanks that may stand between the parts of a value. -/
def skipSpace : List Char → List Char
  | c :: cs => if c = ' ' ∨ c = '\t' ∨ c = '\n' ∨ c = '\r' then skipSpace cs else c :: cs
  | [] => []

/-- The character that a one-letter escape stands for. -/
def shortEscape? (c : Char) : Option Char :=
  if c = '\x22' ∨ c = '\\' ∨ c = '/' then some c
  else if c = 'b' then some '\x08'
  else if c = 'f' then some '\x0c'
  else if c = 'n' then some '\n'
  else if c = 'r' then some '\r'
  else if c = 't' then some '\t'
  else none

/-- The units of the rest of a string behind its opening quote, where `opened` was left, and what
follows the closing quote. An escape by number needs a character behind its four digits; two such
escapes in a row may make up a pair. -/
def stringBody (opened : List Char) : List Char → Except Stop (List UInt16 × List Char)
  | [] => .error (.complaint .unterminatedString opened)
  | '\x22' :: rest => .ok ([], rest)
  | '\\' :: 'u' :: a :: b :: c :: d :: x :: rest =>
    match Text.hexNumber? [a, b, c, d] with
    | none => .error (.complaint .badUnicodeEscape ('u' :: a :: b :: c :: d :: x :: rest))
    | some n => do
      let (units, after) ← stringBody opened (x :: rest)
      .ok (.ofNat n :: units, after)
  | '\\' :: 'u' :: rest => .error (.complaint .badUnicodeEscape ('u' :: rest))
  | '\\' :: [] => .error (.complaint .unterminatedString opened)
  | '\\' :: c :: rest =>
    match shortEscape? c with
    | none => .error (.complaint .badEscape ('\\' :: c :: rest))
    | some x => do
      let (units, after) ← stringBody opened rest
      .ok (Text.charUnits x ++ units, after)
  | c :: rest =>
    if c.toNat < 0x20 then .error (.complaint .controlCharacter (c :: rest))
    else do
      let (units, after) ← stringBody opened rest
      .ok (Text.charUnits c ++ units, after)

/-- The digits at the start of a text, and what follows them. -/
def digits (cs : List Char) : List Char × List Char :=
  (cs.takeWhile Char.isDigit, cs.dropWhile Char.isDigit)

/-- The digits of a fraction, which has at least one, and what follows it. -/
def fraction : List Char → List Char × List Char
  | '.' :: cs =>
    match digits cs with
    | ([], _) => ([], '.' :: cs)
    | found => found
  | cs => ([], cs)

/-- A power of ten, which has at least one digit, and what follows it. -/
def power : List Char → Option Int × List Char
  | e :: cs =>
    if e = 'e' ∨ e = 'E' then
      let (negative, unsigned) := match cs with
        | '-' :: rest => (true, rest)
        | '+' :: rest => (false, rest)
        | _ => (false, cs)
      match digits unsigned with
      | ([], _) => (none, e :: cs)
      | (ds, rest) =>
        let n : Int := Text.decimalNumber ds
        (some (if negative then -n else n), rest)
    else (none, e :: cs)
  | [] => (none, [])

variable {τ : Type}

/-- A number whose whole digits have been read, and what follows it. -/
def numberFrom (negative : Bool) (whole rest : List Char) : Except Stop (Json τ × List Char) :=
  let (decimals, rest) := fraction rest
  let (exponent, rest) := power rest
  if decimals = [] ∧ exponent = none then
    if maxDigits < whole.length then .error .longNumber
    else
      let n : Int := Text.decimalNumber whole
      .ok (.int (if negative then -n else n), rest)
  else
    let value := Text.decimalNumber (whole ++ decimals)
    .ok (.float (.ofDecimal negative value (exponent.getD 0 - decimals.length)), rest)

/-- A number without its sign, where `start` was left at its start. -/
def unsignedNumber (start : List Char) (negative : Bool) :
    List Char → Except Stop (Json τ × List Char)
  | '0' :: rest => numberFrom negative ['0'] rest
  | d :: rest =>
    if d.isDigit then
      let (more, rest) := digits rest
      numberFrom negative (d :: more) rest
    else .error (.complaint .expectingValue start)
  | [] => .error (.complaint .expectingValue start)

/-- A value that is neither a string nor an array nor an object, and what follows it. -/
def scalar : List Char → Except Stop (Json τ × List Char)
  | 'n' :: 'u' :: 'l' :: 'l' :: rest => .ok (.null, rest)
  | 't' :: 'r' :: 'u' :: 'e' :: rest => .ok (.bool true, rest)
  | 'f' :: 'a' :: 'l' :: 's' :: 'e' :: rest => .ok (.bool false, rest)
  | 'N' :: 'a' :: 'N' :: rest => .ok (.float .nan, rest)
  | 'I' :: 'n' :: 'f' :: 'i' :: 'n' :: 'i' :: 't' :: 'y' :: rest =>
    .ok (.float (.infinity false), rest)
  | '-' :: 'I' :: 'n' :: 'f' :: 'i' :: 'n' :: 'i' :: 't' :: 'y' :: rest =>
    .ok (.float (.infinity true), rest)
  | '-' :: rest => unsignedNumber ('-' :: rest) true rest
  | cs => unsignedNumber cs false cs

variable [DecidableEq τ] [IsText τ]

mutual

/-- A value at the start of a text, and what follows it. Each step uses one unit of fuel; `room`
is the depth of nesting still allowed. -/
def value : Nat → Nat → List Char → Except Stop (Json τ × List Char)
  | 0, _, cs => .error (.complaint .expectingValue cs)
  | fuel + 1, room, cs =>
    match cs with
    | '\x22' :: rest => do
      let (units, after) ← stringBody cs rest
      .ok (.str (IsText.ofUnits units), after)
    | '[' :: rest =>
      match room with
      | 0 => .error .deepNesting
      | room + 1 =>
        match skipSpace rest with
        | ']' :: after => .ok (.arr [], after)
        | inside => do
          let (items, after) ← items fuel room inside
          .ok (.arr items, after)
    | '\x7b' :: rest =>
      match room with
      | 0 => .error .deepNesting
      | room + 1 =>
        match skipSpace rest with
        | '\x7d' :: after => .ok (.obj [], after)
        | inside => do
          let (fields, after) ← entries fuel room inside
          .ok (.obj (Table.ofList fields), after)
    | _ => scalar cs

/-- The items of an array up to its closing bracket, and what follows it. -/
def items : Nat → Nat → List Char → Except Stop (List (Json τ) × List Char)
  | 0, _, cs => .error (.complaint .expectingValue cs)
  | fuel + 1, room, cs => do
    let (item, rest) ← value fuel room cs
    match skipSpace rest with
    | ']' :: after => .ok ([item], after)
    | ',' :: more => do
      let (others, after) ← items fuel room (skipSpace more)
      .ok (item :: others, after)
    | other => .error (.complaint .expectingComma other)

/-- The entries of an object up to its closing brace, and what follows it. -/
def entries : Nat → Nat → List Char → Except Stop (List (Key τ × Json τ) × List Char)
  | 0, _, cs => .error (.complaint .expectingName cs)
  | fuel + 1, room, cs =>
    match cs with
    | '\x22' :: rest => do
      let (name, rest) ← stringBody cs rest
      match skipSpace rest with
      | ':' :: rest => do
        let (v, rest) ← value fuel room (skipSpace rest)
        match skipSpace rest with
        | '\x7d' :: after => .ok ([(.text (IsText.ofUnits name), v)], after)
        | ',' :: more => do
          let (others, after) ← entries fuel room (skipSpace more)
          .ok ((.text (IsText.ofUnits name), v) :: others, after)
        | other => .error (.complaint .expectingComma other)
      | other => .error (.complaint .expectingColon other)
    | _ => .error (.complaint .expectingName cs)

end

/-- The value that a whole text writes. -/
def document (cs : List Char) : Except Stop (Json τ) :=
  match cs with
  | '\uFEFF' :: _ => .error (.complaint .byteOrderMark cs)
  | _ => do
    let (v, rest) ← value (2 * cs.length + 2) maxNesting (skipSpace cs)
    match skipSpace rest with
    | [] => .ok v
    | extra => .error (.complaint .extraData extra)

end Reader

/-- The place of a text at which some of its characters are left. -/
def Misread.ofLeft (cs : List Char) (complaint : Complaint) (left : List Char) : Misread :=
  let offset := cs.length - left.length
  let (line, column) := Text.lineAndColumn (cs.take offset)
  ⟨complaint, line, column, offset⟩

def read {τ : Type} [DecidableEq τ] [IsText τ] (text : String) : Except Refusal (Json τ) :=
  let cs := text.toList
  match Reader.document cs with
  | .ok v => .ok v
  | .error (.complaint c left) => .error (.misread (.ofLeft cs c left))
  | .error .longNumber => .error .longNumber
  | .error .deepNesting => .error .deepNesting

end NatSpec.Json
