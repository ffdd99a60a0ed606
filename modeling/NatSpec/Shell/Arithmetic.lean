import NatSpec.Decimal.Binary64
import NatSpec.Shell.Octets
import NatSpec.Table
import NatSpec.Text.Digits

/-!
Arithmetic in scripts: whole numbers of sixty-four bits that wrap around, variables, assignments and
choices. An expression is read as a whole before anything in it is computed.
-/

namespace NatSpec.Shell

inductive Operation
  | add | sub | mul | div | mod | shiftLeft | shiftRight
  | less | lessEqual | greater | greaterEqual | equal | different
  | and | xor | or
  deriving DecidableEq, Repr

inductive Adjustment
  | plus | minus | complement | not
  deriving DecidableEq, Repr

inductive Expression
  | number (n : Int)
  | named (name : String)
  | adjusted (op : Adjustment) (e : Expression)
  | combined (op : Operation) (a b : Expression)
  | both (a b : Expression)
  | either (a b : Expression)
  | chosen (test yes no : Expression)
  | assigned (name : String) (op : Option Operation) (e : Expression)
  deriving Inhabited

/-- Why an expression has no value. -/
inductive ArithmeticFault
  | expecting (what : String)
  | divisionByZero
  | illegalNumber (text : String)
  deriving DecidableEq, Repr

def ArithmeticFault.message (expression : String) : ArithmeticFault → String
  | expecting what => "arithmetic expression: expecting " ++ what ++ ": \"" ++ expression ++ "\""
  | divisionByZero => "arithmetic expression: division by zero: \"" ++ expression ++ "\""
  | illegalNumber text => "Illegal number: " ++ text

/-- A number as sixty-four bits with a sign hold it. -/
def wrapped (n : Int) : Int :=
  Int.bmod n (Binary64.twoTo 64)

/-- A number brought between the least and the greatest of sixty-four bits. -/
def clamped (n : Int) : Int :=
  max (-Binary64.twoTo 63) (min (Binary64.twoTo 63 - 1) n)

/-- The digits of a base in front, as a number, and what follows them. -/
def digitsOf (base : Nat) (cs : List Char) : Option (Nat × List Char) :=
  let isDigit (c : Char) : Bool := (Text.hexValue? c).any (· < base)
  let digits := cs.takeWhile isDigit
  if digits.isEmpty then none
  else some (digits.foldl (fun n c => base * n + (Text.hexValue? c).getD 0) 0,
    cs.drop digits.length)

/-- The number in front of a text and what follows it. A zero in front asks for base eight and one
with an x for base sixteen. -/
def numberInFront? : List Char → Option (Nat × List Char)
  | '0' :: x :: rest =>
    if x = 'x' || x = 'X' then
      match digitsOf 16 rest with
      | some found => some found
      | none => some (0, x :: rest)
    else digitsOf 8 ('0' :: x :: rest)
  | cs => digitsOf 10 cs

/-- Whether a character is blank where numbers are read. -/
def isNumberBlank (c : Char) : Bool :=
  c = ' ' || ('\t' ≤ c && c ≤ '\r')

/-- The number with a sign in front of a text, blanks in front of it passed over, and what follows
it. -/
def signedInFront? (decimal : Bool) (s : String) : Option (Int × List Char) :=
  let read (cs : List Char) := if decimal then digitsOf 10 cs else numberInFront? cs
  match s.toList.dropWhile isNumberBlank with
  | '-' :: cs => (read cs).map fun (n, rest) => (-(n : Int), rest)
  | '+' :: cs => (read cs).map fun (n, rest) => ((n : Int), rest)
  | cs => (read cs).map fun (n, rest) => ((n : Int), rest)

/-- The number that a text writes, blanks around it passed over, if sixty-four bits hold it. -/
def integer? (decimal : Bool) (s : String) : Option Int := do
  let (n, rest) ← signedInFront? decimal s
  if rest.all isNumberBlank && clamped n = n then some n else none

inductive Lexeme
  | number (n : Int)
  | named (name : String)
  | sign (text : String)
  deriving DecidableEq, Repr

/-- The signs of expressions, longer ones first. -/
def signs : List String :=
  ["<<=", ">>=", "<<", ">>", "<=", ">=", "==", "!=", "&&", "||", "+=", "-=", "*=", "/=", "%=", "&=",
    "^=", "|=", "+", "-", "*", "/", "%", "<", ">", "&", "^", "|", "!", "~", "?", ":", "(", ")", "="]

/-- The tokens of an expression; what is no token ends them. -/
def lexemes : Nat → List Char → List Lexeme
  | 0, _ => []
  | _, [] => []
  | fuel + 1, c :: rest =>
    if isNumberBlank c then lexemes fuel rest
    else if c.isDigit then
      match numberInFront? (c :: rest) with
      | some (n, after) => .number (clamped n) :: lexemes fuel after
      | none => []
    else if startsName c then
      let name := (c :: rest).takeWhile continuesName
      .named (String.ofList name) :: lexemes fuel ((c :: rest).drop name.length)
    else
      match signs.find? fun sign => sign.toList.isPrefixOf (c :: rest) with
      | some sign => .sign sign :: lexemes fuel ((c :: rest).drop sign.length)
      | none => [.sign (String.singleton c)]

/-- The rank of a sign that joins two expressions; a higher one binds closer. -/
def rank? : String → Option (Nat × Option Operation)
  | "||" => some (1, none)
  | "&&" => some (2, none)
  | "|" => some (3, some .or)
  | "^" => some (4, some .xor)
  | "&" => some (5, some .and)
  | "==" => some (6, some .equal)
  | "!=" => some (6, some .different)
  | "<" => some (7, some .less)
  | "<=" => some (7, some .lessEqual)
  | ">" => some (7, some .greater)
  | ">=" => some (7, some .greaterEqual)
  | "<<" => some (8, some .shiftLeft)
  | ">>" => some (8, some .shiftRight)
  | "+" => some (9, some .add)
  | "-" => some (9, some .sub)
  | "*" => some (10, some .mul)
  | "/" => some (10, some .div)
  | "%" => some (10, some .mod)
  | _ => none

def assigning? : String → Option (Option Operation)
  | "=" => some none
  | "+=" => some (some .add)
  | "-=" => some (some .sub)
  | "*=" => some (some .mul)
  | "/=" => some (some .div)
  | "%=" => some (some .mod)
  | "<<=" => some (some .shiftLeft)
  | ">>=" => some (some .shiftRight)
  | "&=" => some (some .and)
  | "^=" => some (some .xor)
  | "|=" => some (some .or)
  | _ => none

/-- What is read of an expression, and the tokens behind it. -/
abbrev Parsed := Except ArithmeticFault (Expression × List Lexeme)

mutual

/-- Reads an expression that may assign or choose. -/
def readAssignment : Nat → List Lexeme → Parsed
  | 0, _ => .error (.expecting "primary")
  | fuel + 1, tokens => do
    match tokens with
    | .named name :: .sign sign :: rest =>
      match assigning? sign with
      | some op =>
        let (e, rest) ← readAssignment fuel rest
        return (.assigned name op e, rest)
      | none => readChosen fuel tokens
    | tokens => readChosen fuel tokens

def readChosen : Nat → List Lexeme → Parsed
  | 0, _ => .error (.expecting "primary")
  | fuel + 1, tokens => do
    let (test, rest) ← readJoined fuel 1 tokens
    match rest with
    | .sign "?" :: rest =>
      let (yes, rest) ← readAssignment fuel rest
      match rest with
      | .sign ":" :: rest =>
        let (no, rest) ← readChosen fuel rest
        return (.chosen test yes no, rest)
      | _ => throw (.expecting "':'")
    | rest => return (test, rest)

/-- Reads expressions joined by signs of at least a rank. -/
def readJoined : Nat → Nat → List Lexeme → Parsed
  | 0, _, _ => .error (.expecting "primary")
  | fuel + 1, least, tokens => do
    let (first, rest) ← readPrimary fuel tokens
    readJoinedFrom fuel least first rest

def readJoinedFrom : Nat → Nat → Expression → List Lexeme → Parsed
  | 0, _, _, _ => .error (.expecting "primary")
  | fuel + 1, least, first, tokens => do
    match tokens with
    | .sign sign :: rest =>
      match rank? sign with
      | some (rank, op) =>
        if rank < least then return (first, tokens)
        else
          let (second, rest) ← readJoined fuel (rank + 1) rest
          let all := match op with
            | some op => .combined op first second
            | none => if sign = "||" then .either first second else .both first second
          readJoinedFrom fuel least all rest
      | none => return (first, tokens)
    | tokens => return (first, tokens)

/-- Reads a number, a variable, a sign in front of one, or an expression in parentheses. -/
def readPrimary : Nat → List Lexeme → Parsed
  | 0, _ => .error (.expecting "primary")
  | fuel + 1, tokens => do
    let adjusted (op : Adjustment) (rest : List Lexeme) : Parsed := do
      let (e, rest) ← readPrimary fuel rest
      return (.adjusted op e, rest)
    match tokens with
    | .number n :: rest => return (.number n, rest)
    | .named name :: rest => return (.named name, rest)
    | .sign "+" :: rest => adjusted .plus rest
    | .sign "-" :: rest => adjusted .minus rest
    | .sign "~" :: rest => adjusted .complement rest
    | .sign "!" :: rest => adjusted .not rest
    | .sign "(" :: rest =>
      let (e, rest) ← readAssignment fuel rest
      match rest with
      | .sign ")" :: rest => return (e, rest)
      | _ => throw (.expecting "')'")
    | _ => throw (.expecting "primary")

end

def Expression.read (text : String) : Except ArithmeticFault Expression := do
  let tokens := lexemes (text.length + 1) text.toList
  let (e, rest) ← readAssignment (16 * tokens.length + 16) tokens
  if rest.isEmpty then return e else throw (.expecting "EOF")

/-- One if something holds, else zero. -/
def truth (holds : Bool) : Int :=
  if holds then 1 else 0

def word (n : Int) : BitVec 64 :=
  BitVec.ofInt 64 n

def places (n : Int) : Nat :=
  (Int.emod n 64).toNat

def Operation.apply (a b : Int) : Operation → Except ArithmeticFault Int
  | add => .ok (wrapped (a + b))
  | sub => .ok (wrapped (a - b))
  | mul => .ok (wrapped (a * b))
  | div => if b = 0 then .error .divisionByZero else .ok (wrapped (Int.tdiv a b))
  | mod => if b = 0 then .error .divisionByZero else .ok (wrapped (Int.tmod a b))
  | shiftLeft => .ok (wrapped (a * Binary64.twoTo (places b)))
  | shiftRight => .ok (Int.fdiv a (Binary64.twoTo (places b)))
  | less => .ok (truth (a < b))
  | lessEqual => .ok (truth (a ≤ b))
  | greater => .ok (truth (a > b))
  | greaterEqual => .ok (truth (a ≥ b))
  | equal => .ok (truth (a = b))
  | different => .ok (truth (a ≠ b))
  | and => .ok (word a &&& word b).toInt
  | xor => .ok (word a ^^^ word b).toInt
  | or => .ok (word a ||| word b).toInt

def Adjustment.apply (a : Int) : Adjustment → Int
  | plus => a
  | minus => wrapped (-a)
  | complement => wrapped (-a - 1)
  | not => truth (a = 0)

/-- The value of an expression, given the texts of variables and the numbers assigned before; with
it, the numbers assigned after it. A variable without a text counts as zero. -/
def Expression.value (texts : String → Option String) (written : Table String Int) :
    Expression → Except ArithmeticFault (Int × Table String Int)
  | number n => .ok (n, written)
  | named name => do
    match written.get? name, texts name with
    | some n, _ => return (n, written)
    | none, none => return (0, written)
    | none, some text =>
      if text.toList.all isNumberBlank then return (0, written)
      match integer? false text with
      | some n => return (n, written)
      | none => throw (.illegalNumber text)
  | adjusted op e => do
    let (n, written) ← e.value texts written
    return (op.apply n, written)
  | combined op a b => do
    let (m, written) ← a.value texts written
    let (n, written) ← b.value texts written
    return (← op.apply m n, written)
  | both a b => do
    let (m, written) ← a.value texts written
    if m = 0 then return (0, written)
    let (n, written) ← b.value texts written
    return (truth (n ≠ 0), written)
  | either a b => do
    let (m, written) ← a.value texts written
    if m ≠ 0 then return (1, written)
    let (n, written) ← b.value texts written
    return (truth (n ≠ 0), written)
  | chosen test yes no => do
    let (m, written) ← test.value texts written
    if m ≠ 0 then yes.value texts written else no.value texts written
  | assigned name op e => do
    let (n, written) ← e.value texts written
    let n ← match op with
      | none => pure n
      | some op => do
        let (old, _) ← (named name).value texts written
        op.apply old n
    return (n, written.set name n)

end NatSpec.Shell
