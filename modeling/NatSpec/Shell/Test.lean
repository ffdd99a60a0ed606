import NatSpec.Shell.Arithmetic
import NatSpec.Shell.Place

/-!
Tests: conditions on texts, numbers and what stands at a path. Words are read from the left; whether
a word is an operator depends on the words around it.
-/

namespace NatSpec.Shell

inductive TestFault
  | unexpectedOperator (word : String)
  | argumentExpected (operator : String)
  | closingExpected
  | illegalNumber (text : String)
  | missingBracket
  deriving DecidableEq, Repr

def TestFault.message : TestFault → String
  | unexpectedOperator word => word ++ ": unexpected operator"
  | argumentExpected operator => operator ++ ": argument expected"
  | closingExpected => "closing paren expected"
  | illegalNumber text => "Illegal number: " ++ text
  | missingBracket => "missing ]"

def unaryTests : List String :=
  ["-b", "-c", "-d", "-e", "-f", "-g", "-h", "-k", "-L", "-n", "-O", "-G", "-p", "-r", "-s", "-S",
    "-t", "-u", "-w", "-x", "-z"]

def binaryTests : List String :=
  ["=", "!=", "<", ">", "-eq", "-ne", "-ge", "-gt", "-le", "-lt", "-nt", "-ot", "-ef"]

inductive TestToken
  | operand
  | unary
  | binary
  | not
  | and
  | or
  | opening
  | closing
  | ended
  deriving DecidableEq

/-- What the first of some words is in a test, given the words behind it. -/
def testToken : List String → TestToken
  | [] => .ended
  | word :: rest =>
    if word = "!" then .not
    else if word = "-a" then .and
    else if word = "-o" then .or
    else if word = "(" then if rest.isEmpty then .operand else .opening
    else if word = ")" then .closing
    else if binaryTests.contains word then .binary
    else if unaryTests.contains word then
      match rest with
      | [] => .operand
      | [_] => .unary
      | next :: _ => if binaryTests.contains next then .operand else .unary
    else .operand

def testNumber (s : String) : Except TestFault Int :=
  match integer? true s with
  | some n => .ok n
  | none => .error (.illegalNumber s)

def unaryTest (tree : FileTree) (operator operand : String) : Except TestFault Bool :=
  let entry := (entryOf tree operand).toOption
  match operator with
  | "-n" => .ok (operand ≠ "")
  | "-z" => .ok (operand = "")
  | "-d" => .ok (entry = some .directory)
  | "-f" => .ok (entry matches some (.file _))
  | "-s" => .ok (match entry with
    | some (.file content) => !content.isEmpty
    | some .directory => true
    | _ => false)
  | "-h" | "-L" => .ok (match placeOf tree false operand with
    | .ok (_, some (.link _)) => true
    | _ => false)
  | "-x" => .ok (entry = some .directory)
  | "-e" | "-r" | "-w" | "-O" | "-G" => .ok entry.isSome
  | "-t" => do
    let _ ← testNumber operand
    return false
  | _ => .ok false

def binaryTest (tree : FileTree) (operator a b : String) : Except TestFault Bool := do
  let compare (holds : Int → Int → Bool) : Except TestFault Bool := do
    let m ← testNumber a
    let n ← testNumber b
    return holds m n
  let place (name : String) : Option Location :=
    match placeOf tree true name with
    | .ok (place, some _) => some place
    | _ => none
  match operator with
  | "=" => return a = b
  | "!=" => return a ≠ b
  | "<" => return a < b
  | ">" => return a > b
  | "-eq" => compare fun m n => m = n
  | "-ne" => compare fun m n => m ≠ n
  | "-ge" => compare fun m n => m ≥ n
  | "-gt" => compare fun m n => m > n
  | "-le" => compare fun m n => m ≤ n
  | "-lt" => compare fun m n => m < n
  | "-ef" => return (place a).isSome && place a = place b
  | _ => return false

/-- The outcome of reading a condition: whether it holds, and the words from its last one on. -/
abbrev Tested := Except TestFault (Bool × List String)

mutual

def testOr (tree : FileTree) : Nat → TestToken → List String → Tested
  | 0, _, words => .ok (false, words)
  | fuel + 1, token, words => do
    let (first, words) ← testAnd tree fuel token words
    if testToken (words.drop 1) = .or then
      let words := words.drop 2
      let (second, words) ← testOr tree fuel (testToken words) words
      return (first || second, words)
    else return (first, words)

def testAnd (tree : FileTree) : Nat → TestToken → List String → Tested
  | 0, _, words => .ok (false, words)
  | fuel + 1, token, words => do
    let (first, words) ← testNot tree fuel token words
    if testToken (words.drop 1) = .and then
      let words := words.drop 2
      let (second, words) ← testAnd tree fuel (testToken words) words
      return (first && second, words)
    else return (first, words)

/-- Decides a condition that may be turned around. -/
def testNot (tree : FileTree) : Nat → TestToken → List String → Tested
  | 0, _, words => .ok (false, words)
  | fuel + 1, token, words => do
    if token = .not then
      let next := testToken (words.drop 1)
      let (holds, words) ← testNot tree fuel next (if next = .ended then words else words.drop 1)
      return (!holds, words)
    else testPrimary tree fuel token words

/-- Decides a condition in parentheses, one with an operator, or a word by itself. -/
def testPrimary (tree : FileTree) : Nat → TestToken → List String → Tested
  | 0, _, words => .ok (false, words)
  | fuel + 1, token, words => do
    match token, words with
    | .ended, words => return (false, words)
    | .opening, _ :: rest =>
      if testToken rest = .closing then return (false, rest)
      let (holds, words) ← testOr tree fuel (testToken rest) rest
      if testToken (words.drop 1) = .closing then return (holds, words.drop 1)
      else throw .closingExpected
    | .unary, operator :: operand :: rest =>
      return (← unaryTest tree operator operand, operand :: rest)
    | .unary, [operator] => throw (.argumentExpected operator)
    | _, a :: operator :: rest =>
      if testToken (operator :: rest) = .binary then
        match rest with
        | b :: _ => return (← binaryTest tree operator a b, rest)
        | [] => throw (.argumentExpected operator)
      else return (a ≠ "", words)
    | _, [a] => return (a ≠ "", [a])
    | _, [] => return (false, [])

end

/-- Decides a test. Three words with an operator of two operands in the middle are that test, and
parentheses or a sign that turns around are then looked for at the ends. -/
def testWords (tree : FileTree) : Nat → Bool → List String → Except TestFault Bool
  | 0, _, _ => .ok false
  | fuel + 1, wanted, words => do
    let operators := match words with
      | [_, operator, _] => binaryTests.contains operator
      | _ => false
    let short := words.length = 3 || words.length = 4
    if words.isEmpty then return !wanted
    else if !operators && short && words.head? = some "(" && words.getLast? = some ")" then
      testWords tree fuel wanted (words.drop 1).dropLast
    else if !operators && short && words.head? = some "!" then
      testWords tree fuel (!wanted) (words.drop 1)
    else
      let token := if operators then .operand else testToken words
      let (holds, left) ← testOr tree (4 * words.length + 8) token words
      match left with
      | word :: _ :: _ => throw (.unexpectedOperator word)
      | _ => return holds == wanted

/-- Decides a test given by its words; under the name of a bracket the last word closes it. -/
def decideTest (tree : FileTree) (name : String) (words : List String) : Except TestFault Bool :=
  if name = "[" then
    if words.getLast? = some "]" then testWords tree (words.length + 1) true words.dropLast
    else .error .missingBracket
  else testWords tree (words.length + 1) true words

end NatSpec.Shell
