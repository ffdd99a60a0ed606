import NatSpec.Shell.Octets
import NatSpec.Shell.Script

/-!
Reading scripts. A script is read one line of commands at a time, so that the lines before a mistake
still run. A command that opens a construct is read to the end of the construct, and with it the
texts that its redirections announce.
-/

namespace NatSpec.Shell

/-- A token of a script. Keywords are symbols where they are looked for. -/
inductive Token
  | endOfScript
  | newline
  | symbol (text : String)
  | file (descriptor : Nat) (opening : Opening)
  | copy (descriptor : Nat)
  | document (descriptor : Nat) (stripped : Bool)
  | word (parts : Word)
  deriving Inhabited

def Token.description : Token → String
  | endOfScript => "end of file"
  | newline => "newline"
  | symbol text => "\"" ++ text ++ "\""
  | file _ _ | copy _ | document _ _ => "redirection"
  | word _ => "word"

inductive Unreadable
  | unexpected (found : String) (expected : Option String)
  | openQuote
  | openBrace
  | openArithmetic
  | openBackquote
  | badLoopVariable
  | badFunctionName
  | tooDeep
  deriving DecidableEq, Repr

def Unreadable.message : Unreadable → String
  | unexpected found none => found ++ " unexpected"
  | unexpected found (some expected) => found ++ " unexpected (expecting " ++ expected ++ ")"
  | openQuote => "Unterminated quoted string"
  | openBrace => "Missing '\x7d'"
  | openArithmetic => "Missing '))'"
  | openBackquote => "EOF in backquote substitution"
  | badLoopVariable => "Bad for loop variable"
  | badFunctionName => "Bad function name"
  | tooDeep => "Nested too deeply"

/-- A text that a redirection has announced: its number, the line that ends it, whether tabs in front
of its lines go, and whether it is taken as it is. -/
structure Announced where
  number : Nat
  mark : String
  stripped : Bool
  asItIs : Bool

structure Source where
  rest : List Char
  line : Nat
  pushed : Option Token
  announced : List Announced
  documents : Array Word

/-- A step of reading: it may stop at a mistake on a line. -/
abbrev Reading := StateT Source (Except (Nat × Unreadable))

namespace Reading

def refuse {α : Type} (reason : Unreadable) : Reading α := do
  throw ((← get).line, reason)

/-- Stops at a token that does not belong there. -/
def refuseToken {α : Type} (token : Token) (expected : Option Token) : Reading α :=
  refuse (.unexpected token.description (expected.map Token.description))

def push (token : Token) : Reading Unit :=
  modify fun s => { s with pushed := some token }

/-- The number of line ends in front that a backslash joins, and what follows them. -/
def joined : List Char → Nat × List Char
  | '\\' :: '\n' :: rest => ((joined rest).1 + 1, (joined rest).2)
  | cs => (0, cs)

def peek : Reading (Option Char) := do
  let s ← get
  let (lines, rest) := joined s.rest
  set { s with rest, line := s.line + lines }
  return rest.head?

def drop : Reading Unit :=
  modify fun s =>
    { s with rest := s.rest.drop 1, line := if s.rest.head? = some '\n' then s.line + 1 else s.line }

/-- Drops the next character if it is the given one. -/
def accept (c : Char) : Reading Bool := do
  if (← peek) = some c then
    drop
    return true
  else return false

/-- The characters up to the first that does not pass. -/
def takeWhile (pass : Char → Bool) : Reading String := do
  let s ← get
  let rec go : Nat → List Char → Nat → List Char → List Char × Nat × List Char
    | 0, taken, line, rest => (taken, line, rest)
    | fuel + 1, taken, line, rest =>
      let (more, rest) := joined rest
      match rest with
      | c :: after =>
        if pass c then go fuel (c :: taken) (line + more) after else (taken, line + more, c :: after)
      | [] => (taken, line + more, [])
  let (taken, line, rest) := go (s.rest.length + 1) [] s.line s.rest
  set { s with rest, line }
  return String.ofList taken.reverse

end Reading

def endsWord (c : Char) : Bool :=
  c = ' ' || c = '\t' || c = '\n' || c = ';' || c = '&' || c = '|' || c = '>' || c = '<'
    || c = '(' || c = ')'

/-- Whether a character is the name of a parameter that the shell itself keeps. -/
def isSpecialParameter (c : Char) : Bool :=
  c.isDigit || c = '#' || c = '?' || c = '$' || c = '!' || c = '-' || c = '*' || c = '@'

def keywords : List String :=
  ["!", "case", "do", "done", "elif", "else", "esac", "fi", "for", "if", "in", "then", "until",
    "while", "\x7b", "\x7d"]

/-- Symbols that end a list of commands inside a construct. -/
def closingSymbols : List String :=
  [")", ";;", "do", "done", "elif", "else", "esac", "fi", "then", "\x7d"]

/-- The parts, last first, with one more character of text. -/
def addChar (c : Char) (quoted : Bool) : List Part → List Part
  | .text s same :: rest =>
    if same = quoted then .text (s.push c) same :: rest
    else .text (String.singleton c) quoted :: .text s same :: rest
  | parts => .text (String.singleton c) quoted :: parts

/-- Where the parts of a word are read: up to the end of the word, to a closing double quote, to a
closing brace, in a text of its own, or to the end of an arithmetic expression with so many open
parentheses. -/
inductive Setting
  | word
  | quotes
  | brace (inQuotes : Bool)
  | document
  | arithmetic (depth : Nat)
  deriving DecidableEq

/-- Whether text in a setting is quoted. -/
def Setting.isQuoted : Setting → Bool
  | word | brace false => false
  | _ => true

/-- Whether a backslash in a setting takes only its own length from a character behind it. -/
def Setting.keepsBackslash (setting : Setting) (c : Char) : Bool :=
  match setting with
  | word | brace false => false
  | brace true => !(c = '\\' || c = '\x60' || c = '$' || c = '"' || c = '\x7d')
  | document => !(c = '\\' || c = '\x60' || c = '$')
  | _ => !(c = '\\' || c = '\x60' || c = '$' || c = '"')

/-- The text up to the closing backquote, with the backslashes that protect it taken out. -/
def backquoted (inQuotes : Bool) : List Char → Nat → List Char → Option (List Char × Nat × List Char)
  | taken, line, '\x60' :: rest => some (taken.reverse, line, rest)
  | taken, line, '\\' :: '\n' :: rest => backquoted inQuotes taken (line + 1) rest
  | taken, line, '\\' :: c :: rest =>
    let plain := c = '\\' || c = '\x60' || c = '$' || (inQuotes && c = '"')
    backquoted inQuotes (if plain then c :: taken else c :: '\\' :: taken) line rest
  | taken, line, '\n' :: rest => backquoted inQuotes ('\n' :: taken) (line + 1) rest
  | taken, line, c :: rest => backquoted inQuotes (c :: taken) line rest
  | _, _, [] => none

/-- The lines of an announced text, the number of lines read, and what follows the line that ends
it. -/
def documentText (mark : List Char) (stripped : Bool) :
    Nat → List Char → Nat → List Char → List Char × Nat × List Char
  | 0, taken, line, rest => (taken, line, rest)
  | _, taken, line, [] => (taken, line, [])
  | fuel + 1, taken, line, rest =>
    let rest := if stripped then rest.dropWhile (· = '\t') else rest
    let text := rest.takeWhile (· ≠ '\n')
    let after := rest.drop (text.length + 1)
    let line := if text.length < rest.length then line + 1 else line
    if text = mark then (taken, line, after)
    else
      let ended := if text.length < rest.length then text ++ ['\n'] else text
      documentText mark stripped fuel (taken ++ ended) line after

/-- How far a list of commands goes: to the end of a line, to the end of a construct, or to the end
of a substituted text, which may be empty. -/
inductive Extent
  | line
  | construct
  | substitution
  deriving DecidableEq

/-- A simple command being read, words and redirections last first. -/
structure Draft where
  line : Nat
  assignments : List (String × Word)
  words : List Word
  redirections : List Redirection

def Draft.toCommand (d : Draft) : Command :=
  .simple d.line d.assignments.reverse d.words.reverse d.redirections.reverse

def Command.withRedirections (line : Nat) (c : Command) (rs : List Redirection) : Command :=
  if rs.isEmpty then c
  else
    match c with
    | .subshell line body _ => .subshell line body rs
    | c => .redirected line c rs

open Reading

mutual

/-- Reads the parts of a word in a setting; `taken` holds those before, last first. -/
def readParts : Nat → Setting → List Part → Reading Word
  | 0, _, _ => refuse .tooDeep
  | fuel + 1, setting, taken => do
    match ← peek with
    | none =>
      match setting with
      | .word | .document => return taken.reverse
      | .brace false => refuse .openBrace
      | .arithmetic _ => refuse .openArithmetic
      | _ => refuse .openQuote
    | some c =>
      if setting = .word && endsWord c then return taken.reverse
      drop
      if (setting = .quotes && c = '"') || (setting matches .brace _ && c = '\x7d') then
        return taken.reverse
      if c = '\\' then readEscaped fuel setting taken
      else if c = '$' then
        readParts fuel setting (← readDollar fuel setting.isQuoted taken)
      else if c = '\x60' then
        readParts fuel setting (← readBackquoted fuel setting.isQuoted taken)
      else if c = '\x27' && !setting.isQuoted then readSingle fuel setting taken
      else if c = '"' && !(setting matches .document | .arithmetic _) then
        let inner ← readParts fuel .quotes []
        let inner := if inner.isEmpty then [.text "" true] else inner
        readParts fuel setting (inner.reverse ++ taken)
      else
        match setting, c with
        | .arithmetic depth, '(' =>
          readParts fuel (.arithmetic (depth + 1)) (addChar c true taken)
        | .arithmetic (depth + 1), ')' =>
          readParts fuel (.arithmetic depth) (addChar c true taken)
        | .arithmetic 0, ')' =>
          if ← accept ')' then return taken.reverse
          else readParts fuel setting (addChar c true taken)
        | _, _ => readParts fuel setting (addChar c setting.isQuoted taken)

def readEscaped : Nat → Setting → List Part → Reading Word
  | 0, _, _ => refuse .tooDeep
  | fuel + 1, setting, taken => do
    match (← get).rest.head? with
    | none => readParts fuel setting (addChar '\\' true taken)
    | some c =>
      drop
      let before := if setting.keepsBackslash c then addChar '\\' true taken else taken
      readParts fuel setting (addChar c true before)

def readSingle : Nat → Setting → List Part → Reading Word
  | 0, _, _ => refuse .tooDeep
  | fuel + 1, setting, taken => do
    let s ← get
    let text := s.rest.takeWhile (· ≠ '\x27')
    let line := s.line + text.count '\n'
    set { s with rest := s.rest.drop (text.length + 1), line }
    if text.length = s.rest.length then refuse .openQuote
    readParts fuel setting (.text (String.ofList text) true :: taken)

def readDollar : Nat → Bool → List Part → Reading (List Part)
  | 0, _, _ => refuse .tooDeep
  | fuel + 1, quoted, taken => do
    match ← peek with
    | some '(' =>
      drop
      if ← accept '(' then
        return .arithmetic (← readParts fuel (.arithmetic 0) []) quoted :: taken
      else
        let s ← get
        set { s with pushed := none, announced := [] }
        let script ← readList fuel .substitution none
        match ← readToken fuel false false with
        | .symbol ")" =>
          modify fun inner => { inner with pushed := none, announced := s.announced }
          return .output (script.getD .nothing) quoted :: taken
        | token => refuseToken token (some (.symbol ")"))
    | some '\x7b' =>
      drop
      return (← readBraces fuel quoted) :: taken
    | some c =>
      if startsName c then return .parameter (← takeWhile continuesName) .value quoted :: taken
      else if isSpecialParameter c then
        drop
        return .parameter (String.singleton c) .value quoted :: taken
      else return addChar '$' quoted taken
    | none => return addChar '$' quoted taken

def readBraces : Nat → Bool → Reading Part
  | 0, _ => refuse .tooDeep
  | fuel + 1, quoted => do
    let unknown (name : String) : Reading Part := do
      let _ ← readParts fuel (.brace quoted) []
      return .parameter name .unknown quoted
    let sized (name : String) : Reading Part := do
      if ← accept '\x7d' then return .parameter name .size quoted else unknown name
    let named (name : String) : Reading Part := do
      let ifEmpty ← accept ':'
      let remedied (remedy : Remedy) : Reading Part := do
        drop
        return .parameter name (.remedied remedy ifEmpty (← readParts fuel (.brace quoted) [])) quoted
      let trimmed (side : Side) (mark : Char) : Reading Part := do
        drop
        let most ← accept mark
        return .parameter name (.trimmed side most (← readParts fuel (.brace false) [])) quoted
      match ← peek, ifEmpty with
      | some '-', _ => remedied .useWord
      | some '=', _ => remedied .assignWord
      | some '?', _ => remedied .complain
      | some '+', _ => remedied .useWordIfSet
      | some '%', false => trimmed .back '%'
      | some '#', false => trimmed .front '#'
      | some '\x7d', _ =>
        drop
        return .parameter name .value quoted
      | _, _ => unknown name
    match ← peek with
    | some c =>
      if startsName c then named (← takeWhile continuesName)
      else if c.isDigit then named (← takeWhile Char.isDigit)
      else if c = '#' then
        drop
        match ← peek with
        | some d =>
          if startsName d then sized (← takeWhile continuesName)
          else if d.isDigit then sized (← takeWhile Char.isDigit)
          else if isSpecialParameter d && (← get).rest[1]? = some '\x7d' then
            drop
            sized (String.singleton d)
          else named "#"
        | none => unknown ""
      else if isSpecialParameter c then
        drop
        named (String.singleton c)
      else unknown ""
    | none => refuse (if quoted then .openQuote else .openBrace)

def readBackquoted : Nat → Bool → List Part → Reading (List Part)
  | 0, _, _ => refuse .tooDeep
  | fuel + 1, quoted, taken => do
    let s ← get
    match backquoted quoted [] s.line s.rest with
    | none => refuse .openBackquote
    | some (text, line, rest) =>
      set { s with rest := text, pushed := none, announced := [] }
      let script ← readList fuel .substitution none
      modify fun inner => { s with rest, line, documents := inner.documents }
      return .output (script.getD .nothing) quoted :: taken

def readDocuments : Nat → Reading Unit
  | 0 => refuse .tooDeep
  | fuel + 1 => do
    for next in (← get).announced do
      let s ← get
      let (text, line, rest) :=
        documentText next.mark.toList next.stripped (s.rest.length + 1) [] s.line s.rest
      let parts ←
        if next.asItIs then pure [.text (String.ofList text) true]
        else
          set { s with rest := text, pushed := none, announced := [] }
          readParts fuel .document []
      modify fun inner =>
        { s with rest, line, announced := [], documents := inner.documents.set! next.number parts }

def readPlainToken : Nat → Reading Token
  | 0 => refuse .tooDeep
  | fuel + 1 => do
    match (← get).pushed with
    | some token =>
      modify fun s => { s with pushed := none }
      return token
    | none =>
      let _ ← takeWhile fun c => c = ' ' || c = '\t'
      let doubled (c : Char) : Reading Token := do
        drop
        let mark := String.singleton c
        if ← accept c then return .symbol (mark ++ mark) else return .symbol mark
      match ← peek with
      | none => return .endOfScript
      | some '#' =>
        modify fun s => { s with rest := s.rest.dropWhile (· ≠ '\n') }
        readPlainToken fuel
      | some '\n' =>
        drop
        return .newline
      | some '&' => doubled '&'
      | some '|' => doubled '|'
      | some ';' => doubled ';'
      | some '(' =>
        drop
        return .symbol "("
      | some ')' =>
        drop
        return .symbol ")"
      | some c =>
        if c = '<' || c = '>' then readRedirection fuel none
        else
          let parts ← readParts fuel .word []
          match Part.bareText? parts, (← get).rest.head? with
          | some text, some mark =>
            match text.toList with
            | [digit] =>
              if digit.isDigit && (mark = '<' || mark = '>') then
                readRedirection fuel (some (digit.toNat - '0'.toNat))
              else return .word parts
            | _ => return .word parts
          | _, _ => return .word parts

/-- Reads the sign of a redirection, whose descriptor may have been given. -/
def readRedirection : Nat → Option Nat → Reading Token
  | 0, _ => refuse .tooDeep
  | _ + 1, given => do
    if ← accept '>' then
      let descriptor := given.getD 1
      if ← accept '>' then return .file descriptor .appending
      else if ← accept '|' then return .file descriptor .overwriting
      else if ← accept '&' then return .copy descriptor
      else return .file descriptor .writing
    else
      drop
      let descriptor := given.getD 0
      if ← accept '<' then return .document descriptor (← accept '-')
      else if ← accept '>' then return .file descriptor .updating
      else if ← accept '&' then return .copy descriptor
      else return .file descriptor .reading

/-- Reads the next token; line ends are passed over and keywords recognised if asked for. -/
def readToken : Nat → Bool → Bool → Reading Token
  | 0, _, _ => refuse .tooDeep
  | fuel + 1, overLines, withKeywords => do
    match ← readPlainToken fuel with
    | .newline =>
      if overLines then
        readDocuments fuel
        readToken fuel overLines withKeywords
      else return .newline
    | .word parts =>
      match Part.bareText? parts with
      | some text =>
        return if withKeywords && keywords.contains text then .symbol text else .word parts
      | none => return .word parts
    | token => return token

/-- Reads a list of commands; `before` holds those read so far. -/
def readList : Nat → Extent → Option Command → Reading (Option Command)
  | 0, _, _ => refuse .tooDeep
  | fuel + 1, extent, before => do
    let token ← readToken fuel (extent ≠ .line) true
    match token with
    | .newline =>
      readDocuments fuel
      return before
    | .endOfScript =>
      push token
      readDocuments fuel
      push token
      return before
    | token =>
      push token
      let closing := match token with
        | .symbol text => closingSymbols.contains text
        | _ => false
      let mayEnd := extent = .substitution || (extent = .construct && before.isSome)
      if mayEnd && closing then return before
      let command ← readAndOr fuel
      let after ← readToken fuel false false
      let command := match after with
        | .symbol "&" => .background command
        | _ => command
      let all := Command.followedBy before command
      match after with
      | .symbol "&" | .symbol ";" => readList fuel extent (some all)
      | .newline | .endOfScript =>
        push after
        readList fuel extent (some all)
      | token =>
        if extent = .line then refuseToken token none
        push token
        return some all

/-- Reads commands of which each asks for the status of the one before. -/
def readAndOr : Nat → Reading Command
  | 0 => refuse .tooDeep
  | fuel + 1 => do
    readAndOrFrom fuel (← readPipeline fuel false)

/-- Reads on behind a command that others may ask for. -/
def readAndOrFrom : Nat → Command → Reading Command
  | 0, _ => refuse .tooDeep
  | fuel + 1, first => do
    match ← readToken fuel false false with
    | .symbol "&&" => readAndOrFrom fuel (.both first (← readPipeline fuel true))
    | .symbol "||" => readAndOrFrom fuel (.either first (← readPipeline fuel true))
    | token =>
      push token
      return first

def readPipeline : Nat → Bool → Reading Command
  | 0, _ => refuse .tooDeep
  | fuel + 1, overLines => do
    let token ← readToken fuel overLines true
    let negated := token matches .symbol "!"
    if !negated then push token
    let first ← readCommand fuel false
    let stages ← readStages fuel [first]
    let all := match stages with
      | [only] => only
      | stages => .pipeline stages
    return if negated then .negated all else all

/-- Reads the further stages of a pipeline; `before` holds the ones read, last first. -/
def readStages : Nat → List Command → Reading (List Command)
  | 0, _ => refuse .tooDeep
  | fuel + 1, before => do
    match ← readToken fuel false false with
    | .symbol "|" => readStages fuel ((← readCommand fuel true) :: before)
    | token =>
      push token
      return before.reverse

def expect : Nat → String → Reading Unit
  | 0, _ => refuse .tooDeep
  | fuel + 1, text => do
    match ← readToken fuel false false with
    | .symbol found =>
      if found = text then pure () else refuseToken (.symbol found) (some (.symbol text))
    | token => refuseToken token (some (.symbol text))

def readBody : Nat → Reading Command
  | 0 => refuse .tooDeep
  | fuel + 1 => do return (← readList fuel .construct none).getD .nothing

def readCommand : Nat → Bool → Reading Command
  | 0, _ => refuse .tooDeep
  | fuel + 1, overLines => do
    let line := (← get).line
    match ← readToken fuel overLines true with
    | .symbol "if" =>
      let body ← readConditional fuel
      return body.withRedirections line (← readRedirections fuel [])
    | .symbol "while" =>
      let test ← readBody fuel
      expect fuel "do"
      let body ← readBody fuel
      expect fuel "done"
      return (Command.repeated true test body).withRedirections line (← readRedirections fuel [])
    | .symbol "until" =>
      let test ← readBody fuel
      expect fuel "do"
      let body ← readBody fuel
      expect fuel "done"
      return (Command.repeated false test body).withRedirections line (← readRedirections fuel [])
    | .symbol "for" =>
      let body ← readLoop fuel line
      return body.withRedirections line (← readRedirections fuel [])
    | .symbol "case" =>
      let body ← readChoice fuel line
      return body.withRedirections line (← readRedirections fuel [])
    | .symbol "(" =>
      let body ← readBody fuel
      expect fuel ")"
      return (Command.subshell line body []).withRedirections line (← readRedirections fuel [])
    | .symbol "\x7b" =>
      let body ← readBody fuel
      expect fuel "\x7d"
      return body.withRedirections line (← readRedirections fuel [])
    | .symbol text => refuseToken (.symbol text) none
    | .newline => refuseToken .newline none
    | .endOfScript => refuseToken .endOfScript none
    | token =>
      push token
      readSimple fuel ⟨(← get).line, [], [], []⟩

/-- Reads a conditional behind its first keyword, up to its last. -/
def readConditional : Nat → Reading Command
  | 0 => refuse .tooDeep
  | fuel + 1 => do
    let test ← readBody fuel
    expect fuel "then"
    let yes ← readBody fuel
    match ← readToken fuel false false with
    | .symbol "elif" => return .conditional test yes (← readConditional fuel)
    | .symbol "else" =>
      let no ← readBody fuel
      expect fuel "fi"
      return .conditional test yes no
    | .symbol "fi" => return .conditional test yes .nothing
    | token => refuseToken token (some (.symbol "fi"))

/-- Reads a loop over words behind its keyword, up to its last. -/
def readLoop : Nat → Nat → Reading Command
  | 0, _ => refuse .tooDeep
  | fuel + 1, line => do
    let name ← match ← readToken fuel false false with
      | .word parts =>
        match Part.bareText? parts with
        | some name => if isName name then pure name else refuse .badLoopVariable
        | none => refuse .badLoopVariable
      | _ => refuse .badLoopVariable
    let words ← match ← readToken fuel true true with
      | .symbol "in" => readLoopWords fuel []
      | .symbol ";" => pure [[.parameter "@" .value true]]
      | token =>
        push token
        pure [[.parameter "@" .value true]]
    match ← readToken fuel true true with
    | .symbol "do" =>
      let body ← readBody fuel
      expect fuel "done"
      return .forEach line name words body
    | token => refuseToken token (some (.symbol "do"))

/-- Reads the words of a loop; `before` holds the ones read, last first. -/
def readLoopWords : Nat → List Word → Reading (List Word)
  | 0, _ => refuse .tooDeep
  | fuel + 1, before => do
    match ← readToken fuel false false with
    | .word parts => readLoopWords fuel (parts :: before)
    | .newline | .symbol ";" => return before.reverse
    | token => refuseToken token none

/-- Reads a choice behind its keyword, up to its last. -/
def readChoice : Nat → Nat → Reading Command
  | 0, _ => refuse .tooDeep
  | fuel + 1, line => do
    match ← readToken fuel false false with
    | .word word =>
      match ← readToken fuel true true with
      | .symbol "in" => return .choice line word (← readBranches fuel [])
      | token => refuseToken token (some (.symbol "in"))
    | token => refuseToken token (some (.word []))

/-- Reads the branches of a choice; `before` holds the ones read, last first. -/
def readBranches : Nat → List (List Word × Command) → Reading (List (List Word × Command))
  | 0, _ => refuse .tooDeep
  | fuel + 1, before => do
    match ← readToken fuel true true with
    | .symbol "esac" => return before.reverse
    | token =>
      if !(token matches .symbol "(") then push token
      let patterns ← readPatterns fuel []
      let body := (← readList fuel .substitution none).getD .nothing
      let all := (patterns, body) :: before
      match ← readToken fuel true true with
      | .symbol "esac" => return all.reverse
      | .symbol ";;" => readBranches fuel all
      | token => refuseToken token (some (.symbol ";;"))

/-- Reads the patterns of a branch; `before` holds the ones read, last first. -/
def readPatterns : Nat → List Word → Reading (List Word)
  | 0, _ => refuse .tooDeep
  | fuel + 1, before => do
    let pattern : Word ← match ← readToken fuel false false with
      | .word parts => pure parts
      | .symbol text =>
        if keywords.contains text then pure [.text text false]
        else refuseToken (.symbol text) (some (.symbol ")"))
      | token => refuseToken token (some (.symbol ")"))
    match ← readToken fuel false false with
    | .symbol "|" => readPatterns fuel (pattern :: before)
    | .symbol ")" => return (pattern :: before).reverse
    | token => refuseToken token (some (.symbol ")"))

/-- Reads the redirections behind a construct; `before` holds the ones read, last first. -/
def readRedirections : Nat → List Redirection → Reading (List Redirection)
  | 0, _ => refuse .tooDeep
  | fuel + 1, before => do
    let token ← readToken fuel false true
    match ← readTarget? fuel token with
    | some redirection => readRedirections fuel (redirection :: before)
    | none =>
      push token
      return before.reverse

/-- Reads the word of a redirection if the token is the sign of one. -/
def readTarget? : Nat → Token → Reading (Option Redirection)
  | 0, _ => refuse .tooDeep
  | fuel + 1, sign => do
    let word : Reading Word := do
      match ← readToken fuel false false with
      | .word parts => return parts
      | token => refuseToken token none
    match sign with
    | .file descriptor opening => return some (.file descriptor opening (← word))
    | .copy descriptor => return some (.copy descriptor (← word))
    | .document descriptor stripped =>
      let mark ← word
      let number := (← get).documents.size
      let announced : Announced :=
        ⟨number, Part.plainText mark, stripped, Part.anyQuoted mark⟩
      modify fun s =>
        { s with announced := s.announced ++ [announced], documents := s.documents.push [] }
      return some (.document descriptor number)
    | _ => return none

def readSimple : Nat → Draft → Reading Command
  | 0, _ => refuse .tooDeep
  | fuel + 1, draft => do
    let token ← readToken fuel false false
    match token with
    | .word parts =>
      match assignment? parts with
      | some pair =>
        if draft.words.isEmpty then
          readSimple fuel { draft with assignments := pair :: draft.assignments }
        else readSimple fuel { draft with words := parts :: draft.words }
      | none => readSimple fuel { draft with words := parts :: draft.words }
    | .symbol "(" =>
      match draft.words, draft.assignments.isEmpty && draft.redirections.isEmpty with
      | [word], true =>
        expect fuel ")"
        match Part.bareText? word with
        | some name =>
          if isName name && !specialNames.contains name then
            return .definition name (← readCommand fuel true)
          else refuse .badFunctionName
        | none => refuse .badFunctionName
      | _, _ =>
        push token
        return draft.toCommand
    | token =>
      match ← readTarget? fuel token with
      | some redirection =>
        readSimple fuel { draft with redirections := redirection :: draft.redirections }
      | none =>
        push token
        return draft.toCommand

end

/-- The source of a script, given the texts announced before it. -/
def Source.ofText (text : String) (documents : Array Word) : Source :=
  ⟨text.toList, 1, none, [], documents⟩

/-- The next line of commands of a script and what is left; nothing is left at the end. -/
def Source.next (s : Source) :
    Except (Nat × Unreadable) (Option (Command × Source)) := do
  let fuel := 16 * s.rest.length + 64
  let (command, after) ← (readList fuel .line none).run { s with pushed := none }
  match command, after.pushed with
  | none, some .endOfScript => return none
  | command, _ => return some (command.getD .nothing, after)

end NatSpec.Shell
