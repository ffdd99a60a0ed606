import NatSpec.Text.Digits
import NatSpec.Text.Quoted
import NatSpec.Text.Search
import NatSpec.Table

/-!
Reading command-line arguments against a grammar of options and one positional slot. An option may
be cut to an unambiguous start, short switches may be joined, and a value may stand in the same word
as its option. Behind a double dash no word is an option. A negative number and a word with a blank
are arguments even though they start with a dash.
-/

namespace NatSpec.CommandLine

inductive Role
  | switch
  | valued
  | help
  | version
  deriving DecidableEq, Repr

structure Flag where
  names : List String
  role : Role
  deriving DecidableEq, Repr

/-- How messages call an option. -/
def Flag.title (f : Flag) : String :=
  "/".intercalate f.names

/-- The words that the positional slot takes: a command with all that follows, one argument that may
be missing, or one that must be there. -/
inductive Slot
  | command
  | optional
  | required
  deriving DecidableEq, Repr

structure Grammar where
  program : String
  flags : List Flag
  slotName : String
  slot : Slot
  deriving Repr

/-- Why arguments are not read to their end. -/
inductive Stop
  | misuse (program message : String)
  | showHelp
  | showVersion
  deriving DecidableEq, Repr

/-- An option as a word gives it: its spelling, and the value in the same word. -/
structure Given where
  flag : Flag
  spelled : String
  value : Option String
  deriving Repr

/-- A word by what it is: an argument, the double dash, or an option, which may be unknown. -/
inductive Word
  | argument (text : String)
  | terminator
  | option (text : String) (given : Option Given)
  deriving Repr

def Word.text : Word → String
  | argument text => text
  | terminator => "--"
  | option text _ => text

def Word.isOption : Word → Bool
  | option .. => true
  | _ => false

namespace Grammar

/-- All spellings with their options, in order. -/
def spellings (g : Grammar) : List (String × Flag) :=
  g.flags.flatMap fun f => f.names.map fun name => (name, f)

def flag? (g : Grammar) (name : String) : Option Flag :=
  Table.get? g.spellings name

/-- A failure that is the user's. -/
def misuse {α : Type} (g : Grammar) (message : String) : Except Stop α :=
  .error (.misuse g.program message)

/-- A failure to give an option what it needs. -/
def flagMisuse {α : Type} (g : Grammar) (f : Flag) (message : String) : Except Stop α :=
  g.misuse ("argument " ++ f.title ++ ": " ++ message)

/-- The options that a word may stand for by the start of a spelling. -/
def candidates (g : Grammar) (text : String) : List Given :=
  match text.toList with
  | '-' :: '-' :: _ =>
    let (name, value) := match Text.splitFirst? "=" text with
      | some (name, value) => (name, some value)
      | none => (text, none)
    g.spellings.filterMap fun (spelling, f) =>
      if Text.startsWith spelling name then some ⟨f, spelling, value⟩ else none
  | cs =>
    let short := String.ofList (cs.take 2)
    g.spellings.filterMap fun (spelling, f) =>
      if spelling = short then some ⟨f, spelling, some (String.ofList (cs.drop 2))⟩
      else if Text.startsWith spelling text then some ⟨f, spelling, none⟩
      else none

/-- Whether characters write a number: digits of any script, with a point before the last ones or
without one. A line end may follow. -/
def isNumber (cs : List Char) : Bool :=
  let whole := cs.takeWhile Text.isDecimalDigit
  match cs.dropWhile Text.isDecimalDigit with
  | [] | ['\n'] => !whole.isEmpty
  | '.' :: rest =>
    let decimals := rest.takeWhile Text.isDecimalDigit
    let after := rest.dropWhile Text.isDecimalDigit
    !decimals.isEmpty && (after = [] || after = ['\n'])
  | _ => false

def isNegativeNumber (text : String) : Bool :=
  match text.toList with
  | '-' :: rest => isNumber rest
  | _ => false

/-- The option that a word gives by a full spelling, alone or with a value behind an equals sign. -/
def spelled? (g : Grammar) (text : String) : Option Given :=
  match g.flag? text with
  | some f => some ⟨f, text, none⟩
  | none =>
    match Text.splitFirst? "=" text with
    | some (name, value) => (g.flag? name).map fun f => ⟨f, name, some value⟩
    | none => none

def classify (g : Grammar) (text : String) : Except Stop Word :=
  if !Text.startsWith text "-" then .ok (.argument text)
  else
    match g.flag? text with
    | some f => .ok (.option text (some ⟨f, text, none⟩))
    | none =>
      if text = "-" then .ok (.argument text)
      else
        match g.spelled? text with
        | some given => .ok (.option text (some given))
        | none =>
          match g.candidates text with
          | [given] => .ok (.option text (some given))
          | [] =>
            if isNegativeNumber text || text.toList.contains ' ' then .ok (.argument text)
            else .ok (.option text none)
          | several =>
            g.misuse ("ambiguous option: " ++ text ++ " could match "
              ++ ", ".intercalate (several.map Given.spelled))

def classifyAll (g : Grammar) : List String → Except Stop (List Word)
  | [] => .ok []
  | "--" :: rest => .ok (.terminator :: rest.map .argument)
  | text :: rest => do
    let word ← g.classify text
    .ok (word :: (← g.classifyAll rest))

end Grammar

/-- What one word with options has given: the options with their values, and the number of further
words it has taken. -/
structure Taken where
  flags : List (Flag × Option String)
  further : Nat
  deriving Repr

/-- Takes the options of one word. Behind a switch spelled with one dash, what follows in its word is
read as further such options. -/
def take (g : Grammar) (following : List Word) : Nat → Given → Except Stop Taken
  | 0, given => g.flagMisuse given.flag "expected one argument"
  | fuel + 1, given =>
    match given.flag.role, given.value with
    | .valued, some value => .ok ⟨[(given.flag, some value)], 0⟩
    | .valued, none =>
      match following with
      | .argument text :: _ => .ok ⟨[(given.flag, some text)], 1⟩
      | _ => g.flagMisuse given.flag "expected one argument"
    | _, none => .ok ⟨[(given.flag, none)], 0⟩
    | _, some value =>
      let refuse : Except Stop Taken :=
        g.flagMisuse given.flag ("ignored explicit argument " ++ Text.quoted value)
      match value.toList with
      | [] => refuse
      | c :: rest =>
        if Text.startsWith given.spelled "--" then refuse
        else
          let next := String.ofList ['-', c]
          match g.flag? next with
          | none => refuse
          | some f => do
            let left := if rest.isEmpty then none else some (String.ofList rest)
            let taken ← take g following fuel ⟨f, next, left⟩
            .ok { taken with flags := (given.flag, none) :: taken.flags }

structure Reading where
  switches : List Flag
  values : List (Flag × String)
  slot : Option (List String)
  extras : List String
  deriving Repr, Inhabited

namespace Reading

def add (r : Reading) (f : Flag) (value : Option String) : Except Stop Reading :=
  match f.role, value with
  | .help, _ => .error .showHelp
  | .version, _ => .error .showVersion
  | _, some v => .ok { r with values := (f, v) :: r.values }
  | _, none => .ok { r with switches := f :: r.switches }

def has (r : Reading) (name : String) : Bool :=
  r.switches.any fun f => f.names.contains name

/-- The last value of the option with a spelling. -/
def value? (r : Reading) (name : String) : Option String :=
  (r.values.find? fun entry => entry.1.names.contains name).map Prod.snd

end Reading

/-- The text of the argument at the start of words, a double dash before or behind it dropped, and
the words left. -/
def oneArgument : List Word → Option String × List Word
  | .argument text :: .terminator :: rest => (some text, rest)
  | .argument text :: rest => (some text, rest)
  | .terminator :: .argument text :: rest => (some text, rest)
  | .terminator :: rest => (none, rest)
  | words => (none, words)

/-- Fills the slot from the words at hand, and gives the words left. -/
def fillSlot (g : Grammar) (r : Reading) (words : List Word) : Reading × List Word :=
  if r.slot.isSome then (r, words)
  else
    match g.slot with
    | .command =>
      match words with
      | .argument _ :: _ | .terminator :: .argument _ :: _ =>
        ({ r with slot := some (words.map Word.text) }, [])
      | _ => (r, words)
    | .optional =>
      let (text, rest) := oneArgument words
      ({ r with slot := some text.toList }, rest)
    | .required =>
      match oneArgument words with
      | (some text, rest) => ({ r with slot := some [text] }, rest)
      | (none, _) => (r, words)

/-- Reads words from a place on. Arguments that fit nowhere are left over. -/
def readFrom (g : Grammar) : Nat → Reading → List Word → Except Stop Reading
  | 0, r, _ => .ok r
  | fuel + 1, r, words =>
    if words.any Word.isOption then
      match words with
      | .option text none :: rest => readFrom g fuel { r with extras := r.extras ++ [text] } rest
      | .option _ (some given) :: rest => do
        let length := (given.value.getD "").length
        let taken ← take g rest (length + 1) given
        let r ← taken.flags.foldlM (fun r (f, v) => r.add f v) r
        readFrom g fuel r (rest.drop taken.further)
      | _ =>
        let (filled, rest) := fillSlot g r words
        if rest.length < words.length then readFrom g fuel filled rest
        else
          let left := words.takeWhile fun w => !w.isOption
          readFrom g fuel { filled with extras := filled.extras ++ left.map Word.text }
            (words.dropWhile fun w => !w.isOption)
    else
      let (filled, rest) := fillSlot g r words
      .ok { filled with extras := filled.extras ++ rest.map Word.text }

def readArguments (g : Grammar) (args : List String) : Except Stop Reading := do
  let words ← g.classifyAll args
  let r ← readFrom g (2 * words.length + 1) ⟨[], [], none, []⟩ words
  if r.slot.isNone ∧ g.slot ≠ .optional then
    g.misuse ("the following arguments are required: " ++ g.slotName)
  else .ok r

end NatSpec.CommandLine
