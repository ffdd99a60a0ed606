import NatSpec.FileTree.Update
import NatSpec.Shell.Place

/-!
Programs as a script sees them: what they write on both channels, the status with which they end,
the file tree as they leave it, and how much of their input they take. Their words are options,
which start with a dash, and operands.
-/

namespace NatSpec.Shell

/-- What a program has done. Each text written comes with the descriptor it was written to. -/
structure Effect where
  written : List (Nat × String)
  status : Nat
  tree : FileTree
  /-- The number of bytes taken from the input. -/
  taken : Nat
  deriving Inhabited

/-- A program with its words, its input and the file tree in which it runs. -/
abbrev Program := List String → ByteArray → FileTree → Effect

namespace Effect

/-- A program that only ends with a status. -/
def ofStatus (tree : FileTree) (status : Nat) : Effect :=
  ⟨[], status, tree, 0⟩

/-- A program that only writes. -/
def ofOutput (tree : FileTree) (text : String) : Effect :=
  ⟨[(1, text)], 0, tree, 0⟩

/-- A program that only complains. -/
def ofComplaint (tree : FileTree) (status : Nat) (complaint : String) : Effect :=
  ⟨[(2, complaint ++ "\n")], status, tree, 0⟩

/-- A complaint about how a program was called, with the advice to ask it for help. -/
def ofMisuse (tree : FileTree) (status : Nat) (program complaint : String) : Effect :=
  ofComplaint tree status
    (program ++ ": " ++ complaint ++ "\nTry '" ++ program ++ " --help' for more information.")

/-- Several effects one after another; the status is the greatest one. -/
def inSequence (tree : FileTree) (steps : List (FileTree → Effect)) : Effect :=
  steps.foldl (fun done step =>
    let next := step done.tree
    ⟨done.written ++ next.written, max done.status next.status, next.tree,
      max done.taken next.taken⟩) (ofStatus tree 0)

end Effect

/-- The effect of a program that is called by another word than its name: it shows that word. -/
def Effect.calledAs (word program : String) (e : Effect) : Effect :=
  let renamed (text : String) : String :=
    let text := if Text.startsWith text (program ++ ": ") then
        word ++ String.ofList (text.toList.drop program.length)
      else text
    Text.replaceFirst ("\nTry '" ++ program ++ " --help'") ("\nTry '" ++ word ++ " --help'") text
  { e with
    written := e.written.map fun (descriptor, text) =>
      (descriptor, if descriptor = 2 then renamed text else text) }

/-- Runs a change of a file tree as a program with a complaint for each refusal. -/
def change (tree : FileTree) (action : Filing Unit) (complaint : String → String) : Effect :=
  match action tree with
  | (.ok _, tree) => .ofStatus tree 0
  | (.error (.refused reason _), tree) => .ofComplaint tree 1 (complaint reason.wording)
  | (.error _, tree) => .ofStatus tree 1

/-- The words of a call: options with their values, and operands. -/
structure Call where
  options : List (Char × String)
  operands : List String
  deriving Repr, Inhabited

def Call.has (call : Call) (letter : Char) : Bool :=
  call.options.any fun option => option.1 = letter

/-- The value that an option is given last. -/
def Call.value? (call : Call) (letter : Char) : Option String :=
  (call.options.filter fun option => option.1 = letter).getLast?.map Prod.snd

/-- The options of a program: letters that stand alone, letters that take a value, the words behind
two dashes that mean a letter, and whether options have to stand before operands. -/
structure Options where
  plain : String
  valued : String
  long : List (String × Char)
  first : Bool

/-- The options in a word of letters; the value of the last one may be the next word. -/
def letterOptions (known : Options) :
    List Char → List String → Except String (List (Char × String) × List String)
  | [], rest => .ok ([], rest)
  | c :: cs, rest =>
    if known.valued.toList.contains c then
      match cs, rest with
      | [], value :: rest => .ok ([(c, value)], rest)
      | [], [] => .error ("option requires an argument -- '" ++ String.singleton c ++ "'")
      | cs, rest => .ok ([(c, String.ofList cs)], rest)
    else if known.plain.toList.contains c then do
      let (more, rest) ← letterOptions known cs rest
      return ((c, "") :: more, rest)
    else .error ("invalid option -- '" ++ String.singleton c ++ "'")

/-- Reads the words of a call. Options may stand behind operands unless they have to come first; two
dashes end them. -/
def readCall (known : Options) : Nat → List String → Except String Call
  | 0, _ | _, [] => .ok ⟨[], []⟩
  | fuel + 1, word :: rest =>
    match word.toList with
    | ['-', '-'] => .ok ⟨[], rest⟩
    | '-' :: '-' :: long => do
      let name := String.ofList (long.takeWhile (· ≠ '='))
      match known.long.find? fun option => Text.startsWith option.1 name with
      | some (_, letter) =>
        let inWord := String.ofList (long.drop (name.length + 1))
        let call ← readCall known fuel rest
        return { call with options := (letter, inWord) :: call.options }
      | none => throw ("unrecognized option '" ++ word ++ "'")
    | '-' :: c :: letters => do
      let (options, rest) ← letterOptions known (c :: letters) rest
      let call ← readCall known fuel rest
      return { call with options := options ++ call.options }
    | _ => do
      if known.first then return ⟨[], word :: rest⟩
      let call ← readCall known fuel rest
      return { call with operands := word :: call.operands }

/-- A program whose words are read as options and operands. -/
def withOptions (program plain valued : String) (long : List (String × Char)) (misuse : Nat)
    (act : Call → ByteArray → FileTree → Effect) : Program := fun words input tree =>
  match readCall ⟨plain, valued, long, false⟩ (words.length + 1) words with
  | .ok call => act call input tree
  | .error complaint => .ofMisuse tree misuse program complaint

/-- A program whose words are read as options and, behind them, operands. -/
def withOptionsFirst (program plain valued : String) (long : List (String × Char)) (misuse : Nat)
    (act : Call → ByteArray → FileTree → Effect) : Program := fun words input tree =>
  match readCall ⟨plain, valued, long, true⟩ (words.length + 1) words with
  | .ok call => act call input tree
  | .error complaint => .ofMisuse tree misuse program complaint

/-- Whether a character of a name makes a shell read it otherwise than it is written. -/
def needsQuotes (c : Char) : Bool :=
  c ≤ ' ' || c = '\x7f' || "!\"$&'()*;<=>?[\\^\x60|".toList.contains c

/-- What stands behind a backslash for a control character. -/
def controlLetter : Char → String
  | '\n' => "n"
  | '\t' => "t"
  | '\r' => "r"
  | '\x07' => "a"
  | '\x08' => "b"
  | '\x0b' => "v"
  | '\x0c' => "f"
  | c =>
    let digits := Nat.toDigits 8 c.toNat
    String.ofList (List.replicate (3 - digits.length) '0' ++ digits)

/-- The written form of a control character between quotes. -/
def controlEscape (c : Char) : String :=
  "'$'\\" ++ controlLetter c ++ "''"

def quotedName (name : String) : String :=
  let cs := name.toList
  let plain := cs.all fun c => !(c < ' ' || c = '\x7f')
  if cs.contains '\x27' && plain && cs.all fun c => !"\"$\x60\\!".toList.contains c then
    "\"" ++ name ++ "\""
  else
    "'" ++ String.join (cs.map fun c =>
      if c = '\x27' then "'\\''"
      else if c < ' ' || c = '\x7f' then controlEscape c
      else String.singleton c) ++ "'"

/-- A name, in quotes if a shell needs them to read it back. -/
def shownName (name : String) : String :=
  let first := name.toList.head?
  if name = "" || name.toList.any needsQuotes || first = some '#' || first = some '~'
      || name = "\x7b" || name = "\x7d" then
    quotedName name
  else name

/-- A name between typographic quotes, with control characters written out. -/
def curlyQuoted (name : String) : String :=
  narrow "\u2018"
    ++ String.join (name.toList.map fun c =>
      if c = '\\' then "\\\\"
      else if c < ' ' || c = '\x7f' then "\\" ++ controlLetter c
      else String.singleton c)
    ++ narrow "\u2019"

/-- The content of a file, or why it cannot be read. A dash stands for the input. -/
def contentOf (tree : FileTree) (input : ByteArray) (name : String) : Except String String :=
  if name = "-" then .ok (ofBytes input)
  else
    match bytesOf tree name with
    | .ok content => .ok (ofBytes content)
    | .error reason => .error reason.wording

end NatSpec.Shell
