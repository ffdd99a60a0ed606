import NatSpec.Shell.Octets

/-!
Scripts. A word is made of parts: text, values of parameters, the output of commands and the results
of arithmetic. A command is made of words and redirections, or of other commands.
-/

namespace NatSpec.Shell

/-- What is done about a parameter that has no value. -/
inductive Remedy
  | useWord
  | assignWord
  | complain
  | useWordIfSet
  deriving DecidableEq, Repr

inductive Side
  | front
  | back
  deriving DecidableEq, Repr

inductive Opening
  | reading
  | writing
  | overwriting
  | appending
  | updating
  deriving DecidableEq, Repr

mutual

/-- A part of a word. Outside quotes, what it stands for is split and matched against names. -/
inductive Part
  | text (s : String) (quoted : Bool)
  | parameter (name : String) (form : Form) (quoted : Bool)
  | output (script : Command) (quoted : Bool)
  | arithmetic (expression : List Part) (quoted : Bool)

inductive Form
  | value
  | size
  | remedied (remedy : Remedy) (ifEmpty : Bool) (word : List Part)
  | trimmed (side : Side) (most : Bool) (pattern : List Part)
  | unknown

/-- Where a descriptor is led: to a file, to where another one leads, or to a text in the script. -/
inductive Redirection
  | file (descriptor : Nat) (opening : Opening) (name : List Part)
  | copy (descriptor : Nat) (source : List Part)
  | document (descriptor : Nat) (number : Nat)

inductive Command
  | nothing
  | simple (line : Nat) (assignments : List (String × List Part)) (words : List (List Part))
      (redirections : List Redirection)
  | redirected (line : Nat) (body : Command) (redirections : List Redirection)
  | subshell (line : Nat) (body : Command) (redirections : List Redirection)
  | background (body : Command)
  | sequence (first second : Command)
  | both (first second : Command)
  | either (first second : Command)
  | negated (body : Command)
  | pipeline (stages : List Command)
  | conditional (test yes no : Command)
  | repeated (wanted : Bool) (test body : Command)
  | forEach (line : Nat) (name : String) (words : List (List Part)) (body : Command)
  | choice (line : Nat) (word : List Part) (branches : List (List (List Part) × Command))
  | definition (name : String) (body : Command)

end

instance : Inhabited Part := ⟨.text "" false⟩

instance : Inhabited Command := ⟨.nothing⟩

/-- A word: its parts in order. -/
abbrev Word := List Part

/-- The text of a word that has no quotes and nothing to replace. -/
def Part.bareText? : Word → Option String
  | [.text s false] => some s
  | _ => none

def Part.plainText (word : Word) : String :=
  word.foldl (fun s part =>
    match part with
    | .text more _ => s ++ more
    | _ => s) ""

/-- Whether some part of a word is quoted. -/
def Part.anyQuoted (word : Word) : Bool :=
  word.any fun part =>
    match part with
    | .text _ quoted | .parameter _ _ quoted | .output _ quoted | .arithmetic _ quoted => quoted

def assignment? : Word → Option (String × Word)
  | .text s false :: rest =>
    let name := String.ofList (s.toList.takeWhile continuesName)
    match s.toList.drop name.length with
    | '=' :: value =>
      if isName name then
        some (name, if value.isEmpty then rest else .text (String.ofList value) false :: rest)
      else none
    | _ => none
  | _ => none

def Command.followedBy (first : Option Command) (second : Command) : Command :=
  match first with
  | none => second
  | some first => .sequence first second

/-- The names of commands that belong to the language itself: a mistake in one of them ends the
script, and no function may have such a name. -/
def specialNames : List String :=
  [".", ":", "break", "continue", "eval", "exec", "exit", "export", "readonly", "return", "set",
    "shift", "times", "trap", "unset", "local"]

def assigningNames : List String :=
  ["export", "readonly", "local", "alias"]

end NatSpec.Shell
