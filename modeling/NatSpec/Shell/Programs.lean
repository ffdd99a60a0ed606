import NatSpec.Shell.Escape
import NatSpec.Shell.FilePrograms
import NatSpec.Shell.Format
import NatSpec.Shell.Test
import NatSpec.Shell.TextPrograms

/-!
The programs that can be called by name, apart from those that run others.
-/

namespace NatSpec.Shell

/-- Writes words. Escapes count only if asked for. -/
def echoProgram : Program := fun words _ tree =>
  let isFlag (word : String) : Bool :=
    match word.toList with
    | '-' :: c :: cs => (c :: cs).all fun c => c = 'n' || c = 'e' || c = 'E'
    | _ => false
  let flags := words.takeWhile isFlag
  let shown := " ".intercalate (words.drop flags.length)
  let letters := flags.flatMap fun flag => flag.toList.drop 1
  let ending := if letters.contains 'n' then "" else "\n"
  if (letters.filter (· ≠ 'n')).getLast? = some 'e' then
    let (text, goesOn) := unescaped shown
    .ofOutput tree (if goesOn then text ++ ending else text)
  else .ofOutput tree (shown ++ ending)

def printfProgram : Program := fun words _ tree =>
  match if words.head? = some "--" then words.drop 1 else words with
  | [] => .ofMisuse tree 1 "printf" "missing operand"
  | format :: arguments =>
    let result := formatted format arguments
    let written := (1, String.ofList result.written.reverse)
    match result.mistake with
    | some message =>
      let message := Text.replaceFirst "invalid directive" "invalid conversion specification" message
      ⟨[(2, "printf: " ++ message ++ "\n"), written], 1, tree, 0⟩
    | none =>
      let complaints := result.complaints.map fun complaint =>
        let (word, reason) := (Text.splitFirst? ": " complaint).getD (complaint, "")
        let reason := match reason with
          | "expected numeric value" => "expected a numeric value"
          | "not completely converted" => "value not completely converted"
          | reason => reason
        (2, "printf: " ++ curlyQuoted word ++ ": " ++ reason ++ "\n")
      ⟨complaints ++ [written], if complaints.isEmpty then 0 else 1, tree, 0⟩

def testProgram (name : String) : Program := fun words _ tree =>
  match decideTest tree name words with
  | .ok holds => .ofStatus tree (if holds then 0 else 1)
  | .error fault =>
    let message := match fault with
      | .unexpectedOperator _ =>
        match words with
        | [_, operator, _] => quotedWord operator ++ ": binary operator expected"
        | [_, last] => "missing argument after " ++ quotedWord last
        | _ :: next :: _ => "extra argument " ++ quotedWord next
        | _ => fault.message
      | .argumentExpected operator => "missing argument after " ++ quotedWord operator
      | .illegalNumber text => "invalid integer " ++ quotedWord text
      | .missingBracket => "missing " ++ quotedWord "]"
      | .closingExpected => "')' expected"
    .ofComplaint tree 2 (name ++ ": " ++ message)
where
  /-- A word between typographic quotes. -/
  quotedWord (word : String) : String := curlyQuoted word

def pwdProgram : Program := fun _ _ tree =>
  .ofOutput tree (narrow (Path.ofTop tree.here).toString ++ "\n")

def endingProgram (status : Nat) : Program := fun _ _ tree => .ofStatus tree status

def program? : String → Option Program
  | "true" => some (endingProgram 0)
  | "sync" => some (endingProgram 0)
  | "false" => some (endingProgram 1)
  | "echo" => some echoProgram
  | "printf" => some printfProgram
  | "test" => some (testProgram "test")
  | "[" => some (testProgram "[")
  | "pwd" => some pwdProgram
  | "mkdir" => some mkdir
  | "rmdir" => some rmdir
  | "rm" => some rm
  | "touch" => some touch
  | "cp" => some (copyAll "cp" false)
  | "mv" => some (copyAll "mv" true)
  | "ln" => some ln
  | "ls" => some ls
  | "chmod" => some chmod
  | "readlink" => some readlink
  | "realpath" => some realpath
  | "cat" => some cat
  | "head" => some head
  | "tail" => some tail
  | "wc" => some wc
  | "sort" => some sort
  | "uniq" => some uniq
  | "tr" => some tr
  | "cut" => some cut
  | "seq" => some seq
  | "grep" => some grep
  | "tee" => some tee
  | "tac" => some tac
  | "rev" => some rev
  | "basename" => some basename
  | "dirname" => some dirname
  | "sleep" => some sleep
  | "expr" => some expr
  | _ => none

/-- The programs that run others. -/
def runningPrograms : List String :=
  ["sh", "dash", "env", "nice", "timeout", "xargs"]

def programDirectories : List String := ["/usr/bin/", "/bin/"]

/-- The name of a program that is called by its path in a directory of programs. -/
def plainName (word : String) : String :=
  match programDirectories.find? fun directory => Text.startsWith word directory with
  | some directory => String.ofList (word.toList.drop directory.length)
  | none => word

/-- Whether a word calls a program, by its name or its path. -/
def isProgram (word : String) : Bool :=
  let name := plainName word
  (program? name).isSome || runningPrograms.contains name

end NatSpec.Shell
