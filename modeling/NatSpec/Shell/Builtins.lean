import NatSpec.Shell.Expand
import NatSpec.Shell.Format
import NatSpec.Shell.Test

/-!
Builtin commands: those that change the shell itself, and those that only write or test. They set
the status and may leave the command being run.
-/

namespace NatSpec.Shell

abbrev Builtin := List String → Act Unit

def say (text : String) : Act Unit := do
  setStatus 0
  if !(← writeTo 1 text) then
    complain (((← get).builtin.getD "") ++ ": I/O error")
    setStatus 1

/-- The letters of options in front of words, each of which has to be known, and the other words. -/
def takeOptions (known : String) : List String → Act (List Char × List String)
  | [] => return ([], [])
  | word :: rest => do
    match word.toList with
    | ['-', '-'] => return ([], rest)
    | '-' :: c :: letters =>
      match (c :: letters).find? fun letter => !known.toList.contains letter with
      | some letter => mistake ("Illegal option -" ++ String.singleton letter)
      | none =>
        let (more, rest) ← takeOptions known rest
        return ((c :: letters) ++ more, rest)
    | _ => return ([], word :: rest)

def signalNames : List (Nat × String) :=
  [(1, "HUP"), (2, "INT"), (3, "QUIT"), (4, "ILL"), (5, "TRAP"), (6, "ABRT"), (7, "BUS"), (8, "FPE"),
    (9, "KILL"), (10, "USR1"), (11, "SEGV"), (12, "USR2"), (13, "PIPE"), (14, "ALRM"), (15, "TERM"),
    (17, "CHLD"), (18, "CONT"), (19, "STOP"), (20, "TSTP"), (21, "TTIN"),
    (22, "TTOU"), (23, "URG"), (24, "XCPU"), (25, "XFSZ"), (26, "VTALRM"), (27, "PROF"),
    (28, "WINCH"), (29, "IO"), (30, "PWR"), (31, "SYS")]

/-- The number of a signal given by number or name; zero stands for the end of the shell. -/
def signal? (word : String) : Option Nat :=
  if word ≠ "" && word.toList.all Char.isDigit then
    let n := Text.decimalNumber word.toList
    if n < 65 then some n else none
  else
    let upper := String.ofList (word.toList.map Char.toUpper)
    if upper = "EXIT" then some 0
    else (signalNames.find? fun entry => entry.2 = upper).map Prod.fst

/-- Whether a process goes on after a signal that it does not look after. -/
def isHarmless (signal : Nat) : Bool :=
  signal = 0 || (17 ≤ signal && signal ≤ 23) || signal = 28

/-- What a shell says of a process that a signal has killed. -/
def signalDescription (signal : Nat) : String :=
  match signal with
  | 1 => "Hangup"
  | 3 => "Quit"
  | 4 => "Illegal instruction"
  | 5 => "Trace/breakpoint trap"
  | 6 => "Aborted"
  | 7 => "Bus error"
  | 8 => "Floating point exception"
  | 9 => "Killed"
  | 10 => "User defined signal 1"
  | 11 => "Segmentation fault"
  | 12 => "User defined signal 2"
  | 14 => "Alarm clock"
  | 15 => "Terminated"
  | n => "Signal " ++ toString n

/-- Sends a signal to a process. Only the shell itself can be met. -/
def sendSignal (signal target : Nat) : Act Bool := do
  let s ← get
  if target ≠ s.process then
    complain "No such process\n"
    return false
  match s.traps.get? signal with
  | some command =>
    if signal = 9 then throw (.killed target signal)
    if command ≠ "" && signal ≠ 0 then modify fun s => { s with pending := s.pending ++ [signal] }
    return true
  | none =>
    if isHarmless signal then return true
    throw (.killed target signal)

def kill : Builtin := fun words => do
  let usage {α : Type} : Act α :=
    mistake ("Usage: kill [-s sigspec | -signum | -sigspec] [pid | job]... or\n"
      ++ "kill -l [exitstatus]")
  let named (name : String) : Act Nat := do
    match signal? name with
    | some n => return n
    | none => mistake ("invalid signal number or name: " ++ name)
  let (signal, targets) ← match words with
    | "-s" :: name :: rest => pure (← named name, rest)
    | "--" :: rest => pure (15, rest)
    | word :: rest =>
      match word.toList with
      | '-' :: c :: letters =>
        match signal? (String.ofList (c :: letters)) with
        | some n => pure (n, rest)
        | none => mistake ("Illegal option -" ++ String.singleton c)
      | _ => pure (15, words)
    | [] => usage
  if targets.isEmpty then usage
  let mut failed := false
  for target in targets do
    if !(← sendSignal signal (← countOf target)) then failed := true
  setStatus (if failed then 1 else 0)

/-- Waits for processes, all of which have ended; one that is not known has status 127. -/
def wait : Builtin := fun words => do
  setStatus 0
  for word in words do
    let process ← countOf word
    setStatus (if (← get).background = some process then 0 else 127)

def trap : Builtin := fun words => do
  let words := if words.head? = some "--" then words.drop 1 else words
  match words with
  | [] =>
    let shown := (← get).traps.map fun (signal, command) =>
      let name := if signal = 0 then "EXIT"
        else ((signalNames.find? fun e => e.1 = signal).map Prod.snd).getD (toString signal)
      "trap -- '" ++ command ++ "' " ++ name ++ "\n"
    say (String.join shown)
  | first :: rest =>
    let (command, names) :=
      if rest.isEmpty || (signal? first).any fun _ => first.toList.all Char.isDigit then
        (none, words)
      else (if first = "-" then none else some first, rest)
    setStatus 0
    for name in names do
      match signal? name, command with
      | some n, some text => modify fun s => { s with traps := s.traps.set n text }
      | some n, none => modify fun s => { s with traps := s.traps.erase n }
      | none, _ =>
        let _ ← writeTo 2 ("trap: " ++ name ++ ": bad trap\n")
        setStatus 1

def cd : Builtin := fun words => do
  let (_, words) ← takeOptions "LP" words
  let s ← get
  let back := words.head? = some "-"
  let target := match words with
    | [] => (s.valueOf? "HOME").getD ""
    | word :: _ => if word = "-" then (s.valueOf? "OLDPWD").getD "" else word
  let old := (s.valueOf? "PWD").getD (narrow (Path.ofTop s.tree.here).toString)
  let p := pathOf target
  let logical : Location :=
    Path.normalize (if p.start = .here then (pathOf old).parts else []) p.parts
  match if target = "" then s.tree.locate true p else placeOf s.tree true target with
  | .ok (place, some .directory) =>
    let shown := narrow (Path.ofTop logical).toString
    set { s with tree := { s.tree with here := place } }
    modify fun s => (s.withVariable "OLDPWD" old).withVariable "PWD" shown
    say (if back then shown ++ "\n" else "")
  | _ => mistake ("can't cd to " ++ target)

def pwd : Builtin := fun words => do
  let _ ← takeOptions "LP" words
  let s ← get
  say ((s.valueOf? "PWD").getD (narrow (Path.ofTop s.tree.here).toString) ++ "\n")

def assignmentIn (word : String) : Act (String × Option String) := do
  let name := String.ofList (word.toList.takeWhile (· ≠ '='))
  if !isName name then mistake (name ++ ": bad variable name")
  let value := word.toList.drop name.length
  return (name, if value.isEmpty then none else some (String.ofList (value.drop 1)))

def singleQuoted (s : String) : String :=
  "'" ++ String.join (s.toList.map fun c =>
    if c = '\x27' then "'\"'\"'" else String.singleton c) ++ "'"

/-- The variables that pass a test, each in a line behind a word. -/
def listing (s : Session) (front : String) (pass : Variable → Bool) : String :=
  let entries := (s.vars.filter fun entry => pass entry.2).mergeSort fun a b => a.1 ≤ b.1
  String.join (entries.map fun (name, v) =>
    front ++ name ++ ((v.value.map fun value => "=" ++ singleQuoted value).getD "") ++ "\n")

/-- Changes how variables are kept, and writes those that come with a value. -/
def declare (front : String) (pass : Variable → Bool) (change : Variable → Variable) : Builtin :=
  fun words => do
    let (options, words) ← takeOptions "p" words
    if words.isEmpty || options.contains 'p' then say (listing (← get) front pass)
    else
      setStatus 0
      for word in words do
        let (name, value) ← assignmentIn word
        match value with
        | some value => assign name value
        | none => pure ()
        modify fun s =>
          let old := (s.vars.get? name).getD ⟨none, false, false⟩
          { s with vars := s.vars.set name (change old) }

def unset : Builtin := fun words => do
  let (options, words) ← takeOptions "vf" words
  setStatus 0
  for name in words do
    if options.contains 'f' then
      modify fun s => { s with functions := s.functions.erase name }
    else
      if !isName name then mistake (name ++ ": bad variable name")
      if ((← get).vars.get? name).any Variable.fixed then mistake (name ++ ": is read only")
      modify fun s => { s with vars := s.vars.erase name }

def optionNames : List (String × Char) :=
  [("errexit", 'e'), ("noglob", 'f'), ("ignoreeof", 'I'), ("interactive", 'i'), ("monitor", 'm'),
    ("noexec", 'n'), ("stdin", 's'), ("xtrace", 'x'), ("verbose", 'v'), ("vi", 'V'), ("emacs", 'E'),
    ("noclobber", 'C'), ("allexport", 'a'), ("notify", 'b'), ("nounset", 'u')]

/-- Sets or clears an option. -/
def setOption (on : Bool) (letter : Char) : Act Unit := do
  if !optionNames.any fun entry => entry.2 = letter then
    mistake ("Illegal option -" ++ String.singleton letter)
  modify fun s =>
    let others := s.options.filter (· ≠ letter)
    { s with options := if on then letter :: others else others }

/-- Sets the options in front of words; what is left are arguments, if there are any. Letters in
`skipped` are not options of a running shell and are returned. -/
def setOptions (skipped : List Char) :
    Nat → List Char → List String → Act (List Char × Option (List String))
  | 0, found, words => return (found, some words)
  | fuel + 1, found, words => do
    match words with
    | [] => return (found, none)
    | word :: rest =>
      match word.toList with
      | ['-', '-'] => return (found, some rest)
      | ['-'] => return (found, if rest.isEmpty then none else some rest)
      | sign :: letters =>
        if (sign = '-' || sign = '+') && !letters.isEmpty then
          let mut rest := rest
          let mut found := found
          for letter in letters do
            if skipped.contains letter then found := letter :: found
            else if letter = 'o' then
              match rest with
              | name :: more =>
                rest := more
                match optionNames.find? fun entry => entry.1 = name with
                | some (_, letter) => setOption (sign = '-') letter
                | none => mistake ("Illegal option " ++ String.singleton sign ++ "o " ++ name)
              | [] => pure ()
            else setOption (sign = '-') letter
          setOptions skipped fuel found rest
        else return (found, some words)
      | [] => return (found, some words)

def setBuiltin : Builtin := fun words => do
  if words.isEmpty then say (listing (← get) "" fun v => v.value.isSome)
  else
    let (_, arguments) ← setOptions [] (words.length + 1) [] words
    match arguments with
    | some arguments => modify fun s => { s with arguments }
    | none => pure ()
    setStatus 0

def shift : Builtin := fun words => do
  let count ← match words with
    | word :: _ => countOf word
    | [] => pure 1
  let s ← get
  if s.arguments.length < count then mistake "can't shift that many"
  set { s with arguments := s.arguments.drop count, status := 0 }

/-- Makes variables local to the function being run. -/
def localBuiltin : Builtin := fun words => do
  if (← get).scopes.isEmpty then mistake "not in a function"
  setStatus 0
  for word in words do
    let (name, value) ← assignmentIn word
    modify fun s =>
      match s.scopes with
      | scope :: outer =>
        if scope.any fun entry => entry.1 = name then s
        else { s with scopes := ((name, s.vars.get? name) :: scope) :: outer }
      | [] => s
    match value with
    | some value => assign name value
    | none => pure ()

def exit : Builtin := fun words => do
  match words with
  | word :: _ => setStatus (← countOf word)
  | [] => pure ()
  throw .shell

def returnBuiltin : Builtin := fun words => do
  match words with
  | word :: _ => setStatus (← countOf word)
  | [] => pure ()
  throw .function

/-- Leaves loops, or goes on with the next round of one. -/
def leaveLoop (again : Bool) : Builtin := fun words => do
  let count ← match words with
    | word :: _ => do
      let n ← countOf word
      if n = 0 then mistake ("Illegal number: " ++ word)
      pure n
    | [] => pure 1
  setStatus 0
  let loops := (← get).loops
  if 0 < loops then throw (.loop again (min count loops))

/-- The line in front of a text, whether it has an end, and the number of bytes read. A backslash
keeps the character behind it, unless it is to be read as it is. -/
def inputLine (raw : Bool) (taken : List Glyph) (count : Nat) :
    List Char → List Glyph × Bool × Nat
  | [] => (taken.reverse, false, count)
  | '\n' :: _ => (taken.reverse, true, count + 1)
  | '\\' :: c :: rest =>
    if raw then inputLine raw (⟨'\\', false, true⟩ :: taken) (count + 1) (c :: rest)
    else if c = '\n' then inputLine raw taken (count + 2) rest
    else inputLine raw (⟨c, true, false⟩ :: taken) (count + 2) rest
  | c :: rest => inputLine raw (⟨c, false, true⟩ :: taken) (count + 1) rest

/-- Splits a line into at most so many fields; the last one takes all that is left, without the
blanks around it. -/
def lineFields (separators : List Char) : Nat → List Glyph → List String
  | 0, _ => []
  | count + 1, glyphs =>
    let blank (g : Glyph) : Bool :=
      g.divisible && separators.contains g.char && (g.char = ' ' || g.char = '\t' || g.char = '\n')
    let mark (g : Glyph) : Bool := g.divisible && separators.contains g.char
    let glyphs := glyphs.dropWhile blank
    let field := glyphs.takeWhile fun g => !mark g
    let behind := (glyphs.drop field.length).dropWhile blank
    let after := match behind with
      | g :: rest => if mark g then rest.dropWhile blank else behind
      | [] => []
    if count = 0 then
      let whole := if after.isEmpty then field else (glyphs.reverse.dropWhile blank).reverse
      [Glyph.textOf whole]
    else Glyph.textOf field :: lineFields separators count after

def read : Builtin := fun words => do
  let rec takeFlags : List String → Act (Bool × List String)
    | "-p" :: _ :: rest => takeFlags rest
    | "-r" :: rest => do return (true, (← takeFlags rest).2)
    | "--" :: rest => return (false, rest)
    | rest => return (false, rest)
  let (raw, names) ← takeFlags words
  if names.isEmpty then mistake "arg count"
  for name in names do
    if !isName name then mistake (name ++ ": bad variable name")
  let s ← get
  let (glyphs, ended, count) := inputLine raw [] 0 (ofBytes (s.remaining 0)).toList
  set (s.advance 0 count)
  let fields := lineFields (separators s) names.length glyphs
  for (name, n) in names.zipIdx do
    assign name (fields[n]?.getD "")
  setStatus (if ended then 0 else 1)

def echo : Builtin := fun words => say (echoed words)

def printf : Builtin := fun words => do
  let (_, words) ← takeOptions "" words
  match words with
  | [] => mistake "usage: printf format [arg ...]"
  | format :: arguments =>
    let result := formatted format arguments
    for complaint in result.complaints do
      complain complaint
    match result.mistake with
    | some message =>
      complain message
      say (String.ofList result.written.reverse)
      setStatus 2
    | none =>
      say (String.ofList result.written.reverse)
      if !result.complaints.isEmpty then setStatus 1

def testBuiltin (name : String) : Builtin := fun words => do
  match decideTest (← get).tree name words with
  | .ok holds => setStatus (if holds then 0 else 1)
  | .error fault => mistake fault.message

def ending (status : Nat) : Builtin := fun _ => setStatus status

/-- A builtin command of a name, as far as it runs no other command. -/
def builtin? : String → Option Builtin
  | ":" | "true" | "alias" | "unalias" | "hash" | "times" | "ulimit" => some (ending 0)
  | "false" => some (ending 1)
  | "echo" => some echo
  | "printf" => some printf
  | "test" => some (testBuiltin "test")
  | "[" => some (testBuiltin "[")
  | "cd" | "chdir" => some cd
  | "pwd" => some pwd
  | "exit" => some exit
  | "return" => some returnBuiltin
  | "break" => some (leaveLoop false)
  | "continue" => some (leaveLoop true)
  | "export" => some (declare "export " Variable.exported fun v => { v with exported := true })
  | "readonly" => some (declare "readonly " Variable.fixed fun v => { v with fixed := true })
  | "unset" => some unset
  | "set" => some setBuiltin
  | "shift" => some shift
  | "local" => some localBuiltin
  | "read" => some read
  | "kill" => some kill
  | "wait" => some wait
  | "trap" => some trap
  | "umask" => some fun words => if words.isEmpty then say "0022\n" else setStatus 0
  | _ => none

end NatSpec.Shell
