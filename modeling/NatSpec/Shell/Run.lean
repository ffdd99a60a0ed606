import NatSpec.Shell.Builtins
import NatSpec.Shell.Programs
import NatSpec.Shell.Reader

/-!
Running scripts and programs. Commands run one after another, some of them in a shell of their own
that shares the file tree and the open files with the one that starts it. The output of a command
goes where its redirections lead it.
-/

namespace NatSpec.Shell

def commandDepth : Nat := 3000

def roundLimit : Nat := 1000000

/-- The variables with which a shell starts, apart from the working directory. -/
def startVariables : Table String Variable :=
  [("HOME", ⟨some "/root", true, false⟩),
    ("LANG", ⟨some "C.UTF-8", true, false⟩),
    ("PATH", ⟨some "/usr/local/sbin:/usr/local/bin:/usr/sbin:/usr/bin:/sbin:/bin", true, false⟩)]

/-- The variables that a shell adds to those passed to it. -/
def ownVariables (here : Location) : Table String Variable :=
  [("IFS", ⟨some " \t\n", false, false⟩), ("OPTIND", ⟨some "1", false, false⟩),
    ("PS1", ⟨some "# ", false, false⟩), ("PS2", ⟨some "> ", false, false⟩),
    ("PS4", ⟨some "+ ", false, false⟩),
    ("PWD", ⟨some (narrow (Path.ofTop here).toString), true, false⟩)]

/-- A process at its start: its input is empty, and what it writes is kept. -/
def Session.start (tree : FileTree) : Session where
  tree := tree
  streams := #[.empty, .empty]
  files := #[⟨.nothing, 0, false, true, false⟩, ⟨.stream 0, 0, true, false, true⟩,
    ⟨.stream 1, 0, true, false, true⟩]
  descriptors := [(0, 0), (1, 1), (2, 2)]
  vars := startVariables
  functions := []
  documents := #[]
  name := "sh"
  arguments := []
  options := []
  status := 0
  substituted := 0
  line := 0
  builtin := none
  loops := 0
  scopes := []
  traps := []
  pending := []
  process := 1
  lastProcess := 1
  background := none

/-- The shell that another one starts for a program: it has only what is passed on. -/
def Session.started (s : Session) : Session :=
  let passed := s.environment.map fun (name, value) => (name, ⟨some value, true, false⟩)
  let process := s.lastProcess + 1
  { Session.start s.tree with
    streams := s.streams, files := s.files, descriptors := s.descriptors
    vars := Table.overlay passed (ownVariables s.tree.here), process, lastProcess := process }

/-- The state after another shell has ended: it has changed the file tree and the open files. -/
def Session.after (s inner : Session) : Session :=
  { s with
    tree := { inner.tree with here := s.tree.here }
    streams := inner.streams, files := inner.files, lastProcess := inner.lastProcess }

/-- Runs a step after which descriptors lead where they led before. -/
def keepingDescriptors {α : Type} (act : Act α) : Act α := fun s =>
  let (result, after) := act s
  (result, { after with descriptors := s.descriptors })

def asBuiltin {α : Type} (name : String) (act : Act α) : Act α := fun s =>
  let (result, after) := act { s with builtin := some name }
  (result, { after with builtin := s.builtin })

/-- Runs a step inside a loop, which says whether the loop goes on; leaving the loop ends it. -/
def asRound (act : Act Bool) : Act Bool := fun s =>
  let (result, after) := act { s with loops := s.loops + 1 }
  let after := { after with loops := s.loops }
  match result with
  | .error (.loop again count) =>
    if count ≤ 1 then (.ok again, after) else (.error (.loop again (count - 1)), after)
  | result => (result, after)

/-- Runs the body of a loop as long as its test holds, at most so many times; the status is that of
the last body. -/
def runWhile (test : Act Bool) (body : Act Unit) : Nat → Nat → Act Unit
  | 0, _ => pure ()
  | count + 1, last => fun s =>
    let round : Act Bool := do
      if ← test then
        body
        return true
      else
        setStatus last
        return false
    match asRound round s with
    | (.ok true, s) => runWhile test body count s.status s
    | (.ok false, s) => (.ok (), s)
    | (.error leave, s) => (.error leave, s)

def runForEach (body : String → Act Unit) : List String → Act Unit
  | [] => pure ()
  | value :: rest => fun s =>
    let round : Act Bool := do
      body value
      return true
    match asRound round s with
    | (.ok true, s) => runForEach body rest s
    | (.ok false, s) => (.ok (), s)
    | (.error leave, s) => (.error leave, s)

/-- Runs a step with variables that are as they were afterwards. -/
def keepingVariables {α : Type} (names : List String) (act : Act α) : Act α := fun s =>
  let (result, after) := act s
  let restored := names.foldl (fun t name =>
    match s.vars.get? name with
    | some v => t.set name v
    | none => t.erase name) after.vars
  (result, { after with vars := restored })

/-- Runs a step in a shell of its own, which does `atEnd` before it ends; its status. A signal that
kills the shell kills the one around it too. -/
def inSubshell (atEnd : Act Unit) (act : Act Unit) : Act Nat := fun s =>
  let (result, inner) := act { s with traps := [], pending := [] }
  match result with
  | .error (.killed process signal) => (.error (.killed process signal), s.after inner)
  | result =>
    let status := if result matches .error .mistake then 2 else inner.status
    let (ended, last) := atEnd { inner with status }
    match ended with
    | .error (.killed process signal) => (.error (.killed process signal), s.after last)
    | _ => (.ok (last.status % 256), s.after last)

/-- The number of the descriptor that a word names: none closes it. -/
def sourceDescriptor? (word : String) : Option (Option Nat) :=
  match word.toList with
  | ['-'] => some none
  | [c] => if c.isDigit then some (some (Text.digitValue c)) else none
  | _ => none

def redirect (expand : Word → Act String) : Redirection → Act Unit
  | .file descriptor opening word => do
    let name ← expand word
    let s ← get
    let same : Option Nat := match name with
      | "/dev/stdin" => some 0
      | "/dev/stdout" => some 1
      | "/dev/stderr" => some 2
      | _ => none
    match same.bind s.descriptors.get? with
    | some number => set { s with descriptors := s.descriptors.set descriptor number }
    | none =>
      match s.openPath opening name with
      | .ok (file, tree) => set ({ s with tree }.lead descriptor file)
      | .error reason =>
        let missing := reason = .notFound || reason = .notDirectory
        if opening = .reading then
          mistake ("cannot open " ++ name ++ ": "
            ++ if missing then "No such file" else reason.wording)
        else
          mistake ("cannot create " ++ name ++ ": "
            ++ if missing then "Directory nonexistent" else reason.wording)
  | .copy descriptor word => do
    let name ← expand word
    let s ← get
    match sourceDescriptor? name with
    | some none => set { s with descriptors := s.descriptors.erase descriptor }
    | some (some source) =>
      match s.descriptors.get? source with
      | some number => set { s with descriptors := s.descriptors.set descriptor number }
      | none => mistake (name ++ ": Bad file descriptor")
    | none => mistake "Syntax error: Bad fd number"
  | .document descriptor number => do
    let text ← expand ((← get).documents.getD number [])
    let s ← get
    let (stream, s) := s.newStream (octets text)
    set (s.lead descriptor ⟨.stream stream, 0, false, true, false⟩)

/-- Traces a command on the error channel as it was before the command. -/
def trace (words : List String) (before : Table Nat Nat) : Act Unit := do
  if ← optionSet 'x' then
    keepingDescriptors do
      modify fun s => { s with descriptors := before }
      let front := ((← get).valueOf? "PS4").getD ""
      let _ ← writeTo 2 (front ++ " ".intercalate words ++ "\n")

def Session.findsPrograms (s : Session) : Bool :=
  (Text.splitOn ':' ((s.valueOf? "PATH").getD "").toList).any fun directory =>
    let d := String.ofList directory
    d = "/bin" || d = "/usr/bin" || d = "/bin/" || d = "/usr/bin/"

/-- Runs a program that runs no other; its status. -/
def runPlain (program : Program) (words : List String) : Act Nat := do
  let s ← get
  let effect := program words (s.remaining 0) s.tree
  set { s.advance 0 effect.taken with tree := { effect.tree with here := s.tree.here } }
  for (descriptor, text) in effect.written do
    let _ ← writeTo descriptor text
  return effect.status

/-- Passes variables written in front of a program on to it. -/
def passOn (pairs : List (String × String)) : Act Unit :=
  modify fun s => { s with
    vars := pairs.foldl (fun t (name, value) => t.set name ⟨some value, true, false⟩)
      s.vars }

def environmentPair? (word : String) : Option (String × String) :=
  let name := String.ofList (word.toList.takeWhile (· ≠ '='))
  if name ≠ "" && name.length < word.length then
    some (name, String.ofList (word.toList.drop (name.length + 1)))
  else none

/-- The lines of a script, each run by `run` before the next one is read. -/
def runLines (run : Command → Act Unit) : Nat → Source → Act Unit
  | 0, _ => pure ()
  | count + 1, source => do
    match source.next with
    | .error (line, reason) =>
      modify fun s => { s with line }
      mistake ("Syntax error: " ++ reason.message)
    | .ok none => pure ()
    | .ok (some (command, rest)) =>
      modify fun s => { s with documents := rest.documents }
      run command
      runLines run count { rest with documents := (← get).documents }

/-- How a process ends that has been left in some way, once `atEnd` has been done. -/
def endingOf (atEnd : Act Unit) (act : Act Unit) : Act Ending := fun s =>
  let (result, inner) := act s
  let finish (s : Session) : Except Leave Ending × Session :=
    let (ended, last) := atEnd s
    match ended with
    | .error (.killed process signal) =>
      if process = last.process then (.ok (.killed signal), last)
      else (.error (.killed process signal), last)
    | _ => (.ok (.exited (last.status % 256)), last)
  match result with
  | .error (.killed process signal) =>
    if process = inner.process then (.ok (.killed signal), inner)
    else (.error (.killed process signal), inner)
  | .error .mistake => finish { inner with status := 2 }
  | _ => finish inner

section

variable (run : Bool → Command → Act Unit)

def runText (tested : Bool) (text : String) : Act Unit := do
  runLines (run tested) (text.length + 2) (Source.ofText text (← get).documents)

/-- Runs the command for the end of the shell, whose status stays unless that command ends the shell
itself. -/
def runExitTrap : Act Unit := do
  let s ← get
  match s.traps.get? 0 with
  | none => pure ()
  | some text =>
    set { s with traps := s.traps.erase 0 }
    try
      runText run false text
      setStatus s.status
    catch leave =>
      match leave with
      | .shell => pure ()
      | .mistake => setStatus 2
      | .killed process signal => throw (.killed process signal)
      | _ => setStatus s.status

def runPending : Act Unit := do
  let s ← get
  if !s.pending.isEmpty then
    set { s with pending := [] }
    for signal in s.pending do
      runText run false ((s.traps.get? signal).getD "")
      setStatus s.status

def substitute (command : Command) : Act String := do
  let (stream, s) := (← get).newStream .empty
  set s
  let status ← inSubshell (runExitTrap run) do
    modify fun s => s.lead 1 ⟨.stream stream, 0, true, false, true⟩
    run false command
  modify fun s => { s with substituted := status }
  return ofBytes ((← get).content (.stream stream))

def redirectAll (redirections : List Redirection) : Act Unit := do
  for redirection in redirections do
    redirect (expandText (substitute run)) redirection

/-- Whether redirections cannot be set up, which is complained about. -/
def redirectionsFail (redirections : List Redirection) : Act Bool := do
  try
    redirectAll run redirections
    return false
  catch leave => if leave = .mistake then return true else throw leave

/-- Runs the stages of a pipeline, each in a shell of its own, and each but the first on what the one
before it has written; the status of the last one. -/
def runStages : Option Nat → List Command → Act Nat
  | _, [] => return 0
  | input, stage :: rest => do
    let (stream, s) := (← get).newStream .empty
    set s
    let status ← inSubshell (runExitTrap run) do
      if let some stream := input then
        modify fun s => s.lead 0 ⟨.stream stream, 0, false, true, false⟩
      if !rest.isEmpty then
        modify fun s => s.lead 1 ⟨.stream stream, 0, true, false, true⟩
      run true stage
    if rest.isEmpty then return status else runStages (some stream) rest

/-- The command of the first branch with a pattern that matches a text. -/
def chosenBranch (text : String) : List (List Word × Command) → Act (Option Command)
  | [] => return none
  | (patterns, command) :: rest => do
    let mut hit := false
    for pattern in patterns do
      if !hit then
        hit := matchesText (← expandGlyphs (substitute run) pattern) text
    if hit then return some command else chosenBranch text rest

/-- Runs a script given by the words behind the name of a shell. -/
def runScript (words : List String) : Act Unit := do
  let (found, rest) ← setOptions ['c', 'l'] (words.length + 1) [] words
  let rest := rest.getD []
  if found.contains 'c' then
    match rest with
    | [] => mistake "-c requires an argument"
    | script :: rest =>
      modify fun s => { s with name := rest.head?.getD s.name, arguments := rest.drop 1 }
      runText run false script
  else
    match rest, ← optionSet 's' with
    | file :: rest, false =>
      match (← get).openPath .reading file with
      | .ok (opened, _) =>
        modify fun s => { s with name := file, arguments := rest }
        runText run false (ofBytes ((← get).content opened.medium))
      | .error reason =>
        let missing := reason = .notFound || reason = .notDirectory
        mistake ("cannot open " ++ file ++ ": " ++ if missing then "No such file" else reason.wording)
    | rest, _ =>
      modify fun s => { s with arguments := rest }
      let s ← get
      let script := s.remaining 0
      set (s.advance 0 script.size)
      runText run false (ofBytes script)

def runShell (word : String) (words : List String) : Act Ending := fun s =>
  let start := { s.started with name := word }
  let (ending, inner) := endingOf (runExitTrap run) (runScript run words) start
  (ending, s.after inner)

def runProgram : Nat → List String → Act Ending
  | 0, _ | _, [] => return .exited 127
  | fuel + 1, word :: words => do
    let s ← get
    let slashed := word.toList.contains '/'
    let inner (complaint : String → String) (words : List String) : Act Ending := do
      match words with
      | [] => return .exited 125
      | name :: _ =>
        if isProgram name then runProgram fuel words
        else
          let _ ← writeTo 2 (complaint name ++ ": No such file or directory\n")
          return .exited 127
    if isProgram word && (slashed || s.findsPrograms) then
      match plainName word with
      | "sh" | "dash" => runShell run word words
      | "env" =>
        let pairs := words.takeWhile fun word => (environmentPair? word).isSome
        let rest := words.drop pairs.length
        keepingVariables (s.vars.keys ++ pairs.filterMap fun word =>
            (environmentPair? word).map Prod.fst) do
          passOn (pairs.filterMap environmentPair?)
          if rest.isEmpty then
            let shown := (← get).environment.map fun (name, value) => name ++ "=" ++ value ++ "\n"
            let _ ← writeTo 1 (String.join shown)
            return .exited 0
          else inner (fun name => "env: " ++ curlyQuoted name) rest
      | "nice" => inner (fun name => "nice: " ++ curlyQuoted name) words
      | "timeout" =>
        inner (fun name => "timeout: failed to run command " ++ curlyQuoted name) (words.drop 1)
      | "xargs" =>
        let input := s.remaining 0
        set (s.advance 0 input.size)
        let more := (ofBytes input).splitToList fun c => c = ' ' || c = '\t' || c = '\n'
        let words := if words.isEmpty then ["echo"] else words
        let ending ← inner (fun name => "xargs: " ++ name) (words ++ more.filter (· ≠ ""))
        match ending with
        | .exited n => return .exited (if 1 ≤ n && n ≤ 125 then 123 else n)
        | .killed _ => return .exited 125
      | name =>
        match program? name with
        | some program =>
          let named : Program := fun words input tree =>
            (program words input tree).calledAs word name
          return .exited (← runPlain named words)
        | none => return .exited 127
    else if slashed then
      match entryOf s.tree word with
      | .error reason =>
        if reason = .notFound || reason = .notDirectory then
          complain (word ++ ": not found")
          return .exited 127
        else
          complain (word ++ ": " ++ reason.wording)
          return .exited 126
      | .ok _ =>
        complain (word ++ ": " ++ Refused.notPermitted.wording)
        return .exited 126
    else if word = "" then
      complain (": " ++ Refused.notPermitted.wording)
      return .exited 127
    else
      complain (word ++ ": not found")
      return .exited 127

def runAndWait (words : List String) : Act Unit := do
  let ending ← runProgram run (words.length + 1) words
  match ending with
  | .killed signal =>
    if signal ≠ 2 && signal ≠ 13 then
      let _ ← writeTo 2 (signalDescription signal ++ "\n")
  | .exited _ => pure ()
  setStatus ending.status

def replaceShell (words : List String) : Act Unit := do
  let ending ← runProgram run (words.length + 1) words
  setStatus ending.status
  match ending with
  | .killed signal => throw (.killed (← get).process signal)
  | .exited _ =>
    modify fun s => { s with traps := [] }
    throw .shell

def callFunction (tested : Bool) (body : Command) (arguments : List String) : Act Unit := fun s =>
  let (result, inner) :=
    run tested body { s with arguments, loops := 0, scopes := [] :: s.scopes }
  let vars := (inner.scopes.head?.getD []).foldl (fun t (name, old) =>
    match old with
    | some v => t.set name v
    | none => t.erase name) inner.vars
  let after :=
    { inner with arguments := s.arguments, loops := s.loops, scopes := s.scopes, vars }
  match result with
  | .error .function => (.ok (), after)
  | result => (result, after)

def runFile (tested : Bool) (words : List String) : Act Unit := do
  match words with
  | [] => pure ()
  | file :: _ =>
    if !file.toList.contains '/' then mistake (file ++ ": not found")
    let s ← get
    match s.openPath .reading file with
    | .ok (opened, _) =>
      setStatus 0
      try
        asBuiltin file (runText run tested (ofBytes (s.content opened.medium)))
      catch leave => if leave = .function then pure () else throw leave
    | .error reason =>
      let missing := reason = .notFound || reason = .notDirectory
      mistake ("cannot open " ++ file ++ ": " ++ if missing then "No such file" else reason.wording)

def describe (s : Session) (verbose : Bool) (name : String) : Option String :=
  let as (kind : String) : String := if verbose then name ++ " is a " ++ kind else name
  if keywords.contains name then some (as "shell keyword")
  else if specialNames.contains name then some (as "special shell builtin")
  else if s.functions.contains name then some (as "shell function")
  else if (builtin? name).isSome || name = "command" || name = "type" then
    some (as "shell builtin")
  else if name.toList.contains '/' then
    if isProgram name || (entryOf s.tree name).toOption.isSome then
      some (if verbose then name ++ " is " ++ name else name)
    else none
  else if isProgram name && s.findsPrograms then
    some (if verbose then name ++ " is /usr/bin/" ++ name else "/usr/bin/" ++ name)
  else none

/-- Describes names; the status says whether all of them are known. -/
def describeAll (verbose complaining : Bool) (names : List String) : Act Unit := do
  let s ← get
  let known := names.map fun name => (name, describe s verbose name)
  say (String.join (known.map fun (name, text) =>
    match text with
    | some text => text ++ "\n"
    | none => if complaining then name ++ ": not found\n" else ""))
  if known.any fun entry => entry.2.isNone then setStatus 127

/-- Runs a command that belongs to the language itself. -/
def runSpecial (tested : Bool) (name : String) (words : List String) : Act Unit :=
  asBuiltin name do
    match name with
    | "eval" =>
      if words.all fun word => word = "" then setStatus 0
      runText run tested (" ".intercalate words)
    | "." => runFile run tested words
    | "exec" => if words.isEmpty then setStatus 0 else replaceShell run words
    | name =>
      match builtin? name with
      | some builtin => builtin words
      | none => setStatus 0

/-- Runs a builtin command that does not end the shell when it gives up. -/
def runRegular (name : String) (builtin : Act Unit) : Act Unit := do
  try asBuiltin name builtin
  catch leave => if leave = .mistake then setStatus 2 else throw leave

/-- Runs what the first of some words names. -/
def runNamed (tested : Bool) : Nat → Bool → List String → Act Unit
  | 0, _, _ | _, _, [] => pure ()
  | fuel + 1, withFunctions, name :: words => do
    let s ← get
    if specialNames.contains name then
      if withFunctions then runSpecial run tested name words
      else
        try runSpecial run tested name words
        catch leave => if leave = .mistake then setStatus 2 else throw leave
    else
      match if withFunctions then s.functions.get? name else none with
      | some body => callFunction run tested body words
      | none =>
        match name, builtin? name with
        | "command", _ =>
          match words with
          | "-v" :: names => runRegular name (describeAll false false names)
          | "-V" :: names => runRegular name (describeAll true true names)
          | "-p" :: rest | "--" :: rest => runNamed tested fuel false rest
          | [] => setStatus 0
          | rest => runNamed tested fuel false rest
        | "type", _ => runRegular name (describeAll true true words)
        | name, some builtin => runRegular name (builtin words)
        | name, none => runAndWait run (name :: words)

/-- Writes the variables in front of a command; what has been written, as it is traced. -/
def assignAll (passing : Bool) (assignments : List (String × Word)) : Act (List String) := do
  let mut traced : List String := []
  for (name, word) in assignments do
    let value ← expandText (substitute run) word
    assign name value
    if passing then
      modify fun s =>
        let old := (s.vars.get? name).getD ⟨none, false, false⟩
        { s with vars := s.vars.set name { old with exported := true } }
    traced := (name ++ "=" ++ value) :: traced
  return traced.reverse

/-- Runs a simple command. Variables written in front of it are its own, unless it belongs to the
language itself. -/
def runSimple (tested : Bool) (line : Nat) (assignments : List (String × Word)) (words : List Word)
    (redirections : List Redirection) : Act Unit := do
  modify fun s => { s with line, substituted := 0 }
  let fields ← expandWords (substitute run) words
  let s ← get
  let special := (fields.head?.map specialNames.contains).getD false
  let stays := fields = ["exec"]
  let whole : Act Unit := do
    if ← redirectionsFail run redirections then
      setStatus 2
      if special then throw .mistake
    else
      setStatus s.status
      let own := if special || fields.isEmpty then [] else assignments.map Prod.fst
      keepingVariables own do
        let traced ← assignAll run (!own.isEmpty) assignments
        trace (traced ++ fields) s.descriptors
        if fields.isEmpty then setStatus (← get).substituted
        else runNamed run tested (fields.length + 1) true fields
  if stays then whole else keepingDescriptors whole

/-- Runs a command, given how the commands inside it are run. With `tested`, its status is asked for,
so that a failure does not end the shell. -/
def runCommand (tested : Bool) (command : Command) : Act Unit := do
  let endIfFailed : Act Unit := do
    if !tested && (← get).status ≠ 0 && (← optionSet 'e') then throw .shell
  match command with
  | .nothing => pure ()
  | .sequence first second =>
    run tested first
    run tested second
  | .both first second =>
    run true first
    if (← get).status = 0 then run tested second
  | .either first second =>
    run true first
    if (← get).status ≠ 0 then run tested second
  | .negated body =>
    run true body
    setStatus (if (← get).status = 0 then 1 else 0)
  | .conditional test yes no =>
    run true test
    if (← get).status = 0 then run tested yes
    else
      setStatus 0
      run tested no
  | .repeated wanted test body =>
    let holds : Act Bool := do
      run true test
      return ((← get).status = 0) == wanted
    runWhile holds (run tested body) roundLimit 0
  | .forEach line name words body =>
    modify fun s => { s with line }
    let values ← expandWords (substitute run) words
    setStatus 0
    runForEach (fun value => do
      assign name value
      run tested body) values
  | .choice line word branches =>
    modify fun s => { s with line }
    let text ← expandText (substitute run) word
    match ← chosenBranch run text branches with
    | some body =>
      if body matches .nothing then setStatus 0
      run tested body
    | none => setStatus 0
  | .definition name body =>
    modify fun s => { s with functions := s.functions.set name body, status := 0 }
  | .redirected line body redirections =>
    modify fun s => { s with line }
    keepingDescriptors do
      if ← redirectionsFail run redirections then setStatus 2 else run tested body
  | .subshell line body redirections =>
    modify fun s => { s with line }
    setStatus (← inSubshell (runExitTrap run) do
      redirectAll run redirections
      run tested body)
    endIfFailed
  | .background body =>
    modify fun s =>
      { s with lastProcess := s.lastProcess + 1, background := some (s.lastProcess + 1) }
    let _ ← inSubshell (runExitTrap run) do
      modify fun s => s.lead 0 ⟨.nothing, 0, false, true, false⟩
      run true body
    setStatus 0
  | .pipeline stages =>
    setStatus (← runStages run none stages)
    endIfFailed
  | .simple line assignments words redirections =>
    runSimple run tested line assignments words redirections
    runPending run
    endIfFailed

end

/-- Runs a command whose nesting, with that of the functions it calls, goes no deeper than given. -/
def execute : Nat → Bool → Command → Act Unit
  | 0, _, _ => mistake "Nested too deeply"
  | depth + 1, tested, command => runCommand (execute depth) tested command

structure Outcome where
  ending : Ending
  out : ByteArray
  err : ByteArray
  tree : FileTree

/-- Runs a program as a process, if there is a program of that name or path. -/
def runProcess? (program : String) (words : List String) (tree : FileTree) : Option Outcome :=
  let all := narrow program :: words.map narrow
  if isProgram (narrow program) then
    let (result, s) :=
      runProgram (execute commandDepth) (all.length + 1) all (Session.start tree)
    let ending := match result with
      | .ok ending => ending
      | .error _ => .exited 2
    some ⟨ending, s.content (.stream 0), s.content (.stream 1), s.tree⟩
  else none

end NatSpec.Shell
