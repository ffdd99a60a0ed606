import NatSpec.FileTree.Update
import NatSpec.Shell.Arithmetic
import NatSpec.Shell.Place
import NatSpec.Shell.Script

/-!
The state of a running shell: the file tree, what its descriptors lead to, its variables, functions,
arguments and options, and the status of the last command. A command may be left before its end.
-/

namespace NatSpec.Shell

/-- How a process ends: with a status, or by a signal. -/
inductive Ending
  | exited (status : Nat)
  | killed (signal : Nat)
  deriving DecidableEq, Repr

/-- The number by which a process's end is known: its status, or the negative of its signal. -/
def Ending.code : Ending → Int
  | exited status => status
  | killed signal => -(signal : Int)

/-- The status under which a shell knows a process's end. -/
def Ending.status : Ending → Nat
  | exited status => status
  | killed signal => 128 + signal

/-- Where bytes come from or go to. -/
inductive Medium
  | stream (number : Nat)
  | file (place : Location)
  | nothing
  deriving DecidableEq, Repr, Inhabited

/-- An open file: its medium, the place reached in it, and what may be done. -/
structure OpenFile where
  medium : Medium
  offset : Nat
  appending : Bool
  readable : Bool
  writable : Bool
  deriving Repr, Inhabited

/-- A variable. It may have no value and still be passed on or fixed. -/
structure Variable where
  value : Option String
  exported : Bool
  fixed : Bool
  deriving DecidableEq, Repr, Inhabited

structure Session where
  tree : FileTree
  /-- What has been written to each stream. -/
  streams : Array ByteArray
  /-- The open files. -/
  files : Array OpenFile
  /-- The number of the open file that each descriptor leads to. -/
  descriptors : Table Nat Nat
  vars : Table String Variable
  functions : Table String Command
  /-- The texts that redirections of the script have announced. -/
  documents : Array Word
  /-- The name and the arguments of the script. -/
  name : String
  arguments : List String
  /-- The letters of the options that are set. -/
  options : List Char
  status : Nat
  /-- The status of the last substituted command. -/
  substituted : Nat
  /-- The line of the command being run. -/
  line : Nat
  /-- The builtin command being run. -/
  builtin : Option String
  /-- The number of loops around the command being run. -/
  loops : Nat
  /-- What the variables local to each function being run were before. -/
  scopes : List (List (String × Option Variable))
  /-- The commands to be run at an end or a signal. -/
  traps : Table Nat String
  /-- The signals that have come and have a command to be run. -/
  pending : List Nat
  /-- The number of the shell's process, and of the last one started. -/
  process : Nat
  lastProcess : Nat
  background : Option Nat
  deriving Inhabited

inductive Leave
  /-- A number of loops is ended, or the last of them goes on with its next round. -/
  | loop (again : Bool) (count : Nat)
  /-- A function is left. -/
  | function
  /-- The shell ends with the status of the session. -/
  | shell
  /-- The shell has complained about a mistake and gives up. -/
  | mistake
  /-- A process is killed by a signal. -/
  | killed (process signal : Nat)
  deriving DecidableEq, Repr

/-- A step of a running shell. What it has changed stays if it is left. -/
abbrev Act := ExceptT Leave (StateM Session)

namespace Session

def content (s : Session) : Medium → ByteArray
  | .stream n => s.streams.getD n .empty
  | .file place =>
    match s.tree.at? place with
    | some (.file bytes) => bytes
    | _ => .empty
  | .nothing => .empty

/-- The bytes with others written over them from a place on. -/
def overwritten (old new : ByteArray) (offset : Nat) : ByteArray :=
  let gap : ByteArray := ⟨Array.replicate (offset - old.size) 0⟩
  old.extract 0 offset ++ gap ++ new ++ old.extract (offset + new.size) old.size

def openFile? (s : Session) (descriptor : Nat) : Option (Nat × OpenFile) := do
  let number ← s.descriptors.get? descriptor
  let file ← s.files[number]?
  some (number, file)

/-- The state after bytes have been written to a descriptor; none if that cannot be done. -/
def write? (s : Session) (descriptor : Nat) (bytes : ByteArray) : Option Session := do
  let (number, file) ← s.openFile? descriptor
  if !file.writable then none
  else if bytes.isEmpty then some s
  else
    match file.medium with
    | .nothing => some s
    | .stream n => some { s with streams := s.streams.modify n (· ++ bytes) }
    | .file place =>
      let old := s.content file.medium
      let offset := if file.appending then old.size else file.offset
      let tree := if (s.tree.at? place).isSome then
          s.tree.put place (.file (overwritten old bytes offset))
        else s.tree
      let files := s.files.set! number { file with offset := offset + bytes.size }
      some { s with tree, files }

def remaining (s : Session) (descriptor : Nat) : ByteArray :=
  match s.openFile? descriptor with
  | some (_, file) =>
    if file.readable then
      let all := s.content file.medium
      all.extract file.offset all.size
    else .empty
  | none => .empty

/-- The state after a number of bytes has been taken from a descriptor. -/
def advance (s : Session) (descriptor count : Nat) : Session :=
  match s.openFile? descriptor with
  | some (number, file) =>
    { s with files := s.files.set! number { file with offset := file.offset + count } }
  | none => s

/-- The state with a new open file, which a descriptor leads to. -/
def lead (s : Session) (descriptor : Nat) (file : OpenFile) : Session :=
  { s with
    files := s.files.push file
    descriptors := s.descriptors.set descriptor s.files.size }

def newStream (s : Session) (bytes : ByteArray) : Nat × Session :=
  (s.streams.size, { s with streams := s.streams.push bytes })

def valueOf? (s : Session) (name : String) : Option String :=
  (s.vars.get? name).bind Variable.value

def withVariable (s : Session) (name value : String) : Session :=
  let old := (s.vars.get? name).getD ⟨none, false, false⟩
  let exported := old.exported || s.options.contains 'a'
  { s with vars := s.vars.set name { old with value := some value, exported } }

/-- The names and values of the variables that are passed on to programs. -/
def environment (s : Session) : List (String × String) :=
  s.vars.filterMap fun (name, v) =>
    if v.exported then v.value.map fun value => (name, value) else none

def openPath (s : Session) (opening : Opening) (name : String) :
    Except Refused (OpenFile × FileTree) :=
  let writable := !(opening = .reading)
  let readable := opening = .reading || opening = .updating
  let opened (medium : Medium) : OpenFile := ⟨medium, 0, opening = .appending, readable, writable⟩
  if name = "/dev/null" then .ok (opened .nothing, s.tree)
  else
    match if opening = .reading || name = "" then placeOf s.tree true name
      else s.tree.locate true (pathOf name), opening with
    | .error reason, _ => .error reason
    | .ok (place, none), opening =>
      if opening = .reading then .error .notFound
      else if endsInSlash name then .error .isDirectory
      else .ok (opened (.file place), s.tree.put place (.file .empty))
    | .ok (_, some .directory), opening =>
      if opening = .reading then .ok (opened .nothing, s.tree) else .error .isDirectory
    | .ok (place, some _), opening =>
      let emptied := (opened (.file place), s.tree.put place (.file .empty))
      if opening ≠ .reading && endsInSlash name then .error .isDirectory
      else if opening = .writing then
        if s.options.contains 'C' then .error .alreadyExists else .ok emptied
      else if opening = .overwriting then .ok emptied
      else .ok (opened (.file place), s.tree)

end Session

/-- Writes a text to a descriptor; false if that cannot be done. -/
def writeTo (descriptor : Nat) (s : String) : Act Bool := do
  match (← get).write? descriptor (octets s) with
  | some after =>
    set after
    return true
  | none => return false

/-- Complains, naming the script, the line and the builtin command being run. -/
def complain (message : String) : Act Unit := do
  let s ← get
  let builtin := (s.builtin.map (· ++ ": ")).getD ""
  let _ ← writeTo 2 (s.name ++ ": " ++ toString s.line ++ ": " ++ builtin ++ message ++ "\n")

def mistake {α : Type} (message : String) : Act α := do
  complain message
  modify fun s => { s with status := 2 }
  throw .mistake

/-- Sets the status of the last command. -/
def setStatus (status : Nat) : Act Unit :=
  modify fun s => { s with status }

def optionSet (letter : Char) : Act Bool := do
  return (← get).options.contains letter

/-- Writes a variable, unless it is fixed. -/
def assign (name value : String) : Act Unit := do
  if ((← get).vars.get? name).any Variable.fixed then mistake (name ++ ": is read only")
  modify fun s => s.withVariable name value

/-- The number that a word writes; it may be neither negative nor beyond thirty-one bits. -/
def countOf (word : String) : Act Nat := do
  match integer? true word with
  | some n =>
    if 0 ≤ n && n < Binary64.twoTo 31 then return n.toNat else mistake ("Illegal number: " ++ word)
  | none => mistake ("Illegal number: " ++ word)

/-- Goes through rounds as long as they ask for another one, at most so many. -/
def rounds (round : Act Bool) : Nat → Act Unit
  | 0 => pure ()
  | count + 1 => fun s =>
    match round s with
    | (.ok true, s) => rounds round count s
    | (.ok false, s) => (.ok (), s)
    | (.error leave, s) => (.error leave, s)

end NatSpec.Shell
