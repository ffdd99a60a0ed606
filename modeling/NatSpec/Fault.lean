import NatSpec.Json.Reader
import NatSpec.Text.Quoted

/-!
Faults: the ways in which a single step fails. A file operation is refused by the file system, a
text is not of its format, or a value has another shape than the step needs. Some faults become
the cause of a reported problem, the others end the run.
-/

namespace NatSpec

/-- Why the file system refuses an operation. -/
inductive Refused
  | notFound
  | notPermitted
  | alreadyExists
  | notDirectory
  | isDirectory
  | invalidArgument
  | nameTooLong
  | tooManyLinks
  deriving DecidableEq, Repr

def Refused.number : Refused → Nat
  | notFound => 2
  | notPermitted => 13
  | alreadyExists => 17
  | notDirectory => 20
  | isDirectory => 21
  | invalidArgument => 22
  | nameTooLong => 36
  | tooManyLinks => 40

def Refused.wording : Refused → String
  | notFound => "No such file or directory"
  | notPermitted => "Permission denied"
  | alreadyExists => "File exists"
  | notDirectory => "Not a directory"
  | isDirectory => "Is a directory"
  | invalidArgument => "Invalid argument"
  | nameTooLong => "File name too long"
  | tooManyLinks => "Too many levels of symbolic links"

/-- The ways in which a step fails. -/
inductive Fault
  /-- The file system refuses an operation on a path. -/
  | refused (reason : Refused) (path : String)
  /-- A text is not JSON. -/
  | misread (place : Json.Misread)
  /-- Bytes are not UTF-8. -/
  | undecodable
  /-- A text with half a pair of units on its own has no bytes. -/
  | unencodable
  /-- A text is not TOML. -/
  | notToml
  /-- An object lacks a field. -/
  | missingField (name : String)
  /-- An operation does not apply to a value of this kind. -/
  | wrongKind
  /-- A value of the right kind has a content that the operation does not admit. -/
  | badValue
  /-- Fields are asked of a value that has none. -/
  | notRecord
  /-- A page needs a name that its data do not define. -/
  | undefinedName
  /-- Links lead back to themselves. -/
  | linkLoop
  /-- A value is nested beyond the reader's limit. -/
  | deepNesting
  /-- A command ends with a status other than zero. -/
  | exitStatus
  deriving DecidableEq, Repr

namespace Fault

/-- The label under which a fault is shown as a cause. -/
def label : Fault → String
  | refused .notFound _ => "FileNotFoundError"
  | refused .notPermitted _ => "PermissionError"
  | refused .alreadyExists _ => "FileExistsError"
  | refused .notDirectory _ => "NotADirectoryError"
  | refused .isDirectory _ => "IsADirectoryError"
  | refused _ _ => "OSError"
  | misread _ => "JSONDecodeError"
  | undecodable => "UnicodeDecodeError"
  | unencodable => "UnicodeEncodeError"
  | notToml => "TOMLDecodeError"
  | missingField _ => "KeyError"
  | wrongKind => "TypeError"
  | badValue => "ValueError"
  | notRecord => "AttributeError"
  | undefinedName => "UndefinedError"
  | linkLoop => "RuntimeError"
  | deepNesting => "RecursionError"
  | exitStatus => "CalledProcessError"

/-- What stands in a message for a cause whose own wording is withheld. -/
def withheld : String := "<detail>"

/-- The wording of a fault inside the message of a problem. -/
def detail : Fault → String
  | refused reason path =>
    "[Errno " ++ toString reason.number ++ "] " ++ reason.wording ++ ": " ++ Text.quoted path
  | misread place => place.message
  | _ => withheld

/-- The fault as shown below a reported problem: the kinds that a user can act on show their
content, the others their label only. -/
def shown (f : Fault) : String :=
  match f with
  | refused .notFound _ =>
    f.label ++ "(2, " ++ Text.quoted Refused.notFound.wording ++ ")"
  | misread place => f.label ++ "(" ++ Text.quoted place.message ++ ")"
  | missingField name => f.label ++ "(" ++ Text.quoted name ++ ")"
  | _ => f.label

/-- Whether the file system refused an operation. -/
def isRefused : Fault → Bool
  | refused _ _ => true
  | _ => false

/-- The fault of a text that has no JSON value. -/
def ofRefusal : Json.Refusal → Fault
  | .misread place => .misread place
  | .longNumber => .badValue
  | .deepNesting => .deepNesting

end Fault

end NatSpec
