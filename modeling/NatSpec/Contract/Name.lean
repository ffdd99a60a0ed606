import NatSpec.Problem
import NatSpec.Text.Search

/-!
Qualified contract names: the path of a source file, a colon, and the name of a contract in it. The
first colon separates the two.
-/

namespace NatSpec

structure ContractName where
  source : String
  name : String
  deriving DecidableEq, Repr

namespace ContractName

def separator : String := ":"

def qualified (c : ContractName) : String :=
  c.source ++ separator ++ c.name

def parse (text : String) : Except Failure ContractName :=
  match Text.splitFirst? separator text with
  | some (source, name) => .ok ⟨source, name⟩
  | none => (Problem.notQualified text).fail

end ContractName

end NatSpec
