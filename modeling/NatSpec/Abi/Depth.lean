import NatSpec.Abi.Signature

/-!
How deep the types of an ABI are nested. A type whose components have components of their own is
expanded level by level, and an expansion goes no deeper than a fixed limit.
-/

namespace NatSpec.Abi

/-- The greatest depth to which types are expanded. -/
def maxDepth : Nat := 330

mutual

/-- The levels of components that the type of a parameter is expanded to. -/
def depthOf : Json → Nat
  | .obj fields =>
    match (Table.get? fields "type").map mentionsTuple with
    | some (.ok true) => componentDepth fields + 1
    | _ => 0
  | _ => 0

/-- The levels below the components among the fields of a parameter. -/
def componentDepth : List (Json.Key × Json) → Nat
  | [] => 0
  | (name, v) :: rest =>
    if name == .text "components" then
      match v with
      | .arr items => depthOfAll items
      | _ => 0
    else componentDepth rest

/-- The levels of the deepest of several parameters. -/
def depthOfAll : List Json → Nat
  | [] => 0
  | p :: rest => max (depthOf p) (depthOfAll rest)

end

/-- Fails if one of some parameters is nested beyond the limit. -/
def checkDepth (params : List Json) : Except Fault Unit :=
  if maxDepth < depthOfAll params then .error .deepNesting else .ok ()

def inputsOf (member : Json) : List Json :=
  match member with
  | .obj fields =>
    match Json.field fields "inputs" with
    | .arr items => items
    | _ => []
  | _ => []

/-- Fails if an input of an entry of an ABI is nested beyond the limit. -/
def checkEntries (abi : Json) : Except Fault Unit :=
  checkDepth (((abi.elements?).getD []).flatMap inputsOf)

end NatSpec.Abi
