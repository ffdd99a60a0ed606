import NatSpec.Store

/-!
Build-info documents: the compiler's output for many contracts. Under `output`, `contracts` maps
the names of sources to objects that map the names of contracts to their outputs. A store lists
qualified names and gives the output of each.
-/

namespace NatSpec

namespace BuildInfo

section

variable {τ : Type} [DecidableEq τ] [IsText τ]

def lookup (v : Json τ) (name : String) : Except Fault (Json τ) :=
  match v with
  | .obj fields =>
    match Table.get? fields name with
    | some found => .ok found
    | none => .error (.missingField name)
  | _ => .error .wrongKind

def atPath (v : Json τ) : List String → Except Fault (Json τ)
  | [] => .ok v
  | name :: rest => do
    let found ← lookup v name
    atPath found rest

def output (buildInfo : Json τ) (id : ContractName) : Except Failure (Json τ) :=
  match atPath buildInfo ["output", "contracts", id.source, id.name] with
  | .error fault => (Problem.noOutput id.source id.name fault).fail
  | .ok (.obj fields) => .ok (.obj fields)
  | .ok _ => (Problem.malformedOutput id.source id.name).fail

end

def contracts (buildInfo : Json) : Except Failure Fields :=
  match atPath buildInfo ["output", "contracts"] with
  | .ok (.obj table) => .ok table
  | _ => Problem.noContractsTable.fail

/-- The qualified names of the contracts of one source. -/
def sourceNames (source : String) (table : Json) : Except Fault (List String) :=
  match table.elements? with
  | some names => .ok (names.map fun name => source ++ ContractName.separator ++ name.display)
  | none => .error .wrongKind

/-- The qualified names in a table of contracts, in increasing order. -/
def names (table : Fields) : Except Fault (List String) := do
  let perSource ← table.mapM fun (source, contracts) => sourceNames source.display contracts
  .ok (perSource.flatten.mergeSort fun a b => a ≤ b)

/-- The store of a build-info document held in memory. -/
def store (buildInfo : Json) : Except Failure Store := do
  let table ← contracts buildInfo
  .ok {
    listing := do .ok ⟨← names table, []⟩
    output := fun name => do output buildInfo (← ContractName.parse name) }

end BuildInfo

end NatSpec
