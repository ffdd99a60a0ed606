import NatSpec.Contract.Resolve

/-!
Stores of compiled contracts. A store lists the qualified names of its contracts and gives the
compiler's output of each. Documentation covers all listed contracts: the first that fails ends the
run.
-/

namespace NatSpec

/-- The names that a store lists, and what it has to say about the listing. -/
structure Listing where
  names : List String
  warnings : List String
  deriving Repr, Inhabited

structure Store where
  listing : Except Failure Listing
  output : String → Except Failure Json

namespace Store

/-- The documentation of one more contract of a store. -/
def document (store : Store) (strict : Bool) (docs : Docs) (name : String) :
    Except Failure Docs := do
  let output ← store.output name
  .ok (Table.set docs name (← resolveContract name output strict))

/-- The documentation of the named contracts of a store, in order. -/
def resolve (store : Store) (strict : Bool) (names : List String) : Except Failure Docs :=
  names.foldlM (store.document strict) []

def resolveAll (store : Store) (strict : Bool) : Except Failure Docs := do
  store.resolve strict (← store.listing).names

end Store

end NatSpec
