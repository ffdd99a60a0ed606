import NatSpec.Artifacts
import NatSpec.Bundle.Render
import NatSpec.Options

/-!
A documentation run for one project. The output directory is checked before anything is read, and
the old bundle is cleared only when all contracts have been resolved.
-/

namespace NatSpec

/-- The directory into which a bundle is written: strictly inside the root. -/
def outputDirectory (t : FileTree) (root : Path) (path : Option String) :
    Except Failure Location := do
  let rootPlace ← t.resolve root
  let place ← t.resolve (Path.ofTop rootPlace / path.getD "./docgen")
  if !Bundle.isInside rootPlace place then Problem.outputOutsideRoot.fail
  else if place = rootPlace then Problem.outputIsRoot.fail
  else .ok place

/-- Deletes an output directory, if it is there. -/
def clearOutput (p : Path) : Run Unit := do
  if ← (← get).holds p then
    try (FileTree.deleteTree p : Run Unit)
    catch failure =>
      match failure with
      | .fault (.refused reason path) =>
        throw (.problem (.notCleared p.toString (.refused reason path)))
      | _ => throw failure

/-- What a documentation run has done. -/
structure Report where
  output : Path
  docs : Docs
  written : List Path
  warnings : List String
  deriving Repr, Inhabited

def pathText (v : Json) : Except Fault String :=
  match v with
  | .str s => .ok s
  | _ => .error .wrongKind

/-- The store of a run: the given one, or that of the artifact directory. -/
def openStore (t : FileTree) (root : Location) (options : Options) (store : Option Store) :
    Except Failure Store := do
  match store with
  | some store => .ok store
  | none =>
    let artifacts := Path.ofTop root / (← pathText options.artifacts)
    .ok (Artifacts.store t (← Artifacts.openDirectory t artifacts))

/-- What a run has to know before it writes: where to write, what, and the warnings. -/
structure Plan where
  output : Path
  docs : Docs
  warnings : List String
  deriving Repr, Inhabited

/-- The part of a run that only reads. -/
def plan (t : FileTree) (root : Path) (options : Options) (store : Option Store)
    (strict : Bool) : Except Failure Plan := do
  let rootPlace ← t.resolve root
  let path ← if options.path.isNull then pure none else do pure (some (← pathText options.path))
  let output ← outputDirectory t (.ofTop rootPlace) path
  let store ← openStore t rootPlace options store
  let listing ← store.listing
  let docs ← store.resolve strict listing.names
  .ok ⟨.ofTop output, docs, listing.warnings ++ docs.warnings⟩

/-- Generates the documentation of the project at a root. -/
def runDocgen (root : Path) (options : Options) (store : Option Store)
    (render : RenderOptions) (strict : Bool) : Run Report := do
  let plan ← plan (← get) root options store strict
  if options.clear.truthy then clearOutput plan.output
  let written ← Bundle.render plan.docs plan.output render
  return ⟨plan.output, plan.docs, written, plan.warnings⟩

end NatSpec
