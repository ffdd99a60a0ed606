import NatSpec.FileTree.Access

/-!
Changing a file tree: writing files, making directories with those above them, and deleting
directories with all they hold. Links on the way to a file are followed; a directory is deleted only
under its own name.
-/

namespace NatSpec.FileTree

def makeDirectory (p : Path) : Filing Unit := do
  let t ← get
  if holdsNull p then throw .badValue
  match t.locate false p with
  | .ok (place, none) => set (t.put place .directory)
  | .ok (_, some _) => throw (.refused .alreadyExists p.toString)
  | .error reason => throw (.refused reason p.toString)

/-- Makes one directory unless there is one already, perhaps behind a link. -/
def ensureDirectory (p : Path) : Filing Unit := do
  try makeDirectory p
  catch fault =>
    match fault with
    | .refused .notFound _ => throw fault
    | .refused _ _ =>
      if ← (← get).isDirectory p then pure () else throw fault
    | _ => throw fault

/-- Makes the directories of a path whose last `count` components are given, outermost first. -/
def ensureDirectories (p : Path) : Nat → Filing Unit
  | 0 => ensureDirectory p
  | count + 1 => do
    try ensureDirectory p
    catch fault =>
      match fault with
      | .refused .notFound _ =>
        ensureDirectories p.parent count
        ensureDirectory p
      | _ => throw fault

/-- Makes a directory and those above it, as far as they are missing. -/
def makeDirectories (p : Path) : Filing Unit :=
  ensureDirectories p p.parts.length

/-- Writes a file, over the old one if there is one. -/
def writeBytes (p : Path) (content : ByteArray) : Filing Unit := do
  let t ← get
  if holdsNull p then throw .badValue
  match t.locate true p with
  | .ok (_, some .directory) => throw (.refused .isDirectory p.toString)
  | .ok (place, _) => set (t.put place (.file content))
  | .error reason => throw (.refused reason p.toString)

def writeText (p : Path) (text : String) : Filing Unit :=
  writeBytes p text.toUTF8

/-- Removes an emptied directory; a path that ends in dots does not name it. -/
def removeDirectory (p : Path) : Filing Unit := do
  let t ← get
  match t.locate false p, p.parts.getLast? with
  | .error reason, _ => throw (.refused reason p.toString)
  | .ok (place, _), some last =>
    if last = ".." then throw (.refused .alreadyExists p.toString) else set (t.remove place)
  | .ok _, none => throw (.refused .invalidArgument p.toString)

/-- Deletes a directory with all it holds. A link to a directory is refused, and so is a file. -/
def deleteTree (p : Path) : Filing Unit := do
  let t ← get
  match t.locate false p with
  | .error reason => throw (.refused reason p.toString)
  | .ok (_, none) => throw (.refused .notFound p.toString)
  | .ok (_, some (.link _)) => throw (.refused .invalidArgument p.toString)
  | .ok (_, some (.file _)) => throw (.refused .notDirectory p.toString)
  | .ok (place, some .directory) =>
    set (t.clearBelow place)
    removeDirectory p

end NatSpec.FileTree
