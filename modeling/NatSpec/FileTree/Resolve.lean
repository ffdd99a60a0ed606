import NatSpec.FileTree.Basic

/-!
Following links. `walk` is the file system's own way along a path, which fails at what is missing
or no directory. `resolve` gives the location of a path whether or not it exists: components that
are not there are kept, and double dots cancel the component before them. A path that leads back
into a link being followed has no location.
-/

namespace NatSpec.FileTree

def maxLinks : Nat := 40

/-- The greatest size of a component, in bytes. -/
def maxName : Nat := 255

/-- The greatest size of a path, in bytes. -/
def maxPath : Nat := 4095

/-- The components of a link's target. A slash at the end asks for a directory. -/
def targetParts (target : String) : List String :=
  Path.components target.toList ++ if target.toList.getLast? = some '/' then ["."] else []

def targetStart (directory : Location) (target : String) : Location :=
  if (Path.ofString target).start = .here then directory else []

/-- The place that components lead to from a directory, and what stands there; only the last
component may be missing. The last component is followed if it is a link and `follow` is set. -/
def walk (t : FileTree) (follow : Bool) (links : Nat) (directory : Location) :
    List String → Except Refused (Location × Option Entry)
  | [] => .ok (directory, some .directory)
  | name :: rest =>
    if name = "." then walk t follow links directory rest
    else if name = ".." then walk t follow links directory.dropLast rest
    else if maxName < name.utf8ByteSize then .error .nameTooLong
    else
      let place := directory ++ [name]
      match t.at? place with
      | none => if rest.isEmpty then .ok (place, none) else .error .notFound
      | some .directory => walk t follow links place rest
      | some (.file content) =>
        if rest.isEmpty then .ok (place, some (.file content)) else .error .notDirectory
      | some (.link target) =>
        if rest.isEmpty && !follow then .ok (place, some (.link target))
        else
          match links with
          | 0 => .error .tooManyLinks
          | links + 1 =>
            walk t follow links (targetStart directory target) (targetParts target ++ rest)
termination_by parts => (links, parts.length)

/-- Whether a component holds a null character. -/
def holdsNull (p : Path) : Bool :=
  p.parts.any fun part => part.toList.contains '\x00'

def locate (t : FileTree) (follow : Bool) (p : Path) :
    Except Refused (Location × Option Entry) :=
  if maxPath < p.toString.utf8ByteSize then .error .nameTooLong
  else t.walk follow maxLinks (t.startOf p) p.parts

/-- What stands at the end of a path, links followed. -/
def status (t : FileTree) (p : Path) : Except Refused Entry :=
  match t.locate true p with
  | .ok (_, some entry) => .ok entry
  | .ok (_, none) => .error .notFound
  | .error reason => .error reason

def linkCount (t : FileTree) : Nat :=
  t.entries.countP fun (_, entry) => entry matches .link _

/-- Where components lead: whether to their end, the place that is reached, and the links that have
been met, each with the place to which it leads unless it is still being followed. -/
structure Followed where
  complete : Bool
  place : Location
  met : Table Location (Option Location)
  deriving Inhabited

/-- Where components lead from a location, given the links that have been met. A link that is met
while it is being followed leads nowhere: the place of that link and what was left is kept. At most
`depth` links are followed inside one another. -/
def follow (t : FileTree) (depth : Nat) (met : Table Location (Option Location))
    (place : Location) : List String → Followed
  | [] => ⟨true, place, met⟩
  | name :: rest =>
    if name = ".." then follow t depth met place.dropLast rest
    else
      let next := place ++ [name]
      match t.at? next with
      | some (.link target) =>
        match met.get? next, depth with
        | some (some found), depth => follow t depth met found rest
        | none, inside + 1 =>
          let inner := follow t inside (met.set next none) (targetStart place target)
            (Path.components target.toList)
          if inner.complete then
            follow t (inside + 1) (inner.met.set next (some inner.place)) inner.place rest
          else ⟨false, inner.place ++ rest, inner.met⟩
        | _, _ => ⟨false, next ++ rest, met⟩
      | _ => follow t depth met next rest
termination_by parts => (depth, parts.length)

/-- The location of a path, links followed and dots resolved. -/
def resolve (t : FileTree) (p : Path) : Except Fault Location :=
  if holdsNull p then .error .badValue
  else
    let reached := t.follow t.linkCount [] (t.startOf p) p.parts
    let place := Path.normalize [] reached.place
    match t.locate true (.ofTop place) with
    | .error .tooManyLinks => .error .linkLoop
    | _ => .ok place

end NatSpec.FileTree
