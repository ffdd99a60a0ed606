import NatSpec.Shell.Effect

/-!
Programs that make, copy, move, delete and list files.
-/

namespace NatSpec.Shell

def refusal (program action name wording : String) : String :=
  program ++ ": " ++ action ++ " " ++ quotedName name ++ ": " ++ wording

/-- The first component of a path that is a file, written as the path writes it. -/
def blockingName (tree : FileTree) (name : String) : String :=
  let parts := (pathOf name).parts
  let starts := (List.range parts.length).map fun n => ⟨(pathOf name).start, parts.take (n + 1)⟩
  match starts.find? fun p => (tree.status p).toOption matches some (.file _) with
  | some p => narrow p.toString
  | none => name

def mkdir : Program :=
  withOptions "mkdir" "pv" "mZ" [("parents", 'p'), ("mode", 'm'), ("verbose", 'v')] 1
    fun call _ tree =>
      if call.operands.isEmpty then .ofMisuse tree 1 "mkdir" "missing operand"
      else
        Effect.inSequence tree <| call.operands.map fun name tree =>
          let p := pathOf name
          let complaint (name wording : String) : String :=
            "mkdir: cannot create directory " ++ curlyQuoted name ++ ": " ++ wording
          let made := if name = "" then
              .ofComplaint tree 1 (complaint name Refused.notFound.wording)
            else if call.has 'p' then
              change tree (FileTree.makeDirectories p) fun wording =>
                if wording = Refused.notDirectory.wording then
                  complaint (blockingName tree name) wording
                else complaint name wording
            else change tree (FileTree.makeDirectory p) (complaint name)
          if call.has 'v' && made.status = 0 then
            { made with written := [(1, "mkdir: created directory " ++ quotedName name ++ "\n")] }
          else made

def rmdir : Program :=
  withOptions "rmdir" "pv" "" [("parents", 'p'), ("verbose", 'v')] 1 fun call _ tree =>
    if call.operands.isEmpty then .ofMisuse tree 1 "rmdir" "missing operand"
    else
      Effect.inSequence tree <| call.operands.map fun name tree =>
        let complain (wording : String) : Effect :=
          .ofComplaint tree 1 (refusal "rmdir" "failed to remove" name wording)
        match placeOf tree false name with
        | .error reason => complain reason.wording
        | .ok (_, none) => complain Refused.notFound.wording
        | .ok (place, some .directory) =>
          if (tree.children place).isEmpty then .ofStatus (tree.remove place) 0
          else complain "Directory not empty"
        | .ok _ => complain Refused.notDirectory.wording

/-- Deletes a file or link, or a directory if `recursive` is set. -/
def removeOne (recursive force emptied : Bool) (name : String) (tree : FileTree) : Effect :=
  let complain (wording : String) : Effect :=
    .ofComplaint tree 1 (refusal "rm" "cannot remove" name wording)
  let last := (Text.splitOn '/' name.toList).getLast?
  if recursive && (last = some ['.'] || last = some ['.', '.']) then
    .ofComplaint tree 1
      ("rm: refusing to remove '.' or '..' directory: skipping " ++ quotedName name)
  else
    match placeOf tree false name with
    | .ok (_, none) | .error .notFound =>
      if force then .ofStatus tree 0 else complain Refused.notFound.wording
    | .error .notDirectory =>
      if force then .ofStatus tree 0 else complain Refused.notDirectory.wording
    | .error reason => complain reason.wording
    | .ok (place, some .directory) =>
      if recursive || (emptied && (tree.children place).isEmpty) then .ofStatus (tree.remove place) 0
      else complain (if emptied then "Directory not empty" else Refused.isDirectory.wording)
    | .ok (place, some _) => .ofStatus (tree.remove place) 0

def rm : Program :=
  withOptions "rm" "rRfidv" "" [("recursive", 'r'), ("force", 'f'), ("dir", 'd'), ("verbose", 'v')] 1
    fun call _ tree =>
      if call.operands.isEmpty && !call.has 'f' then .ofMisuse tree 1 "rm" "missing operand"
      else
        Effect.inSequence tree <| call.operands.map <|
          removeOne (call.has 'r' || call.has 'R') (call.has 'f') (call.has 'd')

def touch : Program :=
  withOptions "touch" "acmh" "dtr" [("no-create", 'c'), ("date", 'd'), ("reference", 'r')] 1
    fun call _ tree =>
      if call.operands.isEmpty then .ofMisuse tree 1 "touch" "missing file operand"
      else
        Effect.inSequence tree <| call.operands.map fun name tree =>
          let complain (wording : String) : Effect :=
            .ofComplaint tree 1 (refusal "touch" "cannot touch" name wording)
          match entryOf tree name with
          | .ok _ => .ofStatus tree 0
          | .error reason =>
            if call.has 'c' && reason = .notFound then .ofStatus tree 0
            else if name = "" then complain reason.wording
            else if endsInSlash name && reason = .notFound then
              .ofComplaint tree 1 (refusal "touch" "setting times of" name reason.wording)
            else if endsInSlash name then complain reason.wording
            else
              change tree (FileTree.writeText (pathOf name) "")
                fun wording => refusal "touch" "cannot touch" name wording

/-- The tree with a copy of what stands at and below one location at another one. -/
def transplanted (tree : FileTree) (source target : Location) : FileTree :=
  tree.entries.foldl (fun t (place, entry) =>
    if source.isPrefixOf place then t.put (target ++ place.drop source.length) entry else t) tree

/-- Copies a file or directory to a new place or into a directory; the source is deleted if `moving`
is set. -/
def copyOne (program : String) (recursive moving : Bool) (source target : String)
    (tree : FileTree) : Effect :=
  let complain (message : String) : Effect := .ofComplaint tree 1 (program ++ ": " ++ message)
  match placeOf tree (!(moving || recursive)) source, tree.locate true (pathOf target) with
  | .ok (_, none), _ =>
    complain ("cannot stat " ++ quotedName source ++ ": " ++ Refused.notFound.wording)
  | .error reason, _ => complain ("cannot stat " ++ quotedName source ++ ": " ++ reason.wording)
  | .ok (origin, some entry), found =>
    if entry = .directory && !recursive then
      complain ("-r not specified; omitting directory " ++ quotedName source)
    else
      let failed (reason : Refused) : Effect :=
        if moving then
          complain ("cannot move " ++ quotedName source ++ " to " ++ quotedName target ++ ": "
            ++ reason.wording)
        else if entry = .directory then
          complain ("cannot create directory " ++ quotedName target ++ ": " ++ reason.wording)
        else complain ("cannot create regular file " ++ quotedName target ++ ": " ++ reason.wording)
      match found with
      | .error .notDirectory =>
        if moving then failed .notDirectory
        else complain ("failed to access " ++ quotedName target ++ ": "
          ++ Refused.notDirectory.wording)
      | .error reason => failed reason
      | .ok (place, there) =>
        let last := narrow (origin.getLast?.getD "")
        let inside := there = some .directory
        let place := if inside then place ++ origin.getLast?.toList else place
        let shown := if inside then
            (if endsInSlash target then target else target ++ "/") ++ last
          else target
        let slashed := endsInSlash target
        match tree.at? place with
        | none =>
          if slashed && !inside && entry ≠ .directory then
            if moving then failed .notDirectory
            else complain ("cannot create regular file " ++ quotedName target ++ ": "
              ++ Refused.notDirectory.wording)
          else if origin.isPrefixOf place then
            if moving then
              complain ("cannot move " ++ quotedName source ++ " to a subdirectory of itself, "
                ++ quotedName shown)
            else
              { complain ("cannot copy a directory, " ++ quotedName source ++ ", into itself, "
                ++ quotedName shown) with tree := transplanted tree origin place }
          else
            let copied := transplanted tree origin place
            .ofStatus (if moving then copied.remove origin else copied) 0
        | some existing =>
          if place = origin then
            complain (quotedName source ++ " and " ++ quotedName shown ++ " are the same file")
          else
            match entry, existing with
            | .directory, .directory =>
              if moving && !(tree.children place).isEmpty then
                complain ("cannot move " ++ quotedName source ++ " to " ++ quotedName shown
                  ++ ": Directory not empty")
              else
                let copied := transplanted tree origin place
                .ofStatus (if moving then copied.remove origin else copied) 0
            | .directory, _ =>
              complain ("cannot overwrite non-directory " ++ quotedName shown ++ " with directory "
                ++ quotedName source)
            | _, .directory =>
              complain ("cannot overwrite directory " ++ quotedName shown ++ " with non-directory"
                ++ if moving then " " ++ quotedName source else "")
            | _, _ =>
              let copied := tree.put place entry
              .ofStatus (if moving then copied.remove origin else copied) 0

/-- Copies or moves all operands but the last one to the last one. -/
def copyAll (program : String) (moving : Bool) : Program :=
  withOptions program "rRafpvinuTdL" "t"
    [("recursive", 'r'), ("archive", 'a'), ("force", 'f'), ("no-clobber", 'n'), ("verbose", 'v')] 1
    fun call _ tree =>
      let recursive := moving || call.has 'r' || call.has 'R' || call.has 'a'
      match call.operands with
      | [] => .ofMisuse tree 1 program "missing file operand"
      | [only] =>
        .ofMisuse tree 1 program ("missing destination file operand after " ++ quotedName only)
      | operands =>
        let target := operands.getLast?.getD ""
        let sources := operands.dropLast
        let entry := (entryOf tree target).toOption
        if 1 < sources.length && !(entry = some .directory) then
          let wording := if entry.isSome then Refused.notDirectory.wording
            else Refused.notFound.wording
          .ofComplaint tree 1 (program ++ ": target " ++ quotedName target ++ ": " ++ wording)
        else
          Effect.inSequence tree <| sources.map fun source tree =>
            if call.has 'n' && leadsToFile tree target then .ofStatus tree 0
            else copyOne program recursive moving source target tree

/-- Makes one link; a link by name holds the name as it is given, another one is a copy. -/
def linkOne (symbolic force : Bool) (source shown : String) (tree : FileTree) : Effect :=
  let kind := if symbolic then "symbolic link" else "hard link"
  let failed (wording : String) : Effect :=
    .ofComplaint tree 1 ("ln: failed to create " ++ kind ++ " " ++ quotedName shown ++ wording)
  let entry : Except Refused (Option Entry) :=
    if symbolic then .ok (some (.link (widen source)))
    else (placeOf tree false source).map Prod.snd
  match entry, tree.locate false (pathOf shown) with
  | .error reason, _ =>
    .ofComplaint tree 1 (refusal "ln" "failed to access" source reason.wording)
  | .ok none, _ =>
    .ofComplaint tree 1 (refusal "ln" "failed to access" source Refused.notFound.wording)
  | .ok (some .directory), _ =>
    .ofComplaint tree 1 ("ln: " ++ shownName source ++ ": hard link not allowed for directory")
  | _, .error reason =>
    failed ((if symbolic then "" else " => " ++ quotedName source) ++ ": " ++ reason.wording)
  | .ok (some entry), .ok (place, none) => .ofStatus (tree.put place entry) 0
  | .ok (some entry), .ok (place, some old) =>
    if force && old ≠ .directory then .ofStatus (tree.put place entry) 0
    else failed (": " ++ Refused.alreadyExists.wording)

def ln : Program :=
  withOptions "ln" "sfnvTr" "" [("symbolic", 's'), ("force", 'f')] 1 fun call _ tree =>
    match call.operands with
    | [] => .ofMisuse tree 1 "ln" "missing file operand"
    | operands =>
      let target := if operands.length = 1 then "." else operands.getLast?.getD ""
      let sources := if operands.length = 1 then operands else operands.dropLast
      let inside := leadsToDirectory tree target && !call.has 'T' && !call.has 'n'
      if 1 < sources.length && !inside then
        let wording := if (entryOf tree target).toOption.isSome then Refused.notDirectory.wording
          else Refused.notFound.wording
        .ofComplaint tree 1 (refusal "ln" "target" target wording)
      else
        Effect.inSequence tree <| sources.map fun source tree =>
          let base := narrow (pathOf source).name
          let shown := if inside then
              (if endsInSlash target then target else target ++ "/") ++ base
            else target
          linkOne (call.has 's') (call.has 'f') source shown tree

/-- The names in a directory that are shown, in increasing order. -/
def shownNames (tree : FileTree) (place : Location) (hidden dots : Bool) : List String :=
  let names := (tree.children place).map fun child => narrow child.1
  let names := if hidden then names else names.filter fun n => n.toList.head? ≠ some '.'
  (names ++ if dots then [".", ".."] else []).mergeSort fun a b => a ≤ b

/-- Lists directories: names that do not start with a dot, in increasing order. Files come first;
each of several directories has its name above it. -/
def ls : Program :=
  withOptions "ls" "1aAdFhltrSRpC" "" [("all", 'a'), ("almost-all", 'A'), ("directory", 'd')] 2
    fun call _ tree =>
      let names := (if call.operands.isEmpty then ["."] else call.operands).mergeSort (· ≤ ·)
      let kind (name : String) : Except Refused Entry := do
        match ← placeOf tree true name with
        | (_, some entry) => return entry
        | (_, none) =>
          match placeOf tree false name with
          | .ok (_, some entry) => return entry
          | _ => throw .notFound
      let complaints := call.operands.filterMap fun name =>
        match kind name with
        | .ok _ => none
        | .error reason => some (2, refusal "ls" "cannot access" name reason.wording ++ "\n")
      let found := names.filter fun name => (kind name).toOption.isSome
      let isListed (name : String) : Bool :=
        !call.has 'd' && (kind name).toOption = some .directory
      let files := found.filter fun name => !isListed name
      let directories := found.filter isListed
      let listing (name : String) : String :=
        match tree.locate true (pathOf name) with
        | .ok (place, _) =>
          let shown := shownNames tree place (call.has 'a' || call.has 'A') (call.has 'a')
          String.join ((if call.has 'r' then shown.reverse else shown).map (· ++ "\n"))
        | .error _ => ""
      let headed := 1 < names.length
      let parts := (if files.isEmpty then [] else [String.join (files.map (· ++ "\n"))])
        ++ directories.map fun name => (if headed then name ++ ":\n" else "") ++ listing name
      ⟨complaints ++ [(1, "\n".intercalate parts)], if complaints.isEmpty then 0 else 2, tree, 0⟩

def readlink : Program :=
  withOptions "readlink" "fnemqsv" "" [("canonicalize", 'f'), ("no-newline", 'n')] 1
    fun call _ tree =>
      Effect.inSequence tree <| call.operands.map fun name tree =>
        let ending := if call.has 'n' then "" else "\n"
        if call.has 'f' || call.has 'e' || call.has 'm' then
          match tree.resolve (pathOf name) with
          | .ok place => .ofOutput tree (narrow (Path.ofTop place).toString ++ ending)
          | .error _ => .ofStatus tree 1
        else
          match placeOf tree false name with
          | .ok (_, some (.link target)) => .ofOutput tree (narrow target ++ ending)
          | _ => .ofStatus tree 1

def realpath : Program :=
  withOptions "realpath" "emsqz" "" [] 1 fun call _ tree =>
    Effect.inSequence tree <| call.operands.map fun name tree =>
      match placeOf tree true name, tree.resolve (pathOf name) with
      | .ok _, .ok place => .ofOutput tree (narrow (Path.ofTop place).toString ++ "\n")
      | .error reason, _ =>
        .ofComplaint tree 1 ("realpath: " ++ shownName name ++ ": " ++ reason.wording)
      | _, .error _ => .ofStatus tree 1

/-- Changes who may do what with a file, which the file tree does not record. -/
def chmod : Program := fun words _ tree =>
  match words.filter fun word => !Text.startsWith word "-R" with
  | [] | [_] => .ofMisuse tree 1 "chmod" "missing operand"
  | _ :: names =>
    Effect.inSequence tree <| names.map fun name tree =>
      match entryOf tree name with
      | .ok _ => .ofStatus tree 0
      | .error reason =>
        .ofComplaint tree 1 (refusal "chmod" "cannot access" name reason.wording)

end NatSpec.Shell
