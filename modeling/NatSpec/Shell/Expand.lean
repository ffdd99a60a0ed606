import NatSpec.Shell.Pattern
import NatSpec.Shell.Session

/-!
Expansion. The parts of a word are replaced by what they stand for; outside quotes, what has been
put in is split into fields, and fields that are patterns are replaced by the names that match.
-/

namespace NatSpec.Shell

/-- An element of an expanded word: a glyph, a place where a field starts even if it stays empty, or
the boundary between two arguments. -/
inductive Item
  | glyph (g : Glyph)
  | start
  | boundary
  deriving DecidableEq, Repr

def itemsOf (quoted : Bool) (s : String) : List Item :=
  if quoted then .start :: s.toList.map fun c => .glyph ⟨c, true, false⟩
  else s.toList.map fun c => .glyph ⟨c, false, true⟩

/-- The glyphs of items in one field; arguments stand with spaces between them. -/
def glyphsOf (items : List Item) : List Glyph :=
  items.filterMap fun item =>
    match item with
    | .glyph g => some g
    | .start => none
    | .boundary => some ⟨' ', true, false⟩

def textOf (items : List Item) : String :=
  Glyph.textOf (glyphsOf items)

def separators (s : Session) : List Char :=
  match s.vars.get? "IFS" with
  | some v => (v.value.getD "").toList
  | none => [' ', '\t', '\n']

/-- The fields of a word as far as it has been split, last first; in the field being put together
the last glyph stands first. -/
structure Splitting where
  ended : List (List Glyph)
  current : Option (List Glyph)
  afterBlank : Bool

namespace Splitting

/-- Ends the field being put together, if there is one. -/
def finish (p : Splitting) : Splitting :=
  match p.current with
  | some glyphs => ⟨glyphs.reverse :: p.ended, none, true⟩
  | none => p

/-- Takes in an item. Blanks around a separator belong to it, and other separators end a field even
if it is empty. -/
def add (separators : List Char) (p : Splitting) : Item → Splitting
  | .start => { p with current := some (p.current.getD []), afterBlank := false }
  | .boundary => { p.finish with afterBlank := false }
  | .glyph g =>
    if g.divisible && separators.contains g.char then
      if g.char = ' ' || g.char = '\t' || g.char = '\n' then p.finish
      else
        match p.current, p.afterBlank with
        | none, true => { p with afterBlank := false }
        | none, false => { p with ended := [] :: p.ended }
        | some glyphs, _ => ⟨glyphs.reverse :: p.ended, none, false⟩
    else { p with current := some (g :: p.current.getD []), afterBlank := false }

end Splitting

def fieldsOf (separators : List Char) (items : List Item) : List (List Glyph) :=
  (items.foldl (Splitting.add separators) ⟨[], none, false⟩).finish.ended.reverse

def componentsOf : List Glyph → List (List Glyph)
  | [] => [[]]
  | g :: rest =>
    if g.char = '/' then [] :: componentsOf rest
    else
      match componentsOf rest with
      | [] => [[g]]
      | part :: parts => (g :: part) :: parts

/-- The names in a directory that a pattern matches. A name that starts with a dot is matched only by
a pattern that does. -/
def matchingNames (tree : FileTree) (directory : String) (pattern : List Glyph) : List String :=
  match placeOf tree true (if directory = "" then "." else directory) with
  | .ok (place, some .directory) =>
    let dotted := pattern.head?.any fun g => g.char = '.'
    ([".", ".."] ++ (tree.children place).map fun child => narrow child.1).filter fun name =>
      (dotted || name.toList.head? ≠ some '.') && matchesText pattern name
  | _ => []

/-- The paths that a pattern matches, given what stands before its components. -/
def matchingPaths (tree : FileTree) (before : String) : List (List Glyph) → List String
  | [] => []
  | [last] =>
    if isPattern last then (matchingNames tree before last).map (before ++ ·)
    else
      let path := before ++ Glyph.textOf last
      match placeOf tree false path with
      | .ok (_, some _) => [path]
      | _ => []
  | component :: rest =>
    if isPattern component then
      (matchingNames tree before component).flatMap fun name =>
        if leadsToDirectory tree (before ++ name) then
          matchingPaths tree (before ++ name ++ "/") rest
        else []
    else matchingPaths tree (before ++ Glyph.textOf component ++ "/") rest

/-- The texts of a field: the paths that it matches in increasing order, or itself. -/
def Session.named (s : Session) (field : List Glyph) : List String :=
  if isPattern field && !s.options.contains 'f' then
    let found := matchingPaths s.tree "" (componentsOf field)
    if found.isEmpty then [Glyph.textOf field] else found.mergeSort fun a b => a ≤ b
  else [Glyph.textOf field]

def Session.parameter? (s : Session) (name : String) : Option String :=
  match name with
  | "#" => some (toString s.arguments.length)
  | "?" => some (toString s.status)
  | "$" => some (toString s.process)
  | "!" => s.background.map toString
  | "-" => some (String.ofList s.options)
  | "0" => some s.name
  | "LINENO" => some (toString s.line)
  | name =>
    match name.toNat? with
    | some n => s.arguments[n - 1]?
    | none => s.valueOf? name

/-- The items of a parameter, if it has a value. -/
def Session.parameterItems? (s : Session) (name : String) (quoted : Bool) : Option (List Item) :=
  if name = "@" || (name = "*" && !quoted) then
    if s.arguments.isEmpty then none
    else some (((s.arguments.map (itemsOf quoted)).intersperse [.boundary]).flatten)
  else if name = "*" then
    if s.arguments.isEmpty then none
    else
      let between := match s.vars.get? "IFS" with
        | some v => String.ofList ((v.value.getD "").toList.take 1)
        | none => " "
      some (itemsOf true (between.intercalate s.arguments))
  else (s.parameter? name).map (itemsOf quoted)

/-- Replaces a tilde in front of a word by the home directory. -/
def Session.withHome (s : Session) : Word → Word
  | .text text false :: rest =>
    match text.toList, s.valueOf? "HOME" with
    | '~' :: more, some home =>
      if more.isEmpty && !rest.isEmpty then .text text false :: rest
      else if more.isEmpty || more.head? = some '/' then
        .text home true :: .text (String.ofList more) false :: rest
      else .text text false :: rest
    | _, _ => .text text false :: rest
  | word => word

/-- A text without the line ends at its end and without null characters. -/
def withoutEnding (s : String) : String :=
  String.ofList ((s.toList.filter (· ≠ '\x00')).reverse.dropWhile (· = '\n')).reverse

mutual

/-- The items of a word, given how the output of commands is found. Text that stands in for a value
is split if `divisible` is set. -/
def wordItems (run : Command → Act String) : Nat → Bool → Word → Act (List Item)
  | 0, _, _ => mistake "Nested too deeply"
  | fuel + 1, divisible, word => do
    let mut items : List (List Item) := []
    for part in word do
      items := (← partItems run fuel divisible part) :: items
    return items.reverse.flatten

def partItems (run : Command → Act String) : Nat → Bool → Part → Act (List Item)
  | 0, _, _ => mistake "Nested too deeply"
  | fuel + 1, divisible, part => do
    match part with
    | .text s quoted =>
      if quoted then return itemsOf true s
      else return s.toList.map fun c => .glyph ⟨c, false, divisible⟩
    | .output script quoted => return itemsOf quoted (withoutEnding (← run script))
    | .arithmetic expression quoted =>
      let text := textOf (← wordItems run fuel false expression)
      let s ← get
      match Expression.read text >>= (·.value s.valueOf? []) with
      | .ok (n, written) =>
        for (name, value) in written do
          assign name (Text.signedDecimal value)
        return itemsOf quoted (Text.signedDecimal n)
      | .error fault => mistake (fault.message text)
    | .parameter name form quoted =>
      let s ← get
      let found := s.parameterItems? name quoted
      let absent : Act (List Item) := do
        if s.options.contains 'u' && !(name = "@" || name = "*") then
          mistake (name ++ ": parameter not set")
        return if quoted && name ≠ "@" then [.start] else []
      match form with
      | .unknown => mistake "Bad substitution"
      | .value =>
        match found with
        | some items => return items
        | none => absent
      | .size =>
        match found with
        | some items => return itemsOf quoted (toString (textOf items).length)
        | none =>
          let _ ← absent
          return itemsOf quoted "0"
      | .trimmed side most pattern =>
        match found with
        | some items =>
          let pattern := matchers (glyphsOf (← wordItems run fuel false pattern))
          return itemsOf quoted (trimmed side most pattern (textOf items))
        | none => absent
      | .remedied remedy ifEmpty word =>
        let present := match found with
          | some items => !(ifEmpty && (textOf items).isEmpty)
          | none => false
        let instead : Act (List Item) := do
          let items ← wordItems run fuel (!quoted) word
          return if quoted then .start :: items else items
        match remedy, present with
        | .useWordIfSet, true => instead
        | .useWordIfSet, false => return if quoted then [.start] else []
        | _, true => return found.getD []
        | .useWord, false => instead
        | .assignWord, false =>
          let value := textOf (← wordItems run fuel false word)
          if !isName name then mistake (name ++ ": bad variable name")
          assign name value
          return itemsOf quoted value
        | .complain, false =>
          if word.isEmpty then
            mistake (name ++ ": parameter not set" ++ if ifEmpty then " or null" else "")
          else mistake (name ++ ": " ++ textOf (← wordItems run fuel false word))

end

def expansionDepth : Nat := 200

def expandWord (run : Command → Act String) (word : Word) : Act (List String) := do
  let items ← wordItems run expansionDepth false ((← get).withHome word)
  let s ← get
  return (fieldsOf (separators s) items).flatMap s.named

/-- The glyphs of a word that is not split. -/
def expandGlyphs (run : Command → Act String) (word : Word) : Act (List Glyph) := do
  return glyphsOf (← wordItems run expansionDepth false ((← get).withHome word))

/-- The text of a word that is not split. -/
def expandText (run : Command → Act String) (word : Word) : Act String := do
  return Glyph.textOf (← expandGlyphs run word)

/-- The fields of words. Words that assign stay whole behind a command that takes assignments. -/
def expandWords (run : Command → Act String) (words : List Word) : Act (List String) := do
  let mut fields : List String := []
  for word in words do
    let assigning := (fields.head?.map assigningNames.contains).getD false
    if assigning && (assignment? word).isSome then fields := fields ++ [← expandText run word]
    else fields := fields ++ (← expandWord run word)
  return fields

end NatSpec.Shell
