import NatSpec.Shell.Arithmetic
import NatSpec.Shell.Effect
import NatSpec.Shell.Escape
import NatSpec.Shell.Regular

/-!
Programs that read text and write text: their input is that of the files named, or their own.
-/

namespace NatSpec.Shell

/-- Reads files one after another and writes what is made of each. A file that cannot be read is
complained about. -/
def overFiles (program : String) (call : Call) (input : ByteArray) (tree : FileTree)
    (complaint : String → String → String) (made : String → String → String) : Effect :=
  let names := if call.operands.isEmpty then ["-"] else call.operands
  let effect := Effect.inSequence tree <| names.map fun name tree =>
    match contentOf tree input name with
    | .ok text => Effect.ofOutput tree (made name text)
    | .error wording => .ofComplaint tree 1 (program ++ ": " ++ complaint name wording)
  { effect with taken := if names.contains "-" then input.size else 0 }

def plainComplaint (name wording : String) : String :=
  shownName name ++ ": " ++ wording

/-- The text of the files named, or of the input, and the complaints about those that cannot be
read. -/
def gathered (program : String) (names : List String) (input : ByteArray) (tree : FileTree) :
    String × Effect :=
  let names := if names.isEmpty then ["-"] else names
  let found := names.map fun name => (name, contentOf tree input name)
  let complaints := found.filterMap fun (name, content) =>
    match content with
    | .ok _ => none
    | .error wording => some (2, program ++ ": " ++ plainComplaint name wording ++ "\n")
  let text := String.join (found.filterMap fun (_, content) => content.toOption)
  (text, ⟨complaints, if complaints.isEmpty then 0 else 1, tree,
    if names.contains "-" then input.size else 0⟩)

def ofLines (lines : List String) : String :=
  String.join (lines.map (· ++ "\n"))

def cat : Program :=
  withOptions "cat" "AbeEnstTuv" "" [("number", 'n')] 1 fun call input tree =>
    overFiles "cat" call input tree plainComplaint fun _ text =>
      if call.has 'n' then
        String.join ((linesOf text).zipIdx.map fun (line, n) =>
          let number := toString (n + 1)
          String.ofList (List.replicate (6 - number.length) ' ') ++ number ++ "\t" ++ line ++ "\n")
      else text

/-- A number of lines or bytes with a sign in front. -/
def signedCount (s : String) : Option Char × Nat :=
  match s.toList with
  | '-' :: digits => (some '-', Text.decimalNumber digits)
  | '+' :: digits => (some '+', Text.decimalNumber digits)
  | digits => (none, Text.decimalNumber digits)

/-- The words of a call in which a number behind a dash counts lines. -/
def withLineCount (words : List String) : List String :=
  words.map fun word =>
    match word.toList with
    | '-' :: c :: rest => if (c :: rest).all Char.isDigit then "-n" ++ String.ofList (c :: rest) else word
    | _ => word

/-- Texts of files with a heading above each if there are several. -/
def headed (call : Call) (name text : String) : String :=
  if 1 < call.operands.length && !call.has 'q' then
    (if call.operands.head? = some name then "" else "\n") ++ "==> " ++ name ++ " <==\n" ++ text
  else text

/-- The pieces that a text is counted in: bytes, or lines with their ends. -/
def piecesOf (byBytes : Bool) (s : String) : List String :=
  if byBytes then s.toList.map String.singleton
  else
    let parts := (Text.splitOn '\n' s.toList).map String.ofList
    (parts.dropLast.map (· ++ "\n")) ++ (parts.getLast?.toList.filter (· ≠ ""))

def countingComplaint (name wording : String) : String :=
  if wording = Refused.isDirectory.wording then
    "error reading " ++ quotedName name ++ ": " ++ wording
  else "cannot open " ++ quotedName name ++ " for reading: " ++ wording

def head : Program := fun words =>
  withOptions "head" "qvz" "nc" [("lines", 'n'), ("bytes", 'c')] 1 (fun call input tree =>
    overFiles "head" call input tree countingComplaint fun name text =>
      let byBytes := (call.value? 'c').isSome
      let (sign, count) := signedCount ((call.value? (if byBytes then 'c' else 'n')).getD "10")
      let pieces := piecesOf byBytes text
      headed call name (String.join
        (pieces.take (if sign = some '-' then pieces.length - count else count))))
    (withLineCount words)

def tail : Program := fun words =>
  withOptions "tail" "qvzfF" "nc" [("lines", 'n'), ("bytes", 'c')] 1 (fun call input tree =>
    overFiles "tail" call input tree countingComplaint fun name text =>
      let byBytes := (call.value? 'c').isSome
      let (sign, count) := signedCount ((call.value? (if byBytes then 'c' else 'n')).getD "10")
      let pieces := piecesOf byBytes text
      headed call name (String.join
        (pieces.drop (if sign = some '+' then count - 1 else pieces.length - count))))
    (withLineCount words)

def wordCount (s : String) : Nat :=
  ((s.splitToList fun c => c = ' ' || ('\t' ≤ c && c ≤ '\r')).filter (· ≠ "")).length

def wc : Program :=
  withOptions "wc" "lwcmL" "" [("lines", 'l'), ("words", 'w'), ("bytes", 'c'), ("chars", 'm')] 1
    fun call input tree =>
      let asked (c : Char) : Bool :=
        call.has c || (c ≠ 'm' && !"lwcm".toList.any call.has)
      let counts (text : String) : List Nat :=
        (if asked 'l' then [text.toList.count '\n'] else [])
          ++ (if asked 'w' then [wordCount text] else [])
          ++ (if asked 'm' then [(widen text).length] else [])
          ++ (if asked 'c' then [text.length] else [])
      let names := if call.operands.isEmpty then ["-"] else call.operands
      let found := names.map fun name => (name, contentOf tree input name)
      let rows := found.filterMap fun (name, content) =>
        content.toOption.map fun text => (name, counts text)
      let totals := rows.foldl (fun sums row => List.zipWith (· + ·) sums row.2) (counts "")
      let rows := if 1 < names.length then rows ++ [("total", totals)] else rows
      let size := found.foldl (fun n entry => n + ((entry.2.toOption.map String.length).getD 0)) 0
      let single := (rows.head?.map (·.2.length)) = some 1 && names.length = 1
      let width := if single then 1
        else if call.operands.isEmpty then 7 else (toString size).length
      let shown := rows.map fun (name, numbers) =>
        let columns := numbers.map fun n =>
          String.ofList (List.replicate (width - (toString n).length) ' ') ++ toString n
        " ".intercalate columns ++ (if call.operands.isEmpty then "" else " " ++ name) ++ "\n"
      let (_, effect) := gathered "wc" call.operands input tree
      { effect with written := effect.written ++ [(1, String.join shown)] }

/-- The number in front of a line: a whole number and the count of its digits behind the point. -/
def leadingNumber (s : String) : Int × Nat :=
  let cs := s.toList.dropWhile fun c => c = ' ' || c = '\t'
  let (negative, cs) := match cs with
    | '-' :: cs => (true, cs)
    | cs => (false, cs)
  let whole := cs.takeWhile Char.isDigit
  let part := match cs.drop whole.length with
    | '.' :: more => more.takeWhile Char.isDigit
    | _ => []
  let n : Int := Text.decimalNumber (whole ++ part)
  (if negative then -n else n, part.length)

/-- What a line is ordered by: its number, if numbers are compared, or its text. -/
structure SortKey where
  number : Int × Nat
  text : String

/-- The order of keys; lines with equal keys are equal for a sort that keeps one of each. -/
def SortKey.compare (a b : SortKey) : Ordering :=
  let m := a.number.1 * Binary64.tenTo b.number.2
  let n := b.number.1 * Binary64.tenTo a.number.2
  if m < n then .lt
  else if n < m then .gt
  else if a.text < b.text then .lt
  else if b.text < a.text then .gt
  else .eq

def sort : Program :=
  withOptions "sort" "bdfhinrsuzcC" "kto" [("reverse", 'r'), ("numeric-sort", 'n'), ("unique", 'u')] 2
    fun call input tree =>
      let (text, effect) := gathered "sort" call.operands input tree
      match call.operands.find? fun name => (contentOf tree input name).toOption.isNone with
      | some name =>
        .ofComplaint tree 2
          ("sort: cannot read: " ++ shownName name ++ ": " ++ Refused.notFound.wording)
      | none =>
        let key (line : String) : SortKey :=
          if call.has 'n' then ⟨leadingNumber line, ""⟩
          else
            ⟨(0, 0), if call.has 'f' then String.ofList (line.toList.map Char.toUpper) else line⟩
        let precedes (a b : String) : Bool :=
          match (key a).compare (key b) with
          | .lt => !call.has 'r'
          | .gt => call.has 'r'
          | .eq => call.has 'u' || call.has 's' || (if call.has 'r' then b ≤ a else a ≤ b)
        let sorted := (linesOf text).mergeSort precedes
        let unique := if call.has 'u' then
            (sorted.foldl (fun kept line =>
              match kept with
              | last :: _ => if (key last).compare (key line) = .eq then kept else line :: kept
              | [] => [line]) []).reverse
          else sorted
        match call.value? 'o' with
        | some name =>
          { change tree (FileTree.writeBytes (pathOf name) (octets (ofLines unique)))
            (fun wording => "sort: open failed: " ++ name ++ ": " ++ wording) with
            taken := effect.taken }
        | none => { effect with written := effect.written ++ [(1, ofLines unique)] }

/-- Lines that stand next to each other and are equal, with their number. -/
def runsOf (lines : List String) : List (String × Nat) :=
  (lines.foldl (fun runs line =>
    match runs with
    | (last, n) :: rest => if last = line then (last, n + 1) :: rest else (line, 1) :: runs
    | [] => [(line, 1)]) ([] : List (String × Nat))).reverse

def uniq : Program :=
  withOptions "uniq" "cdiu" "fsw" [("count", 'c'), ("repeated", 'd'), ("unique", 'u')] 1
    fun call input tree =>
      let (text, effect) := gathered "uniq" (call.operands.take 1) input tree
      let runs := (runsOf (linesOf text)).filter fun run =>
        (!call.has 'd' || 1 < run.2) && (!call.has 'u' || run.2 = 1)
      let shown := runs.map fun (line, n) =>
        if call.has 'c' then
          String.ofList (List.replicate (7 - (toString n).length) ' ') ++ toString n ++ " " ++ line
        else line
      { effect with written := effect.written ++ [(1, ofLines shown)] }

/-- The characters that a list of characters and ranges holds, in order. -/
def characterList (fuel : Nat) (cs : List Char) : List Char :=
  match fuel, cs with
  | 0, _ | _, [] => []
  | fuel + 1, '[' :: ':' :: rest =>
    let name := rest.takeWhile Char.isAlpha
    match rest.drop name.length with
    | ':' :: ']' :: after =>
      ((List.range 256).map Char.ofNat).filter (isOfKind (String.ofList name))
        ++ characterList fuel after
    | _ => '[' :: characterList fuel (':' :: rest)
  | fuel + 1, '\\' :: rest =>
    let (c, count) := escaped rest
    if count = 0 then rest.take 1 ++ characterList fuel (rest.drop 1)
    else c :: characterList fuel (rest.drop count)
  | fuel + 1, a :: '-' :: b :: rest =>
    if a ≤ b then
      (List.range (b.toNat - a.toNat + 1)).map (fun n => Char.ofNat (a.toNat + n))
        ++ characterList fuel rest
    else a :: characterList fuel ('-' :: b :: rest)
  | fuel + 1, c :: rest => c :: characterList fuel rest

def tr : Program :=
  withOptionsFirst "tr" "cCdst" "" [("delete", 'd'), ("complement", 'c'), ("squeeze-repeats", 's')] 1
    fun call input tree =>
      let lists := call.operands.map fun s => characterList (s.length + 1) s.toList
      let expected := if call.has 'd' != call.has 's' then 1 else 2
      match lists, call.operands[expected]? with
      | [], _ => .ofMisuse tree 1 "tr" "missing operand"
      | _, some extra =>
        if call.has 'd' && expected = 1 then
          .ofMisuse tree 1 "tr" ("extra operand " ++ curlyQuoted extra
            ++ "\nOnly one string may be given when deleting without squeezing repeats.")
        else if call.has 's' && call.operands.length = 2 then
          squeezeAndReplace call lists input tree
        else .ofMisuse tree 1 "tr" ("extra operand " ++ curlyQuoted extra)
      | _ :: others, none =>
        if others.isEmpty && expected = 2 then
          .ofMisuse tree 1 "tr" ("missing operand after " ++ curlyQuoted (call.operands.head?.getD "")
            ++ "\nTwo strings must be given when "
            ++ (if call.has 'd' then "both deleting and squeezing repeats." else "translating."))
        else squeezeAndReplace call lists input tree
where
  /-- Replaces, deletes and squeezes the characters of the lists. -/
  squeezeAndReplace (call : Call) (lists : List (List Char)) (input : ByteArray)
      (tree : FileTree) : Effect :=
      match lists with
      | [] => .ofStatus tree 1
      | first :: others =>
        let second := others.head?.getD []
        let listed (c : Char) : Bool := first.contains c != (call.has 'c' || call.has 'C')
        let image (c : Char) : Char :=
          if call.has 'd' || second.isEmpty || !listed c then c
          else if call.has 'c' || call.has 'C' then second.getLast?.getD c
          else
            let place := first.length - 1 - (first.reverse.idxOf c)
            (second[place]?.orElse fun _ => second.getLast?).getD c
        let kept := (ofBytes input).toList.filter fun c => !(call.has 'd' && listed c)
        let squeezed (c : Char) : Bool :=
          call.has 's' && if others.isEmpty then listed c else second.contains c
        let result := kept.foldl (fun out c =>
          let c := image c
          if squeezed c && out.head? = some c then out else c :: out) []
        ⟨[(1, String.ofList result.reverse)], 0, tree, input.size⟩

def inRanges (ranges : String) (n : Nat) : Bool :=
  ((Text.splitOn ',' ranges.toList)).any fun range =>
    match Text.splitOn '-' range with
    | [only] => Text.decimalNumber only = n
    | first :: last :: _ =>
      (first.isEmpty || Text.decimalNumber first ≤ n) && (last.isEmpty || n ≤ Text.decimalNumber last)
    | [] => false

def cut : Program :=
  withOptions "cut" "sn" "bcdf" [("delimiter", 'd'), ("fields", 'f'), ("characters", 'c')] 1
    fun call input tree =>
      let (text, effect) := gathered "cut" call.operands input tree
      let byFields := call.value? 'f'
      match byFields.orElse fun _ => (call.value? 'c').orElse fun _ => call.value? 'b' with
      | none => .ofMisuse tree 1 "cut" "you must specify a list of bytes, characters, or fields"
      | some ranges =>
        let shown := (linesOf text).filterMap fun line =>
          if byFields.isSome then
            let mark := ((call.value? 'd').getD "\t").toList.head?.getD '\t'
            let parts := Text.splitOn mark line.toList
            if parts.length = 1 then if call.has 's' then none else some line
            else
              let kept := parts.zipIdx.filter fun (_, n) => inRanges ranges (n + 1)
              some ((String.singleton mark).intercalate (kept.map fun p => String.ofList p.1))
          else
            let kept := line.toList.zipIdx.filter fun (_, n) => inRanges ranges (n + 1)
            some (String.ofList (kept.map Prod.fst))
        { effect with written := effect.written ++ [(1, ofLines shown)] }

def seq : Program := fun words _ tree =>
  let valued := words.takeWhile fun word =>
    Text.startsWith word "-s" || word = "-w" || (words.head? = some "-s" && words[1]? = some word)
  let separator := match valued with
    | "-s" :: s :: _ => s
    | word :: _ => if Text.startsWith word "-s" then String.ofList (word.toList.drop 2) else "\n"
    | [] => "\n"
  let words := words.drop valued.length
  let numbers := words.map (integer? true)
  let range (first step last : Int) : Effect :=
    let count := if step = 0 then 0 else (Int.fdiv (last - first) step + 1).toNat
    let shown := (List.range count).map fun (n : Nat) => Text.signedDecimal (first + step * (n : Int))
    .ofOutput tree (if shown.isEmpty then "" else separator.intercalate shown ++ "\n")
  match numbers with
  | [] => .ofMisuse tree 1 "seq" "missing operand"
  | [some last] => range 1 1 last
  | [some first, some last] => range first 1 last
  | [some first, some step, some last] => range first step last
  | numbers =>
    match (words.zip numbers).find? fun entry => entry.2.isNone with
    | some (word, _) =>
      .ofMisuse tree 1 "seq" ("invalid floating point argument: " ++ curlyQuoted word)
    | none =>
      .ofMisuse tree 1 "seq" ("extra operand " ++ curlyQuoted ((words.drop 3).head?.getD ""))

def grep : Program :=
  withOptions "grep" "EFGHPabchiIlLnoqrRsTuUvVwxyZz" "efmABCD"
    [("quiet", 'q'), ("ignore-case", 'i'), ("count", 'c')] 2 fun call input tree =>
      let (patterns, names) := match call.value? 'e', call.operands with
        | some pattern, names => ([pattern], names)
        | none, pattern :: names => ([pattern], names)
        | none, [] => ([], [])
      match patterns with
      | [] =>
        .ofComplaint tree 2
          ("Usage: grep [OPTION]... PATTERNS [FILE]...\nTry 'grep --help' for more information.")
      | pattern :: _ =>
        let expressions := (Text.splitOn '\n' pattern.toList).map fun cs =>
          let text := String.ofList cs
          if call.has 'F' then
            cs.foldl (fun r c => Regular.joined r (Regular.letter (call.has 'i') c)) .empty
          else Regular.ofText (call.has 'E') (call.has 'i') text
        let expressions := if call.has 'x' then
            expressions.map fun r => .joined .atStart (.joined r .atEnd)
          else expressions
        let wanted (line : String) : Bool :=
          (expressions.any fun r => r.occursIn line) != call.has 'v'
        let files := if names.isEmpty then ["-"] else names
        let found := files.map fun name => (name, contentOf tree input name)
        let complaints := found.filterMap fun (name, content) =>
          match content with
          | .ok _ => none
          | .error wording => some (2, "grep: " ++ name ++ ": " ++ wording ++ "\n")
        let results := found.filterMap fun (name, content) =>
          content.toOption.map fun text =>
            (name, (linesOf text).zipIdx.filter fun line => wanted line.1)
        let named := (1 < files.length || call.has 'H') && !call.has 'h'
        let shown := results.map fun (name, lines) =>
          let front := if named then (if name = "-" then "(standard input)" else name) ++ ":" else ""
          if call.has 'l' then if lines.isEmpty then "" else name ++ "\n"
          else if call.has 'c' then front ++ toString lines.length ++ "\n"
          else String.join (lines.map fun (line, n) =>
            front ++ (if call.has 'n' then toString (n + 1) ++ ":" else "") ++ line ++ "\n")
        let hit := results.any fun result => !result.2.isEmpty
        let complaints := if call.has 's' then [] else complaints
        let failed := results.length < files.length
        ⟨complaints ++ if call.has 'q' then [] else [(1, String.join shown)],
          if hit && (call.has 'q' || !failed) then 0 else if failed then 2 else 1, tree,
          if files.contains "-" then input.size else 0⟩

def tee : Program :=
  withOptions "tee" "aip" "" [("append", 'a')] 1 fun call input tree =>
    let effect := Effect.inSequence tree <| call.operands.map fun name tree =>
      let old := if call.has 'a' then (bytesOf tree name).toOption.getD .empty else .empty
      change tree (FileTree.writeBytes (pathOf name) (old ++ input))
        fun wording => "tee: " ++ shownName name ++ ": " ++ wording
    { effect with written := effect.written ++ [(1, ofBytes input)], taken := input.size }

def tac : Program :=
  withOptions "tac" "br" "s" [] 1 fun call input tree =>
    overFiles "tac" call input tree
      (fun name wording => "failed to open " ++ quotedName name ++ " for reading: " ++ wording)
      fun _ text => String.join (piecesOf false text).reverse

def rev : Program :=
  withOptions "rev" "" "" [] 1 fun call input tree =>
    overFiles "rev" call input tree (fun name wording => "cannot open " ++ name ++ ": " ++ wording)
      fun _ text => ofLines ((linesOf text).map fun line => String.ofList line.toList.reverse)

/-- A path without slashes at its end. -/
def withoutSlashes (s : String) : List Char :=
  (s.toList.reverse.dropWhile (· = '/')).reverse

/-- The last component of a path, slashes behind it left out. -/
def lastComponent (s : String) : String :=
  let cs := withoutSlashes s
  if cs.isEmpty then if s = "" then "" else "/"
  else String.ofList (cs.reverse.takeWhile (· ≠ '/')).reverse

def basename : Program :=
  withOptionsFirst "basename" "az" "s" [("multiple", 'a'), ("suffix", 's')] 1 fun call _ tree =>
    let without (ending full : String) : String :=
      if ending ≠ "" && Text.endsWith full ending && full ≠ ending then
        String.ofList (full.toList.take (full.length - ending.length))
      else full
    let ending := (call.value? 's').getD ""
    match call.operands, call.has 'a' || call.has 's' with
    | [], _ => .ofMisuse tree 1 "basename" "missing operand"
    | names, true =>
      .ofOutput tree (ofLines (names.map fun name => without ending (lastComponent name)))
    | [name], false => .ofOutput tree (lastComponent name ++ "\n")
    | [name, ending], false => .ofOutput tree (without ending (lastComponent name) ++ "\n")
    | _ :: _ :: extra :: _, false =>
      .ofMisuse tree 1 "basename" ("extra operand " ++ curlyQuoted extra)

/-- A path without its last component. -/
def directoryOf (s : String) : String :=
  let cs := withoutSlashes s
  if cs.isEmpty then if s = "" then "." else "/"
  else if cs.contains '/' then
    let above := withoutSlashes (String.ofList (cs.reverse.dropWhile (· ≠ '/')).reverse)
    if above.isEmpty then "/" else String.ofList above
  else "."

def dirname : Program :=
  withOptionsFirst "dirname" "z" "" [] 1 fun call _ tree =>
    if call.operands.isEmpty then .ofMisuse tree 1 "dirname" "missing operand"
    else .ofOutput tree (ofLines (call.operands.map directoryOf))

/-- Waits for a time, which a script does not see. -/
def sleep : Program := fun words _ tree =>
  let dashed := words.find? fun word => Text.startsWith word "-" && word ≠ "-"
  match words, dashed with
  | [], _ => .ofMisuse tree 1 "sleep" "missing operand"
  | _, some word =>
    .ofMisuse tree 1 "sleep"
      ("invalid option -- '" ++ String.ofList ((word.toList.drop 1).take 1) ++ "'")
  | words, none =>
    let bad := words.filter fun word =>
      let cs := word.toList
      let cs := if "smhd".toList.contains (cs.getLast?.getD ' ') then cs.dropLast else cs
      cs.isEmpty || !cs.all fun c => c.isDigit || c = '.'
    if bad.isEmpty then .ofStatus tree 0
    else
      .ofMisuse tree 1 "sleep"
        ("\nsleep: ".intercalate (bad.map fun word => "invalid time interval " ++ curlyQuoted word))

/-- Why an expression of words has no value. -/
inductive WordsFault
  | missingAfter (word : String)
  | unexpected (word : String)
  | expectedParenthesis (word : String)
  | noNumber
  | divisionByZero

def WordsFault.message : WordsFault → String
  | missingAfter word => "syntax error: missing argument after " ++ curlyQuoted word
  | unexpected word => "syntax error: unexpected argument " ++ curlyQuoted word
  | expectedParenthesis word => "syntax error: expecting ')' after " ++ curlyQuoted word
  | noNumber => "non-integer argument"
  | divisionByZero => "division by zero"

/-- The rank of a word that joins two expressions; a higher one binds closer. -/
def joiningRank (word : String) : Nat :=
  match word with
  | "|" => 1
  | "&" => 2
  | "<" | "<=" | "=" | "==" | "!=" | ">=" | ">" => 3
  | "+" | "-" => 4
  | "*" | "/" | "%" => 5
  | ":" => 6
  | _ => 0

def isVoid (s : String) : Bool :=
  s = "" || integer? true s = some 0

/-- How many characters of a text an expression matches at its front. -/
def matchedCount (text pattern : String) : Nat :=
  match (Regular.joined .atStart (Regular.ofText false false pattern)).longest?
      text.length text.toList with
  | some rest => text.length - rest.length
  | none => 0

def joinedValue (a word b : String) : Except WordsFault String := do
  let numbers : Except WordsFault (Int × Int) :=
    match integer? true a, integer? true b with
    | some m, some n => .ok (m, n)
    | _, _ => .error .noNumber
  let shown (holds : Bool) : String := if holds then "1" else "0"
  let order : Ordering := match numbers with
    | .ok (m, n) => compare m n
    | .error _ => compare a b
  match word with
  | "|" => return if isVoid a then if isVoid b then "0" else b else a
  | "&" => return if isVoid a || isVoid b then "0" else a
  | "<" => return shown (order = .lt)
  | "<=" => return shown (order ≠ .gt)
  | "=" | "==" => return shown (order = .eq)
  | "!=" => return shown (order ≠ .eq)
  | ">=" => return shown (order ≠ .lt)
  | ">" => return shown (order = .gt)
  | ":" => return toString (matchedCount a b)
  | word =>
    let (m, n) ← numbers
    match word with
    | "+" => return Text.signedDecimal (m + n)
    | "-" => return Text.signedDecimal (m - n)
    | "*" => return Text.signedDecimal (m * n)
    | "/" => if n = 0 then throw .divisionByZero else return Text.signedDecimal (Int.tdiv m n)
    | _ => if n = 0 then throw .divisionByZero else return Text.signedDecimal (Int.tmod m n)

mutual

/-- The value of an expression of words joined by words of at least a rank, and the words behind
it; `last` is the word before it. -/
def wordsValue : Nat → Nat → String → List String → Except WordsFault (String × List String)
  | 0, _, last, _ => .error (.missingAfter last)
  | fuel + 1, least, last, words => do
    let (first, rest) ← operandValue fuel last words
    wordsValueFrom fuel least first rest

/-- The value of an expression whose first operand has been read. -/
def wordsValueFrom : Nat → Nat → String → List String → Except WordsFault (String × List String)
  | 0, _, first, words => .ok (first, words)
  | fuel + 1, least, first, words => do
    match words with
    | word :: rest =>
      let rank := joiningRank word
      if rank = 0 || rank < least then return (first, words)
      else
        let (second, rest) ← wordsValue fuel (rank + 1) word rest
        wordsValueFrom fuel least (← joinedValue first word second) rest
    | [] => return (first, [])

/-- The value of one operand: a word, a length, or an expression in parentheses. -/
def operandValue : Nat → String → List String → Except WordsFault (String × List String)
  | 0, last, _ => .error (.missingAfter last)
  | fuel + 1, last, words => do
    match words with
    | [] => throw (.missingAfter last)
    | "(" :: rest =>
      let (value, rest) ← wordsValue fuel 1 "(" rest
      match rest with
      | ")" :: rest => return (value, rest)
      | _ => throw (.expectedParenthesis value)
    | "length" :: text :: rest => return (toString (widen text).length, rest)
    | "match" :: text :: pattern :: rest => return (toString (matchedCount text pattern), rest)
    | word :: rest => return (word, rest)

end

def expr : Program := fun words _ tree =>
  if words.isEmpty then .ofMisuse tree 2 "expr" "missing operand"
  else
    match wordsValue (4 * words.length + 8) 1 "" words with
    | .ok (value, []) => ⟨[(1, value ++ "\n")], if isVoid value then 1 else 0, tree, 0⟩
    | .ok (_, word :: _) => .ofComplaint tree 2 ("expr: " ++ (WordsFault.unexpected word).message)
    | .error fault => .ofComplaint tree 2 ("expr: " ++ fault.message)

end NatSpec.Shell
