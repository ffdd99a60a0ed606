import NatSpec.Proofs.Bundle.Index
import NatSpec.Proofs.Contract.Specials

/-!
The headings of a Markdown page. A page is read line by line. As long as what it is made of stands
on single lines that begin with no number sign, its headings are those of its sections and of the
members in them, and the texts of a member stand below its heading.
-/

namespace NatSpec

namespace Page

open Text (lines)

/-! ### Headings -/

/-- The title of a heading of a level: what stands behind as many number signs and a blank. -/
def heading? (level : Nat) (line : String) : Option String :=
  if (List.replicate level '#' ++ [' ']).isPrefixOf line.toList then
    some (String.ofList (line.toList.drop (level + 1)))
  else none

/-- The titles of the headings of a level on a page, in order. -/
def headings (level : Nat) (page : String) : List String :=
  (lines page).filterMap (heading? level)

/-- Whether a line begins with a number sign. -/
def isMarked (line : String) : Bool :=
  line.toList.head? == some '#'

/-- The headings of the third level among lines, each with what stands below it, down to the next
line that begins with a number sign. -/
def blocksOf : List String → List (String × List String)
  | [] => []
  | line :: rest =>
    match heading? 3 line with
    | some title => (title, rest.takeWhile fun other => !isMarked other) :: blocksOf rest
    | none => blocksOf rest

def blocks (page : String) : List (String × List String) :=
  blocksOf (lines page)

/-- A text on one line that begins with no number sign. -/
structure IsPlain (text : String) : Prop where
  oneLine : '\n' ∉ text.toList
  unmarked : isMarked text = false

instance (text : String) : Decidable (IsPlain text) :=
  decidable_of_iff ('\n' ∉ text.toList ∧ isMarked text = false)
    ⟨fun ⟨h, h'⟩ => ⟨h, h'⟩, fun ⟨h, h'⟩ => ⟨h, h'⟩⟩

/-- A signature as a heading shows it. -/
def quoted (signature : String) : String :=
  "`" ++ signature ++ "`"

theorem heading?_of_isMarked {line : String} (h : isMarked line = false) (level : Nat) :
    heading? (level + 1) line = none := by
  refine if_neg fun hprefix => ?_
  obtain ⟨rest, hrest⟩ := List.isPrefixOf_iff_prefix.1 hprefix
  rw [isMarked, ← hrest, List.replicate_succ] at h
  simp at h

theorem heading?_append (level : Nat) (title : String) :
    heading? level (String.ofList (List.replicate level '#' ++ [' ']) ++ title) = some title := by
  have hlist : (String.ofList (List.replicate level '#' ++ [' ']) ++ title).toList =
      (List.replicate level '#' ++ [' ']) ++ title.toList := by
    rw [String.toList_append, String.toList_ofList]
  rw [heading?, hlist, if_pos (List.isPrefixOf_iff_prefix.2 (List.prefix_append _ _))]
  have hlength : level + 1 = (List.replicate level '#' ++ [' ']).length := by simp
  rw [hlength, List.drop_left, String.ofList_toList]

/-- A heading is one of its own level only. -/
theorem heading?_of_ne {level other : Nat} (hne : level ≠ other) (title : String) :
    heading? other (String.ofList (List.replicate level '#' ++ [' ']) ++ title) = none := by
  refine if_neg fun hprefix => ?_
  rw [String.toList_append, String.toList_ofList] at hprefix
  have hat := List.isPrefixOf_iff_prefix.1 hprefix
  rcases Nat.lt_or_gt_of_ne hne with hlt | hlt
  · have hget := hat.getElem (i := level) (by simp; omega)
    simp [hlt] at hget
  · have hget := hat.getElem (i := other) (by simp)
    simp [hlt] at hget

theorem heading?_signature (level : Nat) (signature : String) :
    heading? level ("### `" ++ signature ++ "`") =
      if level = 3 then some (quoted signature) else none := by
  have hline : "### `" ++ signature ++ "`" =
      String.ofList (List.replicate 3 '#' ++ [' ']) ++ quoted signature := by
    rw [quoted, String.append_assoc, String.append_assoc, ← String.append_assoc]
    rfl
  rw [hline]
  split
  case isTrue h =>
    rw [h, heading?_append]
  case isFalse h =>
    exact heading?_of_ne (Ne.symm h) _

theorem heading?_section (level : Nat) (title : String) :
    heading? level ("## " ++ title) = if level = 2 then some title else none := by
  have hline : "## " ++ title = String.ofList (List.replicate 2 '#' ++ [' ']) ++ title := rfl
  rw [hline]
  split
  case isTrue h =>
    rw [h, heading?_append]
  case isFalse h =>
    exact heading?_of_ne (Ne.symm h) _

/-! ### Members -/

/-- What stands below the heading of a member. -/
def memberBody (record : Fields) : List String :=
  textLines (Json.field record "notice") ++ textLines (Json.field record "details")
    ++ namedTexts "Parameters" (Json.field record "params")
    ++ namedTexts "Returns" (Json.field record "returns")

theorem memberLines_eq (signature : String) (record : Fields) :
    memberLines signature record = ("### `" ++ signature ++ "`") :: "" :: memberBody record := by
  simp [memberLines, memberBody]

/-- Nothing in a member is more than a line, and nothing but its heading begins with a number
sign. -/
structure IsPlainMember (member : String × Fields) : Prop where
  signature : IsPlain member.1
  texts : ∀ field ∈ ["notice", "details"], (Json.field member.2 (.text field)).truthy = true →
    IsPlain (Json.field member.2 (.text field)).display
  named : ∀ field ∈ ["params", "returns"],
    ∀ entry ∈ Index.members (Json.field member.2 (.text field)),
      IsPlain entry.1.display ∧ IsPlain entry.2.display

theorem isPlain_empty : IsPlain "" := by decide

/-- A text on one line stays plain between others if the one in front of it is plain. -/
theorem isPlain_enclosed {before text after : String} (hbefore : IsPlain before)
    (hne : before.toList ≠ []) (htext : '\n' ∉ text.toList) (hafter : '\n' ∉ after.toList) :
    IsPlain (before ++ text ++ after) where
  oneLine := by simp [String.toList_append, hbefore.oneLine, htext, hafter]
  unmarked := by
    have hmark := hbefore.unmarked
    rw [isMarked] at hmark ⊢
    rwa [String.append_assoc, String.toList_append, List.head?_append_of_ne_nil _ hne]

theorem isPlain_textLines {v : Json} (h : v.truthy = true → IsPlain v.display) :
    ∀ line ∈ textLines v, IsPlain line := by
  unfold textLines
  split
  case isTrue hshown => simp [h hshown, isPlain_empty]
  case isFalse => simp

theorem isPlain_namedTexts {title : String} (htitle : '\n' ∉ title.toList) {v : Json}
    (h : ∀ entry ∈ Index.members v, IsPlain entry.1.display ∧ IsPlain entry.2.display) :
    ∀ line ∈ namedTexts title v, IsPlain line := by
  have hmark : IsPlain ("**" ++ title ++ "**") :=
    isPlain_enclosed (by decide) (by decide) htitle (by decide)
  have hentry : ∀ entry ∈ Index.members v,
      IsPlain ("- `" ++ entry.1.display ++ "`: " ++ entry.2.display) := by
    intro entry hentry
    obtain ⟨hname, htext⟩ := h entry hentry
    constructor
    · simp [String.toList_append, hname.oneLine, htext.oneLine]
    · simp [isMarked, String.toList_append]
  unfold namedTexts
  split
  · simp
  · rename_i fields _
    intro line hline
    simp only [List.mem_append, List.mem_cons, List.mem_map, List.not_mem_nil, or_false] at hline
    obtain ((rfl | rfl) | ⟨entry, hmem, rfl⟩) | rfl := hline
    · exact hmark
    · exact isPlain_empty
    · exact hentry entry hmem
    · exact isPlain_empty
  · simp

theorem IsPlainMember.body {member : String × Fields} (h : IsPlainMember member) :
    ∀ line ∈ memberBody member.2, IsPlain line := by
  intro line hline
  simp only [memberBody, List.mem_append] at hline
  obtain ((hline | hline) | hline) | hline := hline
  · exact isPlain_textLines (h.texts "notice" (by simp)) line hline
  · exact isPlain_textLines (h.texts "details" (by simp)) line hline
  · exact isPlain_namedTexts (by decide) (h.named "params" (by simp)) line hline
  · exact isPlain_namedTexts (by decide) (h.named "returns" (by simp)) line hline

theorem lines_member {member : String × Fields} (h : IsPlainMember member) (rest : String) :
    lines (Page.member member.1 member.2 ++ rest) =
      memberLines member.1 member.2 ++ lines rest := by
  have hone : ∀ line ∈ memberLines member.1 member.2, '\n' ∉ line.toList := by
    rw [memberLines_eq, List.forall_mem_cons, List.forall_mem_cons]
    refine ⟨?_, by simp, fun line hline => (h.body line hline).oneLine⟩
    simp [String.toList_append, h.signature.oneLine]
  rw [Page.member, Text.lines_append, Text.lines_intercalate, Text.flatMap_lines hone]
  rw [memberLines_eq]
  exact List.cons_ne_nil _ _

def sectionText (title : String) (members : List (String × Fields)) : String :=
  "## " ++ title ++ "\n\n" ++ String.join (members.map fun member => Page.member member.1 member.2)

def sectionLines (title : String) (members : List (String × Fields)) : List String :=
  ("## " ++ title) :: "" :: members.flatMap (fun member => memberLines member.1 member.2) ++ [""]

theorem lines_sectionText {title : String} (htitle : '\n' ∉ title.toList)
    {members : List (String × Fields)} (h : ∀ member ∈ members, IsPlainMember member) :
    lines (sectionText title members) = sectionLines title members := by
  have hmembers : lines (String.join (members.map fun member => Page.member member.1 member.2)) =
      members.flatMap (fun member => memberLines member.1 member.2) ++ [""] := by
    induction members with
    | nil => rfl
    | cons member rest ih =>
        rw [List.map_cons, String.join_cons, lines_member (h member List.mem_cons_self),
          ih fun other hother => h other (List.mem_cons_of_mem _ hother), List.flatMap_cons,
          List.append_assoc]
  have hparts : sectionText title members = "## " ++ title ++ "\n" ++ ("" ++ "\n" ++
      String.join (members.map fun member => Page.member member.1 member.2)) := by
    have hfeeds : "\n\n" = "\n" ++ "\n" := rfl
    simp only [sectionText, hfeeds, String.empty_append, String.append_assoc]
  rw [hparts, Text.lines_line, Text.lines_line, hmembers]
  · rfl
  · simp
  · simp [String.toList_append, htitle]

/-! ### Blocks -/

/-- A block shows a member: its title is the signature, and below stands what belongs to the
member. -/
structure ShowsMember (member : String × Fields) (block : String × List String) : Prop where
  title : block.1 = quoted member.1
  body : "" :: memberBody member.2 <+: block.2

theorem map_fst_of_shows {members : List (String × Fields)} {blocks : List (String × List String)}
    (h : List.Forall₂ ShowsMember members blocks) :
    blocks.map Prod.fst = members.map fun member => quoted member.1 := by
  induction h with
  | nil => rfl
  | cons hshows _ ih => rw [List.map_cons, List.map_cons, ih, hshows.title]

theorem blocksOf_append {front rest : List String} (h : ∀ line ∈ front, heading? 3 line = none) :
    blocksOf (front ++ rest) = blocksOf rest := by
  induction front with
  | nil => rfl
  | cons line front ih =>
      rw [List.cons_append, blocksOf, h line List.mem_cons_self]
      exact ih fun other hother => h other (List.mem_cons_of_mem _ hother)

/-- The blocks of a page have the headings of the third level as their titles. -/
theorem map_fst_blocks (page : String) : (blocks page).map Prod.fst = headings 3 page := by
  rw [blocks, headings]
  induction lines page with
  | nil => rfl
  | cons line rest ih =>
      rw [blocksOf, List.filterMap_cons]
      cases heading? 3 line with
      | none => exact ih
      | some title => exact congrArg (title :: ·) ih

theorem IsPlain.heading?_eq {line : String} (h : IsPlain line) (level : Nat) :
    heading? (level + 1) line = none :=
  heading?_of_isMarked h.unmarked level

theorem blocksOf_memberLines {member : String × Fields} (h : IsPlainMember member)
    (rest : List String) :
    ∃ block, ShowsMember member block ∧
      blocksOf (memberLines member.1 member.2 ++ rest) = block :: blocksOf rest := by
  have hbelow : ∀ line ∈ "" :: memberBody member.2, IsPlain line :=
    List.forall_mem_cons.2 ⟨isPlain_empty, h.body⟩
  have htake : ("" :: memberBody member.2 ++ rest).takeWhile (fun other => !isMarked other) =
      "" :: memberBody member.2 ++ rest.takeWhile fun other => !isMarked other :=
    List.takeWhile_append_of_pos fun line hline => by
      rw [(hbelow line hline).unmarked, Bool.not_false]
  rw [memberLines_eq, List.cons_append, blocksOf, heading?_signature, if_pos rfl]
  refine ⟨_, ⟨rfl, ?_⟩, congrArg (_ :: ·) (blocksOf_append fun line hline => ?_)⟩
  · rw [htake]
    exact List.prefix_append ..
  · exact (hbelow line hline).heading?_eq 2

theorem blocksOf_members {members others : List (String × Fields)} {rest : List String}
    (h : ∀ member ∈ members, IsPlainMember member)
    (hrest : List.Forall₂ ShowsMember others (blocksOf rest)) :
    List.Forall₂ ShowsMember (members ++ others)
      (blocksOf (members.flatMap (fun member => memberLines member.1 member.2) ++ rest)) := by
  induction members with
  | nil => exact hrest
  | cons member members ih =>
      rw [List.flatMap_cons, List.append_assoc]
      obtain ⟨block, hblock, heq⟩ := blocksOf_memberLines (h member List.mem_cons_self) _
      rw [heq]
      exact .cons hblock (ih fun other hother => h other (List.mem_cons_of_mem _ hother))

/-- A text of a member stands on a line of its own between blank ones. -/
theorem ShowsMember.text {member : String × Fields} {block : String × List String}
    (h : ShowsMember member block) {field : String} (hfield : field ∈ ["notice", "details"])
    (hshown : (Json.field member.2 (.text field)).truthy = true) :
    ["", (Json.field member.2 (.text field)).display, ""] <:+: block.2 := by
  refine List.IsInfix.trans ?_ h.body.isInfix
  simp only [List.mem_cons, List.not_mem_nil, or_false] at hfield
  rw [memberBody, List.append_assoc, List.append_assoc]
  rcases hfield with rfl | rfl
  · have hnotice : textLines (Json.field member.2 "notice") =
        [(Json.field member.2 "notice").display, ""] := if_pos hshown
    rw [hnotice]
    exact ⟨[], _, rfl⟩
  · have hdetails : textLines (Json.field member.2 "details") =
        [(Json.field member.2 "details").display, ""] := if_pos hshown
    rw [hdetails]
    -- A blank line stands in front, be it behind the notice or behind the heading.
    by_cases hnotice : (Json.field member.2 "notice").truthy = true
    · rw [textLines, if_pos hnotice]
      exact ⟨["", (Json.field member.2 "notice").display], _, rfl⟩
    · rw [textLines, if_neg hnotice]
      exact ⟨[], _, rfl⟩

/-! ### Sections -/

/-- The special function that a record describes, under its signature. -/
def specialMembers (record : Json) : List (String × Fields) :=
  match record with
  | .obj fields =>
    match Abi.signature fields with
    | .ok signature => [(signature, fields)]
    | .error _ => []
  | _ => []

def groupMembers (group : Json) : List (String × Fields) :=
  (Index.members group).map fun entry => (entry.1.display, entry.2.asFields?.getD [])

def titledGroups (doc : ContractDoc) : List (String × Json) :=
  [("Methods", doc.methods), ("Events", doc.events), ("State Variables", doc.stateVariables)]

/-- The parts of a page that show members, under their titles. -/
def parts (doc : ContractDoc) : List (String × List (String × Fields)) :=
  (Special.all.map fun special => (special.heading, specialMembers (special.record doc)))
    ++ (titledGroups doc).map fun group => (group.1, groupMembers group.2)

/-- The section of a part, empty if it has no members. -/
def partText (part : String × List (String × Fields)) : String :=
  if part.2 = [] then "" else sectionText part.1 part.2

/-- A value that is a text, or is left out. -/
def IsText (v : Json) : Prop :=
  v = .null ∨ ∃ s, v = .str s

/-- A value that describes a special function, which has a signature, or is left out. -/
def IsSpecial (v : Json) : Prop :=
  v = .null ∨ ∃ fields signature, v = .obj fields ∧ Abi.checkDepth (Abi.inputsOf v) = .ok () ∧
    Abi.signature fields = .ok signature

/-- A group of records under texts, or one that is left out. -/
def IsMemberGroup (v : Json) : Prop :=
  v = .null ∨ ∃ records, v = .obj records ∧ ∀ entry ∈ records,
    (∃ signature, entry.1 = .text signature) ∧ ∃ fields, entry.2 = .obj fields

theorem specialSection_eq {title : String} {v : Json} (h : IsSpecial v) :
    specialSection title v = .ok (partText (title, specialMembers v)) := by
  rcases h with rfl | ⟨fields, signature, rfl, hdepth, hsignature⟩
  · rfl
  · have hmembers : specialMembers (.obj fields) = [(signature, fields)] := by
      rw [specialMembers, hsignature]
    rw [specialSection, if_neg (by simp [Json.isNull]), Abi.fieldsOf, ok_bind, hdepth, ok_bind,
      hsignature, ok_bind, hmembers, partText, if_neg (by simp), sectionText]
    simp [String.join_cons]

theorem groupSection_eq {title : String} {v : Json} (h : IsMemberGroup v) :
    groupSection title v = .ok (partText (title, groupMembers v)) := by
  rcases h with rfl | ⟨records, rfl, hrecords⟩
  · rfl
  · cases records with
    | nil => rfl
    | cons first rest =>
        have hmembers : (first :: rest).mapM (fun entry => do
            Except.ok (ε := Fault) (member entry.1.display (← Abi.fieldsOf entry.2))) =
              .ok ((groupMembers (.obj (first :: rest))).map fun m => member m.1 m.2) := by
          rw [mapM_eq_ok_iff, groupMembers, List.map_map, List.forall₂_map_right_iff]
          refine List.forall₂_same.2 fun entry hentry => ?_
          obtain ⟨-, fields, hfields⟩ := hrecords entry hentry
          rw [hfields]
          simp [Abi.fieldsOf, ok_bind, hfields, Json.asFields?]
        have hshown : (Json.obj (first :: rest)).truthy = true := rfl
        have hsection : groupSection title (.obj (first :: rest)) =
            ((first :: rest).mapM (fun entry => do
              Except.ok (ε := Fault) (member entry.1.display (← Abi.fieldsOf entry.2))) >>=
                fun members => .ok ("## " ++ title ++ "\n\n" ++ String.join members)) :=
          if_pos hshown
        rw [hsection, hmembers]
        rfl

/-! ### Pages -/

/-- Documentation of which a page can be made: its source and its texts are texts, its special
functions have signatures, and its groups hold records. -/
structure IsTyped (doc : ContractDoc) : Prop where
  source : ∃ s, doc.source = .str s
  notice : IsText doc.notice
  details : IsText doc.details
  specials : ∀ special : Special, IsSpecial (special.record doc)
  groups : ∀ v ∈ [doc.methods, doc.events, doc.stateVariables], IsMemberGroup v

/-- Documentation all of whose names, signatures and texts stand on one line and begin with no
number sign. -/
structure IsPlainDoc (doc : ContractDoc) : Prop where
  source : IsPlain doc.source.display
  name : IsPlain doc.name.display
  texts : ∀ v ∈ [doc.title, doc.author, doc.details, doc.notice],
    v.truthy = true → IsPlain v.display
  members : ∀ part ∈ parts doc, ∀ member ∈ part.2, IsPlainMember member

theorem sections_eq {doc : ContractDoc} (h : IsTyped doc) {overview : String}
    (hoverview : overviewSection doc = .ok overview) :
    sections doc = .ok (titleSection doc :: overview :: (parts doc).map partText) := by
  have hspecial (special : Special) :
      specialSection special.heading (special.record doc) =
        .ok (partText (special.heading, specialMembers (special.record doc))) :=
    specialSection_eq (h.specials special)
  have hgroup (title : String) {v : Json} (hv : v ∈ [doc.methods, doc.events, doc.stateVariables]) :
      groupSection title v = .ok (partText (title, groupMembers v)) :=
    groupSection_eq (h.groups v hv)
  rw [sections, hoverview, ok_bind]
  simp only [show specialSection "Constructor" doc.constructor = _ from hspecial .constructor,
    show specialSection "Fallback" doc.fallback = _ from hspecial .fallback,
    show specialSection "Receive" doc.receive = _ from hspecial .receive, hgroup, List.mem_cons,
    true_or, or_true, ok_bind]
  rfl

/-- A line that is no heading of a section or a member. -/
def IsFront (line : String) : Prop :=
  heading? 2 line = none ∧ heading? 3 line = none

theorem IsPlain.isFront {line : String} (h : IsPlain line) : IsFront line :=
  ⟨h.heading?_eq 1, h.heading?_eq 2⟩

/-- A line that stands behind a blank one if a value is there. -/
theorem isFront_marked {v : Json} {text rest : String} (htext : v.truthy = true → IsPlain text)
    (hrest : ∀ line ∈ lines rest, IsFront line) :
    ∀ line ∈ lines ((if v.truthy then "" ++ "\n" ++ (text ++ "\n") else "") ++ rest),
      IsFront line := by
  split
  case isTrue hshown =>
    rw [String.append_assoc, Text.lines_line (by simp), Text.lines_line (htext hshown).oneLine,
       List.forall_mem_cons, List.forall_mem_cons]
    exact ⟨isPlain_empty.isFront, (htext hshown).isFront, hrest⟩
  case isFalse =>
    rwa [String.empty_append]

theorem isFront_titleSection {doc : ContractDoc} (h : IsPlainDoc doc) :
    ∀ line ∈ lines (titleSection doc), IsFront line := by
  -- Each literal of the section is cut at its line feeds, so that the text is line by line.
  have hparts : titleSection doc = "# " ++ doc.name.display ++ "\n" ++ ("" ++ "\n" ++
      ("`" ++ doc.source.display ++ "`" ++ "\n" ++
        ((if doc.title.truthy then
            "" ++ "\n" ++ ("**" ++ doc.title.display ++ "**" ++ "\n") else "") ++
          ((if doc.author.truthy then
            "" ++ "\n" ++ ("*Author: " ++ doc.author.display ++ "*" ++ "\n") else "") ++ "")))) := by
    have hliterals : "\n\n`" = "\n" ++ ("\n" ++ "`") ∧ "`\n" = "`" ++ "\n" ∧
      "\n**" = "\n" ++ "**" ∧ "**\n" = "**" ++ "\n" ∧
      "\n*Author: " = "\n" ++ "*Author: " ∧ "*\n" = "*" ++ "\n" := by decide
    obtain ⟨h₁, h₂, h₃, h₄, h₅, h₆⟩ := hliterals
    simp only [titleSection, h₁, h₂, h₃, h₄, h₅, h₆, String.append_assoc, String.empty_append,
      String.append_empty]
  have hname : IsFront ("# " ++ doc.name.display) := by
    constructor <;> simp [heading?, String.toList_append]
  have hsource : IsPlain ("`" ++ doc.source.display ++ "`") :=
    isPlain_enclosed (by decide) (by decide) h.source.oneLine (by decide)
  have htitle (hshown : doc.title.truthy = true) : IsPlain ("**" ++ doc.title.display ++ "**") :=
    isPlain_enclosed (by decide) (by decide) (h.texts _ (by simp) hshown).oneLine (by decide)
  have hauthor (hshown : doc.author.truthy = true) :
      IsPlain ("*Author: " ++ doc.author.display ++ "*") :=
    isPlain_enclosed (by decide) (by decide) (h.texts _ (by simp) hshown).oneLine (by decide)
  rw [hparts, Text.lines_line (by simp [String.toList_append, h.name.oneLine]),
    Text.lines_line (by simp), Text.lines_line hsource.oneLine]
  simp only [List.forall_mem_cons]
  refine ⟨hname, isPlain_empty.isFront, hsource.isFront,
    isFront_marked htitle (isFront_marked hauthor ?_)⟩
  rw [Text.lines_of_not_mem (by simp)]
  simpa using isPlain_empty.isFront

theorem isFront_paragraphs {texts : List String} (h : ∀ text ∈ texts, IsPlain text) :
    ∀ line ∈ lines ("\n\n".intercalate texts ++ "\n"), IsFront line := by
  have hend : ∀ line ∈ lines "", IsFront line := by
    rw [Text.lines_of_not_mem (by simp)]
    simpa using isPlain_empty.isFront
  induction texts with
  | nil =>
      rw [String.intercalate_nil, ← String.append_empty (s := "" ++ "\n"),
        Text.lines_line (by simp)]
      exact List.forall_mem_cons.2 ⟨isPlain_empty.isFront, hend⟩
  | cons text rest ih =>
      have htext := h text List.mem_cons_self
      have hrest : ∀ line ∈ lines ("\n\n".intercalate rest ++ "\n"), IsFront line :=
        ih fun other hother => h other (List.mem_cons_of_mem _ hother)
      cases rest with
      | nil =>
          rw [String.intercalate_singleton, ← String.append_empty (s := text ++ "\n"),
            Text.lines_line htext.oneLine]
          exact List.forall_mem_cons.2 ⟨htext.isFront, hend⟩
      | cons next rest =>
          have hparts : "\n\n".intercalate (text :: next :: rest) ++ "\n" = text ++ "\n" ++
              ("" ++ "\n" ++ ("\n\n".intercalate (next :: rest) ++ "\n")) := by
            have hfeeds : "\n\n" = "\n" ++ "\n" := rfl
            rw [String.intercalate_cons_cons, String.empty_append]
            simp only [hfeeds, String.append_assoc]
          rw [hparts, Text.lines_line htext.oneLine, Text.lines_line (by simp)]
          exact List.forall_mem_cons.2 ⟨htext.isFront,
            List.forall_mem_cons.2 ⟨isPlain_empty.isFront, hrest⟩⟩

theorem exists_overviewSection {doc : ContractDoc} (htyped : IsTyped doc) (h : IsPlainDoc doc) :
    ∃ overview, overviewSection doc = .ok overview ∧ ∀ line ∈ lines overview, IsFront line := by
  have hshown : ∀ v ∈ [doc.notice, doc.details].filter Json.truthy,
      ∃ s, v = .str s ∧ IsPlain s := by
    intro v hv
    obtain ⟨hmem, htruthy⟩ := List.mem_filter.1 hv
    have htext {v : Json} (htext : IsText v) (hplain : v.truthy = true → IsPlain v.display)
        (htruthy : v.truthy = true) : ∃ s, v = .str s ∧ IsPlain s := by
      rcases htext with rfl | ⟨s, rfl⟩
      · cases htruthy
      · exact ⟨s, rfl, hplain htruthy⟩
    simp only [List.mem_cons, List.not_mem_nil, or_false] at hmem
    rcases hmem with rfl | rfl
    · exact htext htyped.notice (h.texts _ (by simp)) htruthy
    · exact htext htyped.details (h.texts _ (by simp)) htruthy
  choose! textOf htextOf using hshown
  have htexts : [doc.notice, doc.details].filter Json.truthy =
      (([doc.notice, doc.details].filter Json.truthy).map textOf).map Json.str := by
    rw [List.map_map]
    exact (List.map_id _).symm.trans (List.map_congr_left fun v hv => (htextOf v hv).1)
  rw [overviewSection, htexts, Abi.texts_map_str, ok_bind]
  refine ⟨_, rfl, ?_⟩
  split
  · rw [Text.lines_of_not_mem (by simp)]
    simpa using isPlain_empty.isFront
  · exact isFront_paragraphs (List.forall_mem_map.2 fun v hv => (htextOf v hv).2)

theorem isAllBlank_partText (part : String × List (String × Fields)) :
    Text.isAllBlank (partText part) = decide (part.2 = []) := by
  rw [partText]
  split
  case isTrue h => simp [h, Text.isAllBlank]
  case isFalse h =>
    rw [sectionText, String.append_assoc, String.append_assoc, isAllBlank_heading]
    simp [h]

/-- The parts of a page that are shown: those with members. -/
def shownParts (doc : ContractDoc) : List (String × List (String × Fields)) :=
  (parts doc).filter fun part => part.2 ≠ []

theorem filter_map_partText (doc : ContractDoc) :
    ((parts doc).map partText).filter (fun text => !Text.isAllBlank text) =
      (shownParts doc).map fun part => sectionText part.1 part.2 := by
  have hkept : (fun part => !Text.isAllBlank (partText part)) =
      fun part : String × List (String × Fields) => decide (part.2 ≠ []) := by
    funext part
    rw [isAllBlank_partText, decide_not]
  rw [List.filter_map, Function.comp_def, hkept, shownParts]
  refine List.map_congr_left fun part hpart => ?_
  exact if_neg (of_decide_eq_true (List.mem_filter.1 hpart).2)

theorem isAllBlank_titleSection (doc : ContractDoc) :
    Text.isAllBlank (titleSection doc) = false := by
  have hlist : ∃ rest, (titleSection doc).toList = '#' :: rest := by
    simp [titleSection, String.toList_append]
  obtain ⟨rest, hrest⟩ := hlist
  have hmark : Text.isBlank '#' = false := by decide
  rw [Text.isAllBlank, hrest, List.all_cons, hmark, Bool.false_and]

theorem notMem_title_of_mem_parts {doc : ContractDoc} {part : String × List (String × Fields)}
    (h : part ∈ parts doc) : '\n' ∉ part.1.toList := by
  have htitles : ∀ title ∈ (parts doc).map Prod.fst, '\n' ∉ title.toList := by
    simp [parts, titledGroups, Special.all, Special.heading]
  exact htitles _ (List.mem_map_of_mem h)

/-- The lines of a page: those of the title and the texts of the contract, and then those of the
sections with members. -/
theorem exists_lines_render {doc : ContractDoc} (htyped : IsTyped doc) (h : IsPlainDoc doc) :
    ∃ page front, render doc = .ok page ∧ (∀ line ∈ front, IsFront line) ∧
      lines page = front ++ (shownParts doc).flatMap fun part => sectionLines part.1 part.2 := by
  obtain ⟨overview, hoverview, hfront⟩ := exists_overviewSection htyped h
  have hsections : ((shownParts doc).map fun part => sectionText part.1 part.2).flatMap lines =
      (shownParts doc).flatMap fun part => sectionLines part.1 part.2 := by
    rw [List.flatMap_map]
    refine List.flatMap_congr fun part hpart => ?_
    have hmem := (List.mem_filter.1 hpart).1
    exact lines_sectionText (notMem_title_of_mem_parts hmem) (h.members part hmem)
  have hrender : render doc = .ok ("\n".intercalate (titleSection doc ::
      ([overview].filter (fun text => !Text.isAllBlank text)
        ++ (shownParts doc).map fun part => sectionText part.1 part.2))) := by
    rw [render, sections_eq htyped hoverview, ok_bind, ← filter_map_partText, ← List.filter_append,
      List.filter_cons_of_pos (by simp [isAllBlank_titleSection])]
    rfl
  refine ⟨_, lines (titleSection doc) ++
    ([overview].filter fun text => !Text.isAllBlank text).flatMap lines, hrender, ?_, ?_⟩
  · intro line hline
    rcases List.mem_append.1 hline with hline | hline
    · exact isFront_titleSection h line hline
    · obtain ⟨text, htext, hmem⟩ := List.mem_flatMap.1 hline
      obtain rfl := List.mem_singleton.1 (List.mem_filter.1 htext).1
      exact hfront line hmem
  · rw [Text.lines_intercalate (List.cons_ne_nil _ _), List.flatMap_cons, List.flatMap_append,
      hsections, List.append_assoc]

/-- The members on a page, in order. -/
def shownMembers (doc : ContractDoc) : List (String × Fields) :=
  (parts doc).flatMap Prod.snd

theorem flatMap_shownParts (doc : ContractDoc) :
    (shownParts doc).flatMap Prod.snd = shownMembers doc := by
  rw [shownParts, shownMembers]
  induction parts doc with
  | nil => rfl
  | cons part rest ih =>
      by_cases hnone : part.2 = []
      · rw [List.filter_cons_of_neg (by simpa using hnone), ih, List.flatMap_cons, hnone,
          List.nil_append]
      · rw [List.filter_cons_of_pos (by simpa using hnone), List.flatMap_cons, List.flatMap_cons,
          ih]

theorem filterMap_sectionLines {title : String} {members : List (String × Fields)}
    (h : ∀ member ∈ members, IsPlainMember member) :
    (sectionLines title members).filterMap (heading? 2) = [title] := by
  have hmembers : (members.flatMap fun member => memberLines member.1 member.2).filterMap
      (heading? 2) = [] := by
    rw [List.filterMap_eq_nil_iff]
    intro line hline
    obtain ⟨member, hmember, hline⟩ := List.mem_flatMap.1 hline
    rw [memberLines_eq, List.mem_cons, List.mem_cons] at hline
    rcases hline with rfl | rfl | hline
    · exact heading?_signature 2 member.1
    · exact isPlain_empty.heading?_eq 1
    · exact ((h member hmember).body line hline).heading?_eq 1
  have hempty := isPlain_empty.heading?_eq 1
  rw [sectionLines, List.cons_append, List.cons_append, List.filterMap_cons, heading?_section,
    if_pos rfl, List.filterMap_cons, hempty, List.filterMap_append, hmembers, List.filterMap_cons,
    hempty]
  rfl

theorem blocksOf_sections {sections : List (String × List (String × Fields))}
    (h : ∀ part ∈ sections, ∀ member ∈ part.2, IsPlainMember member) :
    List.Forall₂ ShowsMember (sections.flatMap Prod.snd)
      (blocksOf (sections.flatMap fun part => sectionLines part.1 part.2)) := by
  induction sections with
  | nil => exact .nil
  | cons part rest ih =>
      have hrest := ih fun other hother => h other (List.mem_cons_of_mem _ hother)
      have hempty := isPlain_empty.heading?_eq 2
      have htitle : ∀ line ∈ ["## " ++ part.1, ""], heading? 3 line = none := by
        simpa [heading?_section] using hempty
      -- The title and the blank lines of a section begin no block.
      have hlines : ((part :: rest).flatMap fun part => sectionLines part.1 part.2) =
          ["## " ++ part.1, ""] ++ (part.2.flatMap (fun member => memberLines member.1 member.2) ++
            ([""] ++ rest.flatMap fun part => sectionLines part.1 part.2)) := by
        simp [sectionLines]
      rw [hlines, blocksOf_append htitle, List.flatMap_cons]
      refine blocksOf_members (h part List.mem_cons_self) ?_
      rwa [blocksOf_append (by simpa using hempty)]

/-- A page can be made. It has a section for each part with members, in order, and a block for each
of these members, with its texts. -/
theorem exists_headings_render {doc : ContractDoc} (htyped : IsTyped doc) (h : IsPlainDoc doc) :
    ∃ page, render doc = .ok page ∧ headings 2 page = (shownParts doc).map Prod.fst ∧
      List.Forall₂ ShowsMember (shownMembers doc) (blocks page) := by
  obtain ⟨page, front, hpage, hfront, hlines⟩ := exists_lines_render htyped h
  have hmembers : ∀ part ∈ shownParts doc, ∀ member ∈ part.2, IsPlainMember member :=
    fun part hpart => h.members part (List.mem_filter.1 hpart).1
  refine ⟨page, hpage, ?_, ?_⟩
  · have hnone : front.filterMap (heading? 2) = [] :=
      List.filterMap_eq_nil_iff.2 fun line hline => (hfront line hline).1
    rw [headings, hlines, List.filterMap_append, hnone, List.nil_append, List.filterMap_flatMap,
      List.flatMap_congr fun part hpart => filterMap_sectionLines (hmembers part hpart)]
    exact List.flatMap_pure_eq_map _ _
  · rw [blocks, hlines, blocksOf_append fun line hline => (hfront line hline).2,
      ← flatMap_shownParts]
    exact blocksOf_sections hmembers

end Page

end NatSpec
