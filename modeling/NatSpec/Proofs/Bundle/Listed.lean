import NatSpec.Proofs.Bundle.Data
import NatSpec.Proofs.Bundle.Outline

/-!
What the index page lists. The section of a contract is found by its name, which no section in front
of it has, and the signatures of its members are found by their markup. Escaped texts begin no tag,
so neither search goes wrong.
-/

namespace NatSpec

namespace Index

open Text (misses cut? misses_append misses_literal)

/-! ### Reading the page -/

/-- What begins the section of a contract. -/
def sectionStart : List Char :=
  ['<', 's', 'e', 'c', 't', 'i', 'o', 'n']

def sectionEnd : List Char :=
  ['<', '/', 's', 'e', 'c', 't', 'i', 'o', 'n', '>']

/-- What begins a signature. -/
def codeStart : List Char :=
  ['<', 'c', 'o', 'd', 'e', '>']

def codeEnd : List Char :=
  ['<', '/', 'c', 'o', 'd', 'e', '>']

/-- The tag that begins the section of the contract with a name. -/
def sectionTag (name : String) : List Char :=
  sectionStart ++ (" id=\"" ++ Markup.escape name ++ "\">").toList

/-- The section of the contract with a name on a page: what stands behind the first tag that begins
it, down to the first tag behind it that ends a section. -/
def sectionOf? (name page : String) : Option (List Char) := do
  let (_, behind) ← cut? (sectionTag name) page.toList
  let (shown, _) ← cut? sectionEnd behind
  some shown

/-- The texts between the tags for signatures. -/
def codes : List Char → List String
  | [] => []
  | c :: cs =>
    if codeStart.isPrefixOf (c :: cs) then
      match cut? codeEnd ((c :: cs).drop codeStart.length) with
      | some (code, _) => String.ofList code :: codes cs
      | none => codes cs
    else codes cs

/-- The signatures that a page lists for the contract with a name. -/
def listed? (name page : String) : Option (List String) :=
  (sectionOf? name page).map fun shown => (codes shown).map Markup.unescape

/-! ### Markup without tags of a kind -/

/-- Whether a piece of a page holds no place where a tag could begin. -/
def Clear (tag : List Char) : Piece → Prop
  | .markup s => misses tag s.toList = true
  | .text _ => True
  | .data _ => False

variable {mark : List Char} {ps : List Piece}

theorem misses_escape (s : String) : misses ('<' :: mark) (Markup.escape s).toList = true :=
  Text.misses_of_not_mem (Markup.escape_free s '<' (by decide))

theorem misses_render (h : ∀ p ∈ ps, Clear ('<' :: mark) p) :
    misses ('<' :: mark) (Markup.render ps).toList = true := by
  induction ps with
  | nil => rfl
  | cons p ps ih =>
      rw [Markup.render_cons, String.toList_append]
      refine misses_append ?_ (ih fun q hq => h q (List.mem_cons_of_mem p hq))
      have hp := h p List.mem_cons_self
      cases p with
      | markup s => exact hp
      | text s => exact misses_escape s
      | data s => exact hp.elim

theorem clear_shownText {tag : List Char} {before after : String}
    (hbefore : misses tag before.toList = true) (hafter : misses tag after.toList = true)
    (v : Json) : ∀ p ∈ shownText before v after, Clear tag p := by
  unfold shownText
  split
  · simp [Clear, hbefore, hafter]
  · simp

theorem codes_append_of_misses {text : List Char} (h : misses codeStart text = true)
    (rest : List Char) : codes (text ++ rest) = codes rest := by
  induction text with
  | nil => rfl
  | cons c cs ih =>
      obtain ⟨hnot, hrest⟩ := Text.misses_cons_iff.1 h
      have hstart := Text.not_prefix_append hnot rest
      rw [← List.isPrefixOf_iff_prefix, List.cons_append] at hstart
      rw [List.cons_append, codes, if_neg hstart, ih hrest]

theorem codes_append_codeStart {rest code behind : List Char}
    (h : cut? codeEnd rest = some (code, behind)) :
    codes (codeStart ++ rest) = String.ofList code :: codes (codeStart.tail ++ rest) := by
  have hprefix : codeStart.isPrefixOf (codeStart ++ rest) = true :=
    List.isPrefixOf_iff_prefix.2 (List.prefix_append codeStart rest)
  have hdrop : (codeStart ++ rest).drop codeStart.length = rest := List.drop_left
  have hcodes : codes (codeStart ++ rest) =
      if codeStart.isPrefixOf (codeStart ++ rest) then
        match cut? codeEnd ((codeStart ++ rest).drop codeStart.length) with
        | some (code, _) => String.ofList code :: codes (codeStart.tail ++ rest)
        | none => codes (codeStart.tail ++ rest)
      else codes (codeStart.tail ++ rest) := rfl
  rw [hcodes, if_pos hprefix, hdrop, h]

/-- A signature between its tags is found. -/
theorem codes_code (signature : String) (rest : List Char) :
    codes (codeStart ++ ((Markup.escape signature).toList ++ (codeEnd ++ rest))) =
      Markup.escape signature :: codes rest := by
  have hcut : cut? codeEnd ((Markup.escape signature).toList ++ (codeEnd ++ rest)) =
      some ((Markup.escape signature).toList, rest) :=
    Text.cut?_append_append (misses_escape signature) rest
  rw [codes_append_codeStart hcut, codes_append_of_misses rfl,
    codes_append_of_misses (misses_escape signature), codes_append_of_misses rfl,
    String.ofList_toList]

/-! ### Members -/

theorem clear_remark {tag : List Char} (hdash : misses tag " &mdash; ".toList = true)
    (record : Json) : ∀ p ∈ remark record, Clear tag p := by
  unfold remark
  split
  · exact clear_shownText hdash rfl _
  · simp

/-- The list item of a member gives its signature. -/
theorem codes_memberItem {kind : String} (hkind : kind ∈ kinds) (signature : String) (record : Json)
    (rest : List Char) :
    codes ((Markup.render (memberItem kind signature record)).toList ++ rest) =
      Markup.escape signature :: codes rest := by
  have hparts : (Markup.render (memberItem kind signature record)).toList =
      "      <li>\n        <span class=\"kind\">".toList ++ (kind.toList ++ ("</span>".toList ++
        (codeStart ++ ((Markup.escape signature).toList ++ (codeEnd ++ ("\n".toList ++
          ((Markup.render (remark record)).toList ++ "      </li>\n".toList))))))) := by
    simp [memberItem, Markup.render_append, Markup.render_cons, Markup.render_nil, Markup.pieceText,
      String.toList_append, codeStart, codeEnd]
  have hkinds : misses codeStart kind.toList = true := by
    simp only [kinds, List.mem_cons, List.not_mem_nil, or_false] at hkind
    rcases hkind with rfl | rfl | rfl <;> rfl
  have hremark : misses codeStart (Markup.render (remark record)).toList = true :=
    misses_render (clear_remark (Text.misses_literal rfl rfl) record)
  rw [hparts]
  simp only [List.append_assoc]
  rw [codes_append_of_misses (Text.misses_literal rfl rfl), codes_append_of_misses hkinds,
    codes_append_of_misses (Text.misses_literal rfl rfl), codes_code,
    codes_append_of_misses (Text.misses_literal rfl rfl), codes_append_of_misses hremark,
    codes_append_of_misses (Text.misses_literal rfl rfl)]

def groups (doc : ContractDoc) : List (String × Json) :=
  [("method", doc.methods), ("event", doc.events), ("state variable", doc.stateVariables)]

def items (groups : List (String × Json)) : List Piece :=
  groups.flatMap fun group =>
    (members group.2).flatMap fun entry => memberItem group.1 entry.1.display entry.2

def signatures (groups : List (String × Json)) : List String :=
  groups.flatMap fun group => (members group.2).map fun entry => entry.1.display

theorem kind_mem_kinds {doc : ContractDoc} {group : String × Json} (h : group ∈ groups doc) :
    group.1 ∈ kinds := by
  have hgroups : ∀ group ∈ groups doc, group.1 ∈ kinds := by simp [groups, kinds]
  exact hgroups group h

theorem clear_items {tag : List Char} {groups : List (String × Json)}
    (hstart : ∀ group ∈ groups, misses tag (itemStart group.1).toList = true)
    (hcode : misses tag "</code>\n".toList = true)
    (hdash : misses tag " &mdash; ".toList = true)
    (hend : misses tag "      </li>\n".toList = true) : ∀ p ∈ items groups, Clear tag p := by
  intro p hp
  obtain ⟨group, hgroup, hp⟩ := List.mem_flatMap.1 hp
  obtain ⟨entry, -, hp⟩ := List.mem_flatMap.1 hp
  simp only [memberItem, List.mem_append, List.mem_cons, List.not_mem_nil, or_false] at hp
  rcases hp with ((rfl | rfl | rfl) | hp) | rfl
  · exact hstart group hgroup
  · trivial
  · exact hcode
  · exact clear_remark hdash entry.2 p hp
  · exact hend

/-- The list items give the signatures of the members. -/
theorem codes_items {groups : List (String × Json)} (h : ∀ group ∈ groups, group.1 ∈ kinds)
    (rest : List Char) :
    codes ((Markup.render (items groups)).toList ++ rest) =
      (signatures groups).map Markup.escape ++ codes rest := by
  induction groups with
  | nil => rfl
  | cons group groups ih =>
      have hgroup (entries : Fields) (rest : List Char) :
          codes ((Markup.render (entries.flatMap fun entry =>
              memberItem group.1 entry.1.display entry.2)).toList ++ rest) =
            (entries.map fun entry => Markup.escape entry.1.display) ++ codes rest := by
        induction entries with
        | nil => rfl
        | cons entry entries ih =>
            rw [List.flatMap_cons, Markup.render_append, String.toList_append, List.append_assoc,
              codes_memberItem (h group List.mem_cons_self), ih]
            rfl
      have hitems : items (group :: groups) = (members group.2).flatMap (fun entry =>
          memberItem group.1 entry.1.display entry.2) ++ items groups := List.flatMap_cons
      have hsignatures : signatures (group :: groups) =
          ((members group.2).map fun entry => entry.1.display) ++ signatures groups :=
        List.flatMap_cons
      rw [hitems, hsignatures, Markup.render_append, String.toList_append, List.append_assoc,
        hgroup, ih fun other hother => h other (List.mem_cons_of_mem _ hother), List.map_append,
        List.map_map, List.append_assoc]
      rfl

/-! ### Sections -/

def sectionFront (doc : ContractDoc) (page : Option Path) : List Piece :=
  [.markup "\n    <h2>\n"] ++ heading doc page
    ++ [.markup "    </h2>\n    <div class=\"source\">", .text doc.source.display,
      .markup "</div>\n"]
    ++ shownText "<p><strong>" doc.title "</strong></p>"
    ++ shownText "<p class=\"notice\">" doc.notice "</p>"
    ++ shownText "<p class=\"notice\">" doc.details "</p>"
    ++ [.markup "    <ul class=\"members\">\n"]

/-- What stands in a section behind its tag. -/
def sectionBody (doc : ContractDoc) (page : Option Path) : List Char :=
  (Markup.render (sectionFront doc page)).toList
    ++ ((Markup.render (items (groups doc))).toList ++ "    </ul>\n  ".toList)

theorem toList_section {name : String} {doc : ContractDoc} {page : Option Path} {ps : List Piece}
    (h : contractSection name doc page = .ok ps) :
    (Markup.render ps).toList = "  ".toList ++ (sectionTag name ++ (sectionBody doc page ++
      (sectionEnd ++ "\n".toList))) := by
  simp only [contractSection, bind_eq_ok_iff, groupItems_eq_ok_iff] at h
  obtain ⟨_, ⟨-, rfl⟩, _, ⟨-, rfl⟩, _, ⟨-, rfl⟩, h⟩ := h
  obtain rfl := Except.ok.inj h
  simp [sectionTag, sectionBody, sectionFront, items, groups, sectionStart, sectionEnd,
    Markup.render_append, Markup.render_cons, Markup.render_nil, Markup.pieceText,
    String.toList_append]

def frontMarkup : List String :=
  ["\n    <h2>\n", "<a href=\"", "\">", "</a>", "    </h2>\n    <div class=\"source\">", "</div>\n",
    "<p><strong>", "</strong></p>", "<p class=\"notice\">", "</p>", "    <ul class=\"members\">\n"]

theorem mem_shownText {before after : String} {v : Json} {p : Piece}
    (h : p ∈ shownText before v after) :
    (∃ s ∈ [before, after], p = .markup s) ∨ ∃ s, p = .text s := by
  unfold shownText at h
  split at h
  · simp only [List.mem_cons, List.not_mem_nil, or_false] at h
    rcases h with rfl | rfl | rfl <;> simp
  · simp at h

theorem mem_sectionFront {doc : ContractDoc} {page : Option Path} {p : Piece}
    (h : p ∈ sectionFront doc page) : (∃ s ∈ frontMarkup, p = .markup s) ∨ ∃ s, p = .text s := by
  have hshown {before after : String} (hbefore : before ∈ frontMarkup)
      (hafter : after ∈ frontMarkup) {v : Json} (h : p ∈ shownText before v after) :
      (∃ s ∈ frontMarkup, p = .markup s) ∨ ∃ s, p = .text s := by
    rcases mem_shownText h with ⟨s, hs, rfl⟩ | htext
    · refine .inl ⟨s, ?_, rfl⟩
      simp only [List.mem_cons, List.not_mem_nil, or_false] at hs
      rcases hs with rfl | rfl
      · exact hbefore
      · exact hafter
    · exact .inr htext
  have hheading (h : p ∈ heading doc page) :
      (∃ s ∈ frontMarkup, p = .markup s) ∨ ∃ s, p = .text s := by
    unfold heading at h
    split at h
    · simp only [List.mem_cons, List.not_mem_nil, or_false] at h
      rcases h with rfl | rfl | rfl | rfl | rfl <;> simp [frontMarkup]
    · simp only [List.mem_cons, List.not_mem_nil, or_false] at h
      exact .inr ⟨_, h⟩
  simp only [sectionFront, List.mem_append, List.mem_cons, List.not_mem_nil, or_false] at h
  rcases h with (((((rfl | h) | rfl | rfl | rfl) | h) | h) | h) | rfl
  · simp [frontMarkup]
  · exact hheading h
  · simp [frontMarkup]
  · simp
  · simp [frontMarkup]
  · exact hshown (by simp [frontMarkup]) (by simp [frontMarkup]) h
  · exact hshown (by simp [frontMarkup]) (by simp [frontMarkup]) h
  · exact hshown (by simp [frontMarkup]) (by simp [frontMarkup]) h
  · simp [frontMarkup]

/-- The tag of a section, its end and the tag of a signature begin nowhere in front of the list of
members. -/
theorem clear_sectionFront {tag : List Char} (htag : tag ∈ [sectionStart, sectionEnd, codeStart])
    (doc : ContractDoc) (page : Option Path) : ∀ p ∈ sectionFront doc page, Clear tag p := by
  have hmisses : ∀ tag ∈ [sectionStart, sectionEnd, codeStart],
      ∀ s ∈ frontMarkup, misses tag s.toList = true := by decide +kernel
  intro p hp
  rcases mem_sectionFront hp with ⟨s, hs, rfl⟩ | ⟨s, rfl⟩
  · exact hmisses tag htag s hs
  · trivial

/-- Neither tag of a section begins behind the tag of a section. -/
theorem misses_sectionBody {tag : List Char} (htag : tag ∈ [sectionStart, sectionEnd])
    (doc : ContractDoc) (page : Option Path) : misses tag (sectionBody doc page) = true := by
  have hliterals : ∀ tag ∈ [sectionStart, sectionEnd], ∀ s ∈ kinds.map itemStart ++
      ["</code>\n", " &mdash; ", "      </li>\n", "    </ul>\n  "],
      misses tag s.toList = true := by decide +kernel
  have hliteral := hliterals tag htag
  have hitems : ∀ p ∈ items (groups doc), Clear tag p :=
    clear_items
      (fun group hgroup => hliteral _
        (List.mem_append_left _ (List.mem_map_of_mem (kind_mem_kinds hgroup))))
      (hliteral _ (by simp)) (hliteral _ (by simp)) (hliteral _ (by simp))
  have hfront := clear_sectionFront (List.mem_append_left [codeStart] htag) doc page
  obtain ⟨mark, rfl⟩ : ∃ mark, tag = '<' :: mark := by
    simp only [List.mem_cons, List.not_mem_nil, or_false] at htag
    rcases htag with rfl | rfl
    · exact ⟨_, rfl⟩
    · exact ⟨_, rfl⟩
  exact misses_append (misses_render hfront)
    (misses_append (misses_render hitems) (hliteral _ (by simp)))

/-- A section gives the signatures of the members of its contract. -/
theorem codes_sectionBody (doc : ContractDoc) (page : Option Path) :
    codes (sectionBody doc page) = (signatures (groups doc)).map Markup.escape := by
  have hfront : misses codeStart (Markup.render (sectionFront doc page)).toList = true :=
    misses_render (clear_sectionFront (by decide) doc page)
  have hend : codes "    </ul>\n  ".toList = [] := by
    have hskip := codes_append_of_misses (Text.misses_literal (s := "    </ul>\n  ") rfl rfl) []
    rwa [List.append_nil] at hskip
  rw [sectionBody, codes_append_of_misses hfront, codes_items fun _ => kind_mem_kinds, hend,
    List.append_nil]

theorem sectionTag_eq (name : String) :
    sectionTag name = (sectionStart ++ [' ', 'i', 'd', '=', '\x22'])
      ++ ((Markup.escape name).toList ++ '\x22' :: ['>']) := by
  simp [sectionTag, String.toList_append]

/-- The tag of one section is not the beginning of that of another one. -/
theorem sectionTag_inj {name other : String} (h : sectionTag name <+: sectionTag other) :
    name = other := by
  obtain ⟨rest, hrest⟩ := h
  -- An escaped name holds no quotation mark, so it ends at the first one.
  have hcut (s : String) (behind : List Char) :
      cut? ['\x22'] ((Markup.escape s).toList ++ '\x22' :: behind) =
        some ((Markup.escape s).toList, behind) :=
    Text.cut?_singleton_append behind (Markup.escape_free s _ (by decide))
  rw [sectionTag_eq, sectionTag_eq, List.append_assoc _ _ rest] at hrest
  have hbehind := List.append_cancel_left hrest
  rw [List.append_assoc, List.cons_append] at hbehind
  have hsame := congrArg (cut? ['\x22']) hbehind
  rw [hcut, hcut] at hsame
  have hlist := (Prod.mk.inj (Option.some.inj hsame)).1
  rw [← Markup.unescape_escape name, String.toList_inj.1 hlist, Markup.unescape_escape]

/-- The tag of a section begins in no other section. -/
theorem misses_sectionTag {name other : String} (hne : name ≠ other) :
    misses (sectionTag name) (sectionTag other) = true := by
  have hbehind : '<' ∉ (sectionTag other).tail := by
    have hescape := Markup.escape_free other '<' (by decide)
    simp [sectionTag_eq, sectionStart, hescape]
  have htail : misses (sectionTag name) (sectionTag other).tail = true :=
    Text.misses_of_not_mem hbehind
  exact Text.misses_cons_iff.2
    ⟨⟨fun h => hne (sectionTag_inj h), fun h => hne (sectionTag_inj h).symm⟩, htail⟩

theorem misses_section {name other : String} (hne : name ≠ other) {doc : ContractDoc}
    {page : Option Path} {ps : List Piece} (h : contractSection other doc page = .ok ps) :
    misses (sectionTag name) (Markup.render ps).toList = true := by
  have hlonger {text : List Char} (h : misses sectionStart text = true) :
      misses (sectionTag name) text = true :=
    Text.misses_longer h _
  rw [toList_section h]
  exact misses_append (hlonger (misses_literal rfl rfl))
    (misses_append (misses_sectionTag hne) (misses_append
      (hlonger (misses_sectionBody (by simp) doc page))
      (misses_append (hlonger rfl) (hlonger (misses_literal rfl rfl)))))

/-! ### The page -/

theorem misses_opening : misses sectionStart opening.toList = true := by
  have hline {line : String} {text : List Char} (hline : line = String.ofList text)
      (h : misses sectionStart text = true) : misses sectionStart line.toList = true :=
    misses_literal hline h
  have hjoined {line other : String} {text more : List Char} (hline : line = String.ofList text)
      (h : misses sectionStart text = true) (hother : other = String.ofList more)
      (h' : misses sectionStart more = true) :
      misses sectionStart (line ++ other).toList = true := by
    rw [String.toList_append]
    exact misses_append (misses_literal hline h) (misses_literal hother h')
  unfold opening
  refine Text.misses_intercalate rfl ?_
  simp only [List.forall_mem_cons]
  -- Two lines of the style sheet are joined of two parts.
  exact ⟨hline rfl rfl, hline rfl rfl, hline rfl rfl, hline rfl rfl, hline rfl rfl, hline rfl rfl,
    hline rfl rfl, hjoined rfl rfl rfl rfl, hline rfl rfl, hline rfl rfl, hline rfl rfl,
    hline rfl rfl, hline rfl rfl, hline rfl rfl, hjoined rfl rfl rfl rfl, hline rfl rfl,
    hline rfl rfl, hline rfl rfl, hline rfl rfl, hline rfl rfl, by simp⟩

/-- The section of a contract is found among the sections if no two contracts share a name. -/
theorem cut?_sections {docs : Docs} {pages : Bool} {sections : List (List Piece)}
    (h : List.Forall₂ (fun entry shown =>
      contractSection entry.1 entry.2 (pageOf pages entry.2) = .ok shown) docs sections)
    (hkeys : (Table.keys docs).Nodup) {name : String} {doc : ContractDoc}
    (hmem : (name, doc) ∈ docs) (rest : List Char) :
    ∃ before behind, cut? (sectionTag name) ((Markup.render sections.flatten).toList ++ rest) =
      some (before, sectionBody doc (pageOf pages doc) ++ (sectionEnd ++ behind)) := by
  induction h with
  | nil => cases hmem
  | @cons entry shown docs sections hshown _ ih =>
      rw [List.flatten_cons, Markup.render_append, String.toList_append, List.append_assoc]
      obtain ⟨hnew, hkeys⟩ := List.nodup_cons.1 hkeys
      rcases List.mem_cons.1 hmem with rfl | hmem
      · rw [toList_section hshown]
        have hblanks : misses (sectionTag name) "  ".toList = true :=
          Text.misses_longer (misses_literal rfl rfl) _
        simp only [List.append_assoc]
        exact ⟨_, _, Text.cut?_append_append hblanks _⟩
      · -- The section of another contract in front holds nothing that is searched for.
        have hne : name ≠ entry.1 := fun heq => hnew (heq ▸ List.mem_map_of_mem hmem)
        obtain ⟨before, behind, hcut⟩ := ih hkeys hmem
        rw [Text.cut?_append_of_misses (misses_section hne hshown), hcut]
        exact ⟨_, behind, rfl⟩

/-- The index page lists the signatures of the members of each contract, in the order of the groups,
in the section that has the name of the contract. -/
theorem listed?_render {docs : Docs} (hkeys : (Table.keys docs).Nodup) {pages : Bool}
    {page : String} (hpage : render docs pages = .ok page) {name : String} {doc : ContractDoc}
    (hmem : (name, doc) ∈ docs) : listed? name page = some (signatures (groups doc)) := by
  obtain ⟨sections, hsections, rfl⟩ := render_eq_ok hpage
  have hsorted : (Table.keys docs.sorted).Nodup :=
    ((docs.sorted_perm.map Prod.fst).nodup_iff).2 hkeys
  have hplaceholder : misses sectionStart (Markup.render (placeholder docs)).toList = true := by
    have hnone : Clear sectionStart (.markup "  <p>No contracts found.</p>\n") :=
      misses_literal rfl rfl
    rw [placeholder]
    split
    · exact misses_render (List.forall_mem_singleton.2 hnone)
    · rfl
  have hfront : misses (sectionTag name)
      (opening.toList ++ (Markup.render (placeholder docs)).toList) = true :=
    Text.misses_longer (misses_append misses_opening hplaceholder) _
  obtain ⟨before, behind, hcut⟩ :=
    cut?_sections hsections hsorted (docs.sorted_perm.mem_iff.2 hmem)
      ((Markup.render [.markup footer] ++ Markup.guardScript docs.data.text ++ closing).toList)
  have hbody : cut? sectionEnd
      (sectionBody doc (pageOf pages doc) ++ (sectionEnd ++ behind)) =
        some (sectionBody doc (pageOf pages doc), behind) :=
    Text.cut?_append_append (misses_sectionBody (by simp) doc _) behind
  have hsection : sectionOf? name (Markup.render (.markup opening ::
      (placeholder docs ++ sections.flatten ++ [.markup footer]))
        ++ Markup.guardScript docs.data.text ++ closing) =
      some (sectionBody doc (pageOf pages doc)) := by
    have hparts : (Markup.render (.markup opening ::
        (placeholder docs ++ sections.flatten ++ [.markup footer]))
          ++ Markup.guardScript docs.data.text ++ closing).toList =
        (opening.toList ++ (Markup.render (placeholder docs)).toList) ++
          ((Markup.render sections.flatten).toList ++ (Markup.render [.markup footer] ++
            Markup.guardScript docs.data.text ++ closing).toList) := by
      simp only [Markup.render_cons, Markup.render_append, Markup.pieceText, String.toList_append,
        List.append_assoc]
    rw [sectionOf?, hparts, Text.cut?_append_of_misses hfront, hcut]
    simp [hbody]
  rw [listed?, hsection, Option.map_some, codes_sectionBody, List.map_map]
  simp [Function.comp_def, Markup.unescape_escape]

end Index

end NatSpec
