import NatSpec.Proofs.Bundle.Contents
import NatSpec.Proofs.Bundle.Headings
import NatSpec.Proofs.Bundle.Listed

/-!
A bundle shows a contract in three places: in its section of the index page, on its own page and in
its record among the data. Each of them goes through the members on its own, and all of them have
the same members in the same order.
-/

namespace NatSpec

open Json.Reader (maxNesting)

namespace Page

/-! ### The members of a page -/

variable {doc : ContractDoc}

theorem length_specialMembers {v : Json} (h : IsSpecial v) :
    (specialMembers v).length = if v.isNull then 0 else 1 := by
  rcases h with rfl | ⟨fields, signature, rfl, -, hsignature⟩
  · rfl
  · rw [specialMembers, hsignature]
    rfl

theorem specialMembers_eq_nil_iff {v : Json} (h : IsSpecial v) :
    specialMembers v = [] ↔ v.isNull = true := by
  rw [← List.length_eq_zero_iff, length_specialMembers h]
  cases v.isNull <;> simp

/-- The titles of the parts that have members. -/
theorem map_fst_filter {α : Type} {items : List α} {title : α → String}
    {members : α → List (String × Fields)} {shown : α → Bool}
    (h : ∀ a ∈ items, members a ≠ [] ↔ shown a = true) :
    ((items.map fun a => (title a, members a)).filter fun part => part.2 ≠ []).map Prod.fst =
      (items.filter shown).map title := by
  rw [List.filter_map, List.map_map]
  refine congrArg (List.map title) (List.filter_congr fun a ha => ?_)
  exact Bool.eq_iff_iff.2 (decide_eq_true_iff.trans (h a ha))

/-- A page has a section for each special function that is there, and then one for each group with
members. -/
theorem map_fst_shownParts (h : IsTyped doc) :
    (shownParts doc).map Prod.fst =
      (Special.all.filter fun special => !(special.record doc).isNull).map Special.heading ++
        ((titledGroups doc).filter fun group => !(Index.members group.2).isEmpty).map Prod.fst := by
  rw [shownParts, parts, List.filter_append, List.map_append, map_fst_filter fun special _ => ?_,
    map_fst_filter fun group _ => ?_]
  · simp [groupMembers]
  · simp [specialMembers_eq_nil_iff (h.specials special)]

/-- The members of a page are the special functions and then the members of the groups. -/
theorem shownMembers_eq (doc : ContractDoc) :
    shownMembers doc = (Special.all.flatMap fun special => specialMembers (special.record doc)) ++
      (groupMembers doc.methods ++ groupMembers doc.events ++ groupMembers doc.stateVariables) := by
  simp [shownMembers, parts, titledGroups, List.flatMap_map]

theorem map_fst_groupMembers (doc : ContractDoc) :
    (groupMembers doc.methods ++ groupMembers doc.events ++ groupMembers doc.stateVariables).map
      Prod.fst = Index.signatures (Index.groups doc) := by
  simp [groupMembers, Index.signatures, Index.groups, Function.comp_def]

theorem length_specials (h : IsTyped doc) :
    (Special.all.flatMap fun special => specialMembers (special.record doc)).length =
      Special.all.countP fun special => !(special.record doc).isNull := by
  induction Special.all with
  | nil => rfl
  | cons special rest ih =>
      rw [List.flatMap_cons, List.length_append, ih, length_specialMembers (h.specials special),
        List.countP_cons]
      cases (special.record doc).isNull <;> simp [Nat.add_comm]

end Page

namespace Bundle

variable {docs : Docs} {doc : ContractDoc} {name : String}

/-! ### The record of a contract -/

/-- The names of the members in the record of a contract among data: methods, then events, then
state variables. -/
def recordKeys (data : Json) (name : String) : List Json.Key :=
  match Table.get? (Index.members data) (.text name) with
  | some record => ["methods", "events", "stateVariables"].flatMap fun group =>
      Table.keys (Index.members (Json.field (Index.members record) (.text group)))
  | none => []

theorem recordKeys_data (hkeys : (Table.keys docs).Nodup) (hmem : (name, doc) ∈ docs)
    (htyped : Page.IsTyped doc) :
    recordKeys docs.data name = (Index.signatures (Index.groups doc)).map .text := by
  have hrecord : Table.get? (Index.members docs.data) (.text name) = some doc.toJson := by
    have hsorted : (Table.keys docs.sorted).Nodup :=
      ((docs.sorted_perm.map Prod.fst).nodup_iff).2 hkeys
    have hget := Table.get?_of_mem hsorted (docs.sorted_perm.mem_iff.2 hmem)
    have hbeq (a b : String) : (Json.Key.text a == Json.Key.text b) = (a == b) :=
      Json.Key.text_beq a b
    exact (Table.get?_map Json.Key.text ContractDoc.toJson hbeq docs.sorted name).trans
      (by rw [hget, Option.map_some])
  have hgroup {v : Json} (hv : Page.IsMemberGroup v) :
      Table.keys (Index.members v) =
        ((Index.members v).map fun entry => entry.1.display).map .text := by
    rcases hv with rfl | ⟨records, rfl, hrecords⟩
    · rfl
    · rw [List.map_map]
      refine List.map_congr_left fun entry hentry => ?_
      obtain ⟨⟨signature, hsignature⟩, -⟩ := hrecords entry hentry
      simp [hsignature, Json.Key.display, Json.Key.toJson, Json.display]
  have hgroups : recordKeys docs.data name = Table.keys (Index.members doc.methods) ++
      (Table.keys (Index.members doc.events) ++
        (Table.keys (Index.members doc.stateVariables) ++ [])) := by
    rw [recordKeys, hrecord]
    rfl
  rw [hgroups, hgroup (htyped.groups _ (by simp)), hgroup (htyped.groups _ (by simp)),
    hgroup (htyped.groups _ (by simp))]
  simp [Index.signatures, Index.groups]

/-! ### The files of a bundle -/

/-- Three views of one contract: its section of the index, its page and its record have the same
members in the same order, and the page has a section where there is something to show and the texts
of each member in the block of that member. -/
structure Agrees (name : String) (doc : ContractDoc) (index page : String) (data : Json) : Prop where
  listed : Index.listed? name index = some (Index.signatures (Index.groups doc))
  headings : (Page.headings 3 page).drop
      (Special.all.countP fun special => !(special.record doc).isNull) =
    (Index.signatures (Index.groups doc)).map Page.quoted
  record : recordKeys data name = (Index.signatures (Index.groups doc)).map .text
  sections : Page.headings 2 page =
    (Special.all.filter fun special => !(special.record doc).isNull).map Special.heading ++
      ((Page.titledGroups doc).filter fun group => !(Index.members group.2).isEmpty).map Prod.fst
  blocks : List.Forall₂ (fun member block => block.1 = Page.quoted member.1 ∧
      ∀ field ∈ ["notice", "details"], ∀ text, Json.field member.2 (.text field) = .str text →
        text ≠ "" → ["", text, ""] <:+: block.2)
    (Page.shownMembers doc) (Page.blocks page)

theorem headings_of_blocks {page : String} (htyped : Page.IsTyped doc)
    (h : List.Forall₂ Page.ShowsMember (Page.shownMembers doc) (Page.blocks page)) :
    (Page.headings 3 page).drop (Special.all.countP fun special => !(special.record doc).isNull) =
      (Index.signatures (Index.groups doc)).map Page.quoted := by
  -- One member of a page for each special function that is there comes before the other members.
  rw [← Page.map_fst_blocks, Page.map_fst_of_shows h, Page.shownMembers_eq,
    ← Page.length_specials htyped, List.map_append, ← Page.map_fst_groupMembers, List.map_map]
  exact List.drop_left' (List.length_map _)

theorem isShown_of_isTyped (h : Page.IsTyped doc) (pages : Bool) : Index.IsShown pages doc := by
  have hgroup {v : Json} (hv : Page.IsMemberGroup v) : Index.IsGroup v := by
    rcases hv with rfl | ⟨records, rfl, -⟩
    · exact nofun
    · exact fun _ => rfl
  exact ⟨fun _ => h.source, hgroup (h.groups _ (by simp)), hgroup (h.groups _ (by simp)),
    hgroup (h.groups _ (by simp))⟩

/-- The page of a contract agrees with the record of the contract and with an index that lists its
members. -/
theorem exists_agreeing_page (hkeys : (Table.keys docs).Nodup) (hmem : (name, doc) ∈ docs)
    (htyped : Page.IsTyped doc) (hplain : Page.IsPlainDoc doc) {pages : Bool} {index : String}
    (hindex : Index.render docs pages = .ok index) :
    ∃ page, Page.render doc = .ok page ∧ Agrees name doc index page docs.data := by
  obtain ⟨page, hpage, hsections, hblocks⟩ := Page.exists_headings_render htyped hplain
  refine ⟨page, hpage, ⟨Index.listed?_render hkeys hindex hmem, headings_of_blocks htyped hblocks,
    recordKeys_data hkeys hmem htyped, hsections.trans (Page.map_fst_shownParts htyped), ?_⟩⟩
  refine hblocks.imp fun member block hshows => ⟨hshows.title, ?_⟩
  intro field hfield text htext hne
  have hshown : (Json.field member.2 (.text field)).truthy = true := by
    simpa [htext, Json.truthy] using hne
  have hline := hshows.text hfield hshown
  rwa [htext] at hline

theorem read_data (docs : Docs) {indent : Json} (hindent : indent = .null ∨ ∃ n, indent = .int n) :
    ∃ data, dataText docs indent = .ok data ∧
      (docs.IsStandard → docs.data.depth ≤ maxNesting → Json.read data = .ok docs.data) := by
  obtain ⟨l, hplain, -, htext⟩ := exists_dataText docs hindent
  refine ⟨_, htext, fun hdocs hdepth => ?_⟩
  have hdata : docs.data.Standard := hdocs.sorted.toJson
  rw [Json.read_write hplain (hdata.mono fun _ => Json.TextNames.distinctTexts)
    (by simp [Json.Blanks, Json.IsBlank]), if_pos hdepth, Json.named_of_standard hdata]

/-- All files of a bundle can be made, and its index, its pages and its data agree about each
contract. -/
theorem contents_agree (hkeys : (Table.keys docs).Nodup)
    (htyped : ∀ entry ∈ docs, Page.IsTyped entry.2)
    (hplain : ∀ entry ∈ docs, Page.IsPlainDoc entry.2) {options : RenderOptions}
    (hindent : options.jsonIndent = .null ∨ ∃ n, options.jsonIndent = .int n) :
    ∃ files data index, contents docs options = .ok files ∧
      (Path.ofString dataFile, data) ∈ files ∧
      (docs.IsStandard → docs.data.depth ≤ maxNesting → Json.read data = .ok docs.data) ∧
      Index.render docs options.includeMarkdown = .ok index ∧
      (options.includeHtml = true → (Path.ofString indexFile, index) ∈ files) ∧
      ∀ name doc, (name, doc) ∈ docs → ∃ path page, doc.pagePath = .ok path ∧
        Page.render doc = .ok page ∧
        (options.includeMarkdown = true → (path, page) ∈ files) ∧
        Agrees name doc index page docs.data := by
  obtain ⟨data, hdata, hread⟩ := read_data docs hindent
  obtain ⟨index, hindex⟩ := Index.exists_render_iff.2
    fun entry hentry => isShown_of_isTyped (htyped entry hentry) options.includeMarkdown
  have hagree (name : String) (doc : ContractDoc) (hmem : (name, doc) ∈ docs) :
      ∃ path page, doc.pagePath = .ok path ∧ Page.render doc = .ok page ∧
        Agrees name doc index page docs.data := by
    obtain ⟨source, hsource⟩ := (htyped _ hmem).source
    obtain ⟨page, hpage, hviews⟩ :=
      exists_agreeing_page hkeys hmem (htyped _ hmem) (hplain _ hmem) hindex
    exact ⟨_, page, by rw [ContractDoc.pagePath, hsource], hpage, hviews⟩
  obtain ⟨pages, hpages⟩ := exists_pageFiles options fun entry hentry => by
    obtain ⟨path, page, hpath, hpage, -⟩ := hagree entry.1 entry.2 hentry
    exact ⟨(path, page), pageFile_eq_ok_iff.2 ⟨hpath, hpage⟩⟩
  obtain ⟨last, hlast, hshown⟩ := exists_indexFiles hindex
  refine ⟨_, data, index, contents_eq_ok_iff.2 ⟨data, pages, last, hdata, hpages, hlast, rfl⟩,
    by simp, hread, hindex, fun hhtml => List.mem_append_right _ (hshown hhtml),
    fun name doc hmem => ?_⟩
  obtain ⟨path, page, hpath, hpage, hviews⟩ := hagree name doc hmem
  refine ⟨path, page, hpath, hpage, fun hmarkdown => ?_, hviews⟩
  have hfile : pageFile doc = .ok (path, page) := pageFile_eq_ok_iff.2 ⟨hpath, hpage⟩
  exact List.mem_append_left _ (List.mem_cons_of_mem _ (mem_pageFiles hpages hmarkdown hmem hfile))

/-- A contract with a constructor and two methods, one of which has texts that HTML has to escape.
-/
def counter : ContractDoc where
  source := .str "c.sol"
  name := .str "C"
  title := .str "Counter"
  author := .null
  details := .null
  notice := .str "Counts."
  constructor := .obj [(.text "type", .str "constructor"), (.text "notice", .str "Starts at 0.")]
  fallback := .null
  receive := .null
  events := .obj []
  stateVariables := .null
  methods := .obj [
    (.text "set(uint256)",
      .obj [(.text "notice", .str "Sets <n> & 0."), (.text "details", .str "1")]),
    (.text "get()", .obj [])]
  warnings := []

theorem isTyped_counter : Page.IsTyped counter := by
  have hempty : Page.IsMemberGroup (.obj []) := .inr ⟨[], rfl, by simp⟩
  have hmethods : Page.IsMemberGroup counter.methods := by
    refine .inr ⟨_, rfl, ?_⟩
    simp only [List.forall_mem_cons]
    exact ⟨⟨⟨_, rfl⟩, _, rfl⟩, ⟨⟨_, rfl⟩, _, rfl⟩, by simp⟩
  refine ⟨⟨_, rfl⟩, .inr ⟨_, rfl⟩, .inl rfl, fun special => ?_, ?_⟩
  · cases special with
    | constructor => exact .inr ⟨_, "constructor()", rfl, rfl, rfl⟩
    | fallback => exact .inl rfl
    | receive => exact .inl rfl
  · simp only [List.forall_mem_cons]
    exact ⟨hmethods, hempty, .inl rfl, by simp⟩

theorem isPlainDoc_counter : Page.IsPlainDoc counter := by
  refine ⟨by decide, by decide, by decide, fun part hpart member hmem => ?_⟩
  have hmember (hsignature : Page.IsPlain member.1)
      (htexts : ∀ field ∈ ["notice", "details"],
        (Json.field member.2 (.text field)).truthy = true →
          Page.IsPlain (Json.field member.2 (.text field)).display)
      (hnamed : ∀ field ∈ ["params", "returns"],
        Index.members (Json.field member.2 (.text field)) = []) : Page.IsPlainMember member :=
    ⟨hsignature, htexts, fun field hfield => by simp [hnamed field hfield]⟩
  have hparts : Page.shownMembers counter = [("constructor()", _), ("set(uint256)", _),
      ("get()", _)] := rfl
  have hshown : member ∈ Page.shownMembers counter := List.mem_flatMap.2 ⟨part, hpart, hmem⟩
  simp only [hparts, List.mem_cons, List.not_mem_nil, or_false] at hshown
  rcases hshown with rfl | rfl | rfl
  · exact hmember (by decide) (by decide +kernel) (by decide +kernel)
  · exact hmember (by decide) (by decide +kernel) (by decide +kernel)
  · exact hmember (by decide) (by decide +kernel) (by decide +kernel)

theorem contents_agree_sample :
    Page.IsTyped counter ∧ Page.IsPlainDoc counter ∧
    ∃ files index page, contents [("c.sol:C", counter)] {} = .ok files ∧
      Index.render [("c.sol:C", counter)] true = .ok index ∧ Page.render counter = .ok page ∧
      Index.listed? "c.sol:C" index = some ["set(uint256)", "get()"] ∧
      (Page.headings 3 page).drop 1 = ["`set(uint256)`", "`get()`"] ∧
      recordKeys (Docs.data [("c.sol:C", counter)]) "c.sol:C" =
        [.text "set(uint256)", .text "get()"] ∧
      Page.headings 2 page = ["Constructor", "Methods"] := by
  obtain ⟨files, data, index, hfiles, -, -, hindex, -, hviews⟩ :=
    @contents_agree [("c.sol:C", counter)] (by simp [Table.keys]) (by simpa using isTyped_counter)
      (by simpa using isPlainDoc_counter) {} (.inr ⟨2, rfl⟩)
  obtain ⟨path, page, -, hpage, -, hagrees⟩ := hviews "c.sol:C" counter (by simp)
  exact ⟨isTyped_counter, isPlainDoc_counter, files, index, page, hfiles, hindex, hpage,
    hagrees.listed, hagrees.headings, hagrees.record, hagrees.sections⟩

end Bundle

end NatSpec
