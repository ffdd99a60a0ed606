import NatSpec.Proofs.Bundle.Script
import NatSpec.Proofs.Bundle.Tags

/-!
The outline of the index page. Its pieces are markup from a fixed template, texts of the contracts
and the data. Read one after another they lead back to where they started, with tags that are known
from the shapes of the contracts: which of their texts are shown and how many members they have.
-/

namespace NatSpec

def Piece.text? : Piece → Option String
  | .text s => some s
  | .markup _ | .data _ => none

namespace Index

open Markup (Place Reads tagsFrom reads_literal reads_text reads_value reads_data)

/-! ### The template -/

def kinds : List String :=
  ["method", "event", "state variable"]

/-- What stands in front of the signature of a member. -/
def itemStart (kind : String) : String :=
  "      <li>\n        <span class=\"kind\">" ++ kind ++ "</span><code>"

/-- The markup of which the index page is made. -/
def template : List String :=
  [opening, "  <p>No contracts found.</p>\n", "  <section id=\"", "\">\n    <h2>\n", "<a href=\"",
    "\">", "</a>", "    </h2>\n    <div class=\"source\">", "</div>\n", "<p><strong>",
    "</strong></p>", "<p class=\"notice\">", "</p>", "    <ul class=\"members\">\n", "</code>\n",
    " &mdash; ", "", "      </li>\n", "    </ul>\n  </section>\n", footer, closing]
    ++ kinds.map itemStart

/-- Pieces without data that lead from a place to another, with their texts and tags. -/
structure Shows (start : Place) (ps : List Piece) (texts found : List String) (stop : Place) :
    Prop where
  pieces : ∀ p ∈ ps, (∃ s ∈ template, p = .markup s) ∨ ∃ s, p = .text s
  texts : ps.filterMap Piece.text? = texts
  reads : Reads start (Markup.render ps).toList found stop

variable {start middle stop : Place} {ps qs : List Piece} {shown others found more : List String}

theorem Shows.nil : Shows start [] [] [] start :=
  ⟨by simp, rfl, .nil⟩

theorem Shows.append (h : Shows start ps shown found middle)
    (hmore : Shows middle qs others more stop) :
    Shows start (ps ++ qs) (shown ++ others) (found ++ more) stop where
  pieces := List.forall_mem_append.2 ⟨h.pieces, hmore.pieces⟩
  texts := by rw [List.filterMap_append, h.texts, hmore.texts]
  reads := by
    rw [Markup.render_append, String.toList_append]
    exact h.reads.append hmore.reads

theorem Shows.markup {s : String} (hs : s ∈ template) (hread : Reads start s.toList found middle)
    (h : Shows middle ps shown more stop) :
    Shows start (.markup s :: ps) shown (found ++ more) stop where
  pieces := List.forall_mem_cons.2 ⟨.inl ⟨s, hs, rfl⟩, h.pieces⟩
  texts := h.texts
  reads := by
    rw [Markup.render_cons, String.toList_append]
    exact hread.append h.reads

theorem Shows.text {s : String} (h : Shows .text ps shown found stop) :
    Shows .text (.text s :: ps) (s :: shown) found stop where
  pieces := List.forall_mem_cons.2 ⟨.inr ⟨s, rfl⟩, h.pieces⟩
  texts := congrArg (s :: ·) h.texts
  reads := by
    rw [Markup.render_cons, String.toList_append]
    exact (reads_text s).append h.reads

theorem Shows.value {s : String} {seen : List Char}
    (h : Shows (.value '\x22' seen) ps shown found stop) :
    Shows (.value '\x22' seen) (.text s :: ps) (s :: shown) found stop where
  pieces := List.forall_mem_cons.2 ⟨.inr ⟨s, rfl⟩, h.pieces⟩
  texts := congrArg (s :: ·) h.texts
  reads := by
    rw [Markup.render_cons, String.toList_append]
    exact (reads_value s (by decide : '\x22' ∈ Markup.marks) seen).append h.reads

theorem shows_flatMap {α : Type} {items : List α} {f : α → List Piece} {g h : α → List String}
    (hitems : ∀ a ∈ items, Shows .text (f a) (g a) (h a) .text) :
    Shows .text (items.flatMap f) (items.flatMap g) (items.flatMap h) .text := by
  induction items with
  | nil => exact .nil
  | cons a items ih =>
      simp only [List.flatMap_cons]
      exact (hitems a List.mem_cons_self).append
        (ih fun b hb => hitems b (List.mem_cons_of_mem a hb))

/-! ### Members -/

def shownTexts (v : Json) : List String :=
  if v.truthy then [v.display] else []

theorem shows_shownText {before after : String} (hbefore : before ∈ template)
    (hafter : after ∈ template) (hstart : Reads .text before.toList found .text)
    (hstop : Reads .text after.toList more .text) (v : Json) :
    Shows .text (shownText before v after) (shownTexts v)
      (if v.truthy then found ++ more else []) .text := by
  rw [shownText, shownTexts]
  split
  · simpa using Shows.markup hbefore hstart (.text (.markup hafter hstop .nil))
  · exact .nil

/-- The text of the remark behind a member. -/
def remarkTexts (record : Json) : List String :=
  match record with
  | .obj fields =>
    shownTexts ((Json.field fields "notice").orElse (Json.field fields "details"))
  | _ => []

theorem shows_remark (record : Json) :
    Shows .text (remark record) (remarkTexts record) [] .text := by
  cases record with
  | obj fields =>
      have hbefore : Reads .text " &mdash; ".toList [] .text := reads_literal rfl rfl
      have hafter : Reads .text "".toList [] .text := reads_literal rfl rfl
      simpa [remark, remarkTexts] using shows_shownText (by simp [template]) (by simp [template])
        hbefore hafter ((Json.field fields "notice").orElse (Json.field fields "details"))
  | _ => exact .nil

def memberTags : List String :=
  ["<li>", "<span class=\"\">", "</span>", "<code>", "</code>", "</li>"]

theorem reads_itemStart {kind : String} (h : kind ∈ kinds) :
    Reads .text (itemStart kind).toList ["<li>", "<span class=\"\">", "</span>", "<code>"]
      .text := by
  have hkind : Reads .text kind.toList [] .text := by
    simp only [kinds, List.mem_cons, List.not_mem_nil, or_false] at h
    rcases h with rfl | rfl | rfl <;> exact reads_literal rfl rfl
  have hbefore : Reads .text "      <li>\n        <span class=\"kind\">".toList
      ["<li>", "<span class=\"\">"] .text := reads_literal rfl rfl
  have hafter : Reads .text "</span><code>".toList ["</span>", "<code>"] .text :=
    reads_literal rfl rfl
  unfold itemStart
  simp only [String.toList_append]
  exact (hbefore.append hkind).append hafter

theorem shows_memberItem {kind : String} (h : kind ∈ kinds) (signature : String) (record : Json) :
    Shows .text (memberItem kind signature record) (signature :: remarkTexts record) memberTags
      .text := by
  have hstop : Shows .text [.markup "      </li>\n"] [] ["</li>"] .text :=
    .markup (by simp [template]) (reads_literal rfl rfl) .nil
  have hstart : Shows .text [.markup (itemStart kind), .text signature, .markup "</code>\n"]
      [signature] ["<li>", "<span class=\"\">", "</span>", "<code>", "</code>"] .text :=
    .markup (List.mem_append_right _ (List.mem_map_of_mem h)) (reads_itemStart h)
      (.text (.markup (by simp [template]) (reads_literal rfl rfl) .nil))
  have hitem := (hstart.append (shows_remark record)).append hstop
  simp only [List.append_nil] at hitem
  exact hitem

def groupTexts (group : Json) : List String :=
  (members group).flatMap fun entry => entry.1.display :: remarkTexts entry.2

theorem shows_groupItems {kind : String} (hkind : kind ∈ kinds) {group : Json}
    (h : groupItems kind group = .ok ps) :
    Shows .text ps (groupTexts group)
      (List.replicate (members group).length memberTags).flatten .text := by
  obtain ⟨-, rfl⟩ := groupItems_eq_ok_iff.1 h
  rw [← List.map_const', ← List.flatMap_def]
  exact shows_flatMap fun entry _ => shows_memberItem hkind entry.1.display entry.2

/-! ### Contracts -/

/-- What of a contract the outline depends on: whether its page is linked, which of its texts are
shown, and how many members it has. -/
structure Shape where
  page : Bool
  title : Bool
  notice : Bool
  details : Bool
  methods : Nat
  events : Nat
  stateVariables : Nat
  deriving DecidableEq, Repr

def shape (pages : Bool) (doc : ContractDoc) : Shape where
  page := (pageOf pages doc).isSome
  title := doc.title.truthy
  notice := doc.notice.truthy
  details := doc.details.truthy
  methods := (members doc.methods).length
  events := (members doc.events).length
  stateVariables := (members doc.stateVariables).length

/-- The tags of the section of a contract. -/
def Shape.tags (s : Shape) : List String :=
  ["<section id=\"\">", "<h2>"]
    ++ (if s.page then ["<a href=\"\">", "</a>"] else [])
    ++ ["</h2>", "<div class=\"\">", "</div>"]
    ++ (if s.title then ["<p>", "<strong>", "</strong>", "</p>"] else [])
    ++ (if s.notice then ["<p class=\"\">", "</p>"] else [])
    ++ (if s.details then ["<p class=\"\">", "</p>"] else [])
    ++ ["<ul class=\"\">"]
    ++ (List.replicate s.methods memberTags).flatten
    ++ (List.replicate s.events memberTags).flatten
    ++ (List.replicate s.stateVariables memberTags).flatten
    ++ ["</ul>", "</section>"]

/-- The path of the page of a contract, if it is linked, and its name. -/
def headingTexts (doc : ContractDoc) (page : Option Path) : List String :=
  match page with
  | some path => [path.toString, doc.name.display]
  | none => [doc.name.display]

def contractTexts (name : String) (doc : ContractDoc) (page : Option Path) : List String :=
  [name] ++ headingTexts doc page ++ [doc.source.display] ++ shownTexts doc.title
    ++ shownTexts doc.notice ++ shownTexts doc.details ++ groupTexts doc.methods
    ++ groupTexts doc.events ++ groupTexts doc.stateVariables

theorem shows_heading (doc : ContractDoc) (page : Option Path) :
    Shows .text (heading doc page) (headingTexts doc page)
      (if page.isSome then ["<a href=\"\">", "</a>"] else []) .text := by
  cases page with
  | none => exact .text .nil
  | some path =>
      exact .markup (by simp [template]) (reads_literal rfl rfl)
        (.value (.markup (by simp [template]) (reads_literal rfl rfl)
          (.text (.markup (by simp [template]) (reads_literal rfl rfl) .nil))))

theorem shows_contractSection {name : String} {pages : Bool} {doc : ContractDoc}
    (h : contractSection name doc (pageOf pages doc) = .ok ps) :
    Shows .text ps (contractTexts name doc (pageOf pages doc)) (shape pages doc).tags .text := by
  simp only [contractSection, bind_eq_ok_iff] at h
  obtain ⟨methods, hmethods, events, hevents, stateVariables, hvariables, h⟩ := h
  obtain rfl := Except.ok.inj h
  have hstart : Shows .text [.markup "  <section id=\"", .text name, .markup "\">\n    <h2>\n"]
      [name] ["<section id=\"\">", "<h2>"] .text :=
    .markup (by simp [template]) (reads_literal rfl rfl)
      (.value (.markup (by simp [template]) (reads_literal rfl rfl) .nil))
  have hsource : Shows .text [.markup "    </h2>\n    <div class=\"source\">",
      .text doc.source.display, .markup "</div>\n"] [doc.source.display]
      ["</h2>", "<div class=\"\">", "</div>"] .text :=
    .markup (by simp [template]) (reads_literal rfl rfl)
      (.text (.markup (by simp [template]) (reads_literal rfl rfl) .nil))
  have htitle : Shows .text (shownText "<p><strong>" doc.title "</strong></p>")
      (shownTexts doc.title)
      (if doc.title.truthy then ["<p>", "<strong>", "</strong>", "</p>"] else []) .text :=
    shows_shownText (by simp [template]) (by simp [template]) (reads_literal rfl rfl)
      (reads_literal rfl rfl) doc.title
  have hremark : ∀ v : Json, Shows .text (shownText "<p class=\"notice\">" v "</p>")
      (shownTexts v) (if v.truthy then ["<p class=\"\">", "</p>"] else []) .text :=
    shows_shownText (by simp [template]) (by simp [template]) (reads_literal rfl rfl)
      (reads_literal rfl rfl)
  have hlist : Shows .text [.markup "    <ul class=\"members\">\n"] [] ["<ul class=\"\">"] .text :=
    .markup (by simp [template]) (reads_literal rfl rfl) .nil
  have hstop : Shows .text [.markup "    </ul>\n  </section>\n"] [] ["</ul>", "</section>"] .text :=
    .markup (by simp [template]) (reads_literal rfl rfl) .nil
  have hsection := ((((((((((hstart.append (shows_heading doc (pageOf pages doc))).append
    hsource).append htitle).append (hremark doc.notice)).append (hremark doc.details)).append
    hlist).append (shows_groupItems (by simp [kinds]) hmethods)).append
    (shows_groupItems (by simp [kinds]) hevents)).append
    (shows_groupItems (by simp [kinds]) hvariables)).append hstop)
  simp only [List.append_nil] at hsection
  exact hsection

/-! ### The page -/

/-- The shapes of the contracts in increasing order of their names. -/
def shapes (docs : Docs) (pages : Bool) : List Shape :=
  docs.sorted.map fun entry => shape pages entry.2

/-- The texts of the contracts that are shown, in increasing order of the names of the contracts. -/
def texts (docs : Docs) (pages : Bool) : List String :=
  docs.sorted.flatMap fun entry => contractTexts entry.1 entry.2 (pageOf pages entry.2)

/-- The tags in front of the first contract. -/
def openingTags : List String :=
  ["<!DOCTYPE html>", "<html lang=\"\">", "<head>", "<meta charset=\"\">",
    "<meta name=\"\" content=\"\">", "<title>", "</title>", "<style>", "</style>", "</head>",
    "<body>", "<h1>", "</h1>"]

/-- The tags in front of the data, with contracts of some shapes. -/
def frontTags (shapes : List Shape) : List String :=
  openingTags ++ (if shapes.isEmpty then ["<p>", "</p>"] else []) ++ shapes.flatMap Shape.tags
    ++ ["<footer class=\"\">", "</footer>", "<script id=\"\" type=\"\">"]

/-- The tags of a page with contracts of some shapes. -/
def skeleton (shapes : List Shape) : List String :=
  frontTags shapes ++ ["</script>", "</body>", "</html>"]

/-- Lines each of which is read as a text. -/
theorem reads_lines {lines : List String} {tags : List (List String)}
    (h : List.Forall₂ (fun line found => Reads .text line.toList found .text) lines tags) :
    Reads .text ("\n".intercalate lines).toList tags.flatten .text := by
  rw [String.toList_intercalate]
  induction h with
  | nil => exact .nil
  | @cons line found lines tags hline hlines ih =>
      cases hlines with
      | nil => simpa using hline
      | cons hnext hmore =>
          have hfeed : Reads .text "\n".toList [] .text := reads_literal rfl rfl
          simpa [List.intercalate] using (hline.append hfeed).append ih

set_option maxRecDepth 2000 in
theorem reads_opening : Reads .text opening.toList openingTags .text := by
  unfold opening
  refine reads_lines (?_ : List.Forall₂ _ _ [["<!DOCTYPE html>"], ["<html lang=\"\">"], ["<head>"],
    ["<meta charset=\"\">"], ["<meta name=\"\" content=\"\">"], ["<title>", "</title>"],
    ["<style>"], [], [], [], [], [], [], [], [], ["</style>"], ["</head>"], ["<body>"],
    ["<h1>", "</h1>"], []])
  -- Two lines of the style sheet are joined of two parts.
  repeat
    refine .cons ?_ ?_
    · first
        | rw [String.toList_append]; exact (reads_literal rfl rfl).append (reads_literal rfl rfl)
        | exact reads_literal rfl rfl
  exact .nil

theorem reads_footer : Reads .text footer.toList
    ["<footer class=\"\">", "</footer>", "<script id=\"\" type=\"\">"] (.data false) := by
  have hbefore : Reads .text "  <footer class=\"source\">Generated by ".toList
      ["<footer class=\"\">"] .text := reads_literal rfl rfl
  have hname : Reads .text programName.toList [] .text := reads_literal rfl rfl
  have hblank : Reads .text " ".toList [] .text := reads_literal rfl rfl
  have hversion : Reads .text programVersion.toList [] .text := reads_literal rfl rfl
  have hafter : Reads .text "</footer>\n".toList ["</footer>"] .text := reads_literal rfl rfl
  have hscript : Reads .text "  <script id=\"docgen-data\" type=\"application/json\">".toList
      ["<script id=\"\" type=\"\">"] (.data false) := reads_literal rfl rfl
  unfold footer
  simp only [String.toList_append]
  exact ((((hbefore.append hname).append hblank).append hversion).append hafter).append hscript

theorem reads_closing (opened : Bool) :
    Reads (.data opened) closing.toList ["</script>", "</body>", "</html>"] .text := by
  unfold closing
  cases opened <;> exact reads_literal rfl rfl

theorem shows_placeholder (docs : Docs) :
    Shows .text (placeholder docs) [] (if docs.isEmpty then ["<p>", "</p>"] else []) .text := by
  rw [placeholder]
  split
  · exact .markup (by simp [template]) (reads_literal rfl rfl) .nil
  · exact .nil

theorem shows_sections {docs : Docs} {pages : Bool} {sections : List (List Piece)}
    (h : List.Forall₂ (fun entry shown =>
      contractSection entry.1 entry.2 (pageOf pages entry.2) = .ok shown) docs sections) :
    Shows .text sections.flatten
      (docs.flatMap fun entry => contractTexts entry.1 entry.2 (pageOf pages entry.2))
      (docs.flatMap fun entry => (shape pages entry.2).tags) .text := by
  induction h with
  | nil => exact .nil
  | cons hshown _ ih =>
      simp only [List.flatMap_cons, List.flatten_cons]
      exact (shows_contractSection hshown).append ih

/-- All that stands in front of the data. -/
theorem shows_front {docs : Docs} {pages : Bool} {sections : List (List Piece)}
    (h : List.Forall₂ (fun entry shown =>
      contractSection entry.1 entry.2 (pageOf pages entry.2) = .ok shown) docs.sorted sections) :
    Shows .text (.markup opening :: (placeholder docs ++ sections.flatten ++ [.markup footer]))
      (texts docs pages) (frontTags (shapes docs pages)) (.data false) := by
  have hfooter : Shows .text [.markup footer] []
      ["<footer class=\"\">", "</footer>", "<script id=\"\" type=\"\">"] (.data false) :=
    .markup (by simp [template]) reads_footer .nil
  have hfront : Shows .text _ _ _ _ := .markup (by simp [template]) reads_opening
    (((shows_placeholder docs).append (shows_sections h)).append hfooter)
  have hempty : (shapes docs pages).isEmpty = docs.isEmpty := by
    rw [shapes, List.isEmpty_map]
    exact docs.sorted_perm.isEmpty_eq
  rw [frontTags, hempty, shapes, List.flatMap_map]
  simpa only [texts, List.nil_append, List.append_nil, List.append_assoc] using hfront

/-- Data without an end of a script add no tag. -/
theorem tags_page {front : List Piece} (h : Shows .text front shown found (.data false))
    {data : String} (hdata : Text.occurs "</" data = false) :
    Markup.tags (Markup.render front ++ data ++ closing) =
      found ++ ["</script>", "</body>", "</html>"] := by
  rw [← Bool.not_eq_true, Text.occurs_iff, String.toList_ofList] at hdata
  obtain ⟨opened, hreads⟩ := reads_data hdata
    (by simp : false = true → data.toList.head? ≠ some '/')
  have hpage := (h.reads.append hreads).append (reads_closing opened)
  simpa only [Markup.tags, String.toList_append, List.append_nil] using hpage.tags

/-- The index page is made of fixed markup, of texts of the contracts that are escaped, and of the
data in its script. Its tags, with the data and without them, depend on the shapes of the contracts
alone, whatever their texts are. -/
theorem render_skeleton (docs : Docs) (pages : Bool) :
    ((∃ page, render docs pages = .ok page) ↔ ∀ entry ∈ docs, IsShown pages entry.2) ∧
    (∀ s, (∀ c ∈ ['<', '>', '\x22', '\x27'], c ∉ (Markup.escape s).toList) ∧
      Markup.unescape (Markup.escape s) = s) ∧
    (∀ page, render docs pages = .ok page → ∃ front : List Piece,
      page = Markup.render front ++ Markup.guardScript docs.data.text ++ closing ∧
      (∀ p ∈ front, (∃ s ∈ template, p = .markup s) ∨ ∃ s, p = .text s) ∧
      front.filterMap Piece.text? = texts docs pages ∧
      Markup.tags (Markup.render front ++ closing) = skeleton (shapes docs pages) ∧
      Markup.tags page = skeleton (shapes docs pages)) ∧
    ∀ docs' pages' page page', render docs pages = .ok page → render docs' pages' = .ok page' →
      shapes docs pages = shapes docs' pages' → Markup.tags page = Markup.tags page' := by
  have htags : ∀ {docs pages page}, render docs pages = .ok page →
      Markup.tags page = skeleton (shapes docs pages) := by
    intro docs pages page hpage
    obtain ⟨sections, hsections, rfl⟩ := render_eq_ok hpage
    exact tags_page (shows_front hsections) (Markup.occurs_guardScript docs.data.text)
  refine ⟨exists_render_iff, fun s => ⟨Markup.escape_free s, Markup.unescape_escape s⟩,
    fun page hpage => ?_, fun docs' pages' page page' hpage hpage' hsame => ?_⟩
  · obtain ⟨sections, hsections, hparts⟩ := render_eq_ok hpage
    have hfront := shows_front hsections
    have hnone := tags_page hfront (by decide : Text.occurs "</" "" = false)
    rw [String.append_empty] at hnone
    exact ⟨_, hparts, hfront.pieces, hfront.texts, hnone, htags hpage⟩
  · rw [htags hpage, htags hpage', hsame]

/-- A contract whose texts are written like tags. -/
def tagged : ContractDoc where
  source := .str "</div><script>"
  name := .str "\"><b>"
  title := .str "<i>'&amp;"
  author := .null
  details := .str ""
  notice := .null
  constructor := .null
  fallback := .null
  receive := .null
  events := .obj []
  stateVariables := .null
  methods := .obj [(.text "<f>()", .obj [(.text "details", .str "</li></ul>")])]
  warnings := []

/-- None of its texts adds a tag. -/
theorem render_skeleton_sample :
    ∃ page, render [("</section>", tagged)] true = .ok page ∧
      Markup.tags page = openingTags ++
        ["<section id=\"\">", "<h2>", "<a href=\"\">", "</a>", "</h2>", "<div class=\"\">", "</div>",
          "<p>", "<strong>", "</strong>", "</p>", "<ul class=\"\">", "<li>", "<span class=\"\">",
          "</span>", "<code>", "</code>", "</li>", "</ul>", "</section>", "<footer class=\"\">",
          "</footer>", "<script id=\"\" type=\"\">", "</script>", "</body>", "</html>"] := by
  obtain ⟨hshown, -, htags, -⟩ := render_skeleton [("</section>", tagged)] true
  have hgroups : IsShown true tagged :=
    ⟨fun _ => ⟨_, rfl⟩, fun _ => rfl, fun _ => rfl, by simp [IsGroup, tagged, Json.truthy]⟩
  obtain ⟨page, hpage⟩ := hshown.2 (by simpa using hgroups)
  obtain ⟨-, -, -, -, -, hfound⟩ := htags page hpage
  have hshapes : shapes [("</section>", tagged)] true = [⟨true, true, false, false, 1, 0, 0⟩] := by
    rw [shapes, Docs.sorted, List.mergeSort_singleton]
    decide
  exact ⟨page, hpage, by rw [hfound, hshapes]; rfl⟩

end Index

end NatSpec
