import NatSpec.Proofs.Bundle.Fits
import NatSpec.Proofs.Bundle.Outline
import NatSpec.Proofs.Bundle.Pages
import NatSpec.Proofs.FileTree.Ending
import NatSpec.Proofs.Table.Overlay

/-!
What a bundle is once it was written. Its data stand in one file and its index in another one, and
each place to which a page resolves holds the last page that resolves to it. A page has a name of
its own kind, so it is written over one of these two files only through a link outside of the
bundle.
-/

namespace NatSpec

open FileTree (Laid)

/-- What was laid down last in a place stands there. -/
theorem FileTree.Laid.at?_last {t t' : FileTree} (before : List (Location × Entry))
    {after : List (Location × Entry)} {place : Location} {entry : Entry}
    (h : Laid (before ++ (place, entry) :: after) t t')
    (hafter : ∀ other ∈ after, other.1 ≠ place) : t'.at? place = some entry := by
  have hnone : (Table.ofList after).get? place = none :=
    Table.get?_ofList_eq_none_iff.2 fun other hother => beq_eq_false_iff_ne.2 (hafter other hother)
  refine h.item place entry ?_
  rw [Table.get?_ofList_append, Table.get?_ofList_cons, hnone]
  simp

/-- Files other than the ones that were laid down are as they were. -/
theorem FileTree.Laid.keepsFiles {t t' : FileTree} {items : List (Location × Entry)}
    (h : Laid items t t') :
    FileTree.KeepsFiles (items.map fun item => .ofTop item.1) t t' := by
  intro place content hplace hat
  obtain ⟨content', hat'⟩ := h.grows.keeps.file place content hat
  by_contra hchanged
  have hmem : (place, Entry.file content') ∈ items := by
    refine h.mem_of_file hat' fun hsame => hchanged ?_
    rw [hat', hat.symm.trans hsame]
  exact hplace (List.mem_map.2 ⟨_, hmem, rfl⟩)

namespace Bundle

variable {t t' : FileTree} {directory : Path} {root : Location} {docs : Docs}
  {options : RenderOptions} {written : List Path}

/-- The page of a contract resolves to a place. -/
def LandsAt (t : FileTree) (directory : Path) (doc : ContractDoc) (place : Location) : Prop :=
  ∃ page, doc.pagePath = .ok page ∧ t.resolve (directory.join page) = .ok place

/-- The places of the pages inside a bundle, one for each contract if pages are wanted. -/
def PagesAt (t : FileTree) (directory : Path) (root : Location) (docs : Docs)
    (options : RenderOptions) (places : List Location) : Prop :=
  if options.includeMarkdown then
    List.Forall₂ (fun entry place => LandsAt t directory entry.2 place ∧ root <+: place) docs places
  else places = []

/-- The place of the index, if it is wanted. -/
def indexPlaces (root : Location) (options : RenderOptions) : List Location :=
  if options.includeHtml then [root ++ [indexFile]] else []

/-- What was written, and what stands where when a bundle was written. -/
structure Final (docs : Docs) (options : RenderOptions) (directory : Path) (root : Location)
    (pages : List Location) (written : List Path) (t t' : FileTree) : Prop where
  order : written = ((root ++ [dataFile]) :: pages ++ indexPlaces root options).map .ofTop
  places : PagesAt t directory root docs options pages
  data : ∃ text, dataText docs options.jsonIndent = .ok text ∧
    (root ++ [dataFile] ∉ pages → t'.at? (root ++ [dataFile]) = some (.file text.toUTF8))
  index : options.includeHtml = true → ∃ text, Index.render docs options.includeMarkdown = .ok text ∧
    t'.at? (root ++ [indexFile]) = some (.file text.toUTF8)
  page : options.includeMarkdown = true → ∀ before name doc after place,
    docs = before ++ (name, doc) :: after → LandsAt t directory doc place →
    (∀ other ∈ after, ¬LandsAt t directory other.2 place) → place ∉ indexPlaces root options →
    ∃ text, Page.render doc = .ok text ∧ t'.at? place = some (.file text.toUTF8)
  ends : ∀ entry ∈ docs, ∀ page, entry.2.pagePath = .ok page → ∀ file ∈ [dataFile, indexFile],
    t.resolve (directory.join page) = .ok (root ++ [file]) → t.EndsInLink (directory.join page)
  rest : FileTree.KeepsFiles written t t'

theorem Final.mem_tail {pages : List Location} {place : Location}
    (h : Final docs options directory root pages written t t') (hmem : place ∈ pages) :
    .ofTop place ∈ written.tail := by
  rw [h.order]
  exact List.mem_map_of_mem (List.mem_append_left _ hmem)

/-! ### Names of pages -/

/-- The path of a page ends in a name with the suffix of pages. -/
theorem exists_name_of_pagePath {doc : ContractDoc} {page : Path} (h : doc.pagePath = .ok page)
    (directory : Path) :
    (directory.join page).parts ≠ [] ∧ ∃ stem, (directory.join page).name = stem ++ ".md" := by
  obtain ⟨parts, stem, hparts⟩ : ∃ parts stem,
      (Path.ofString (doc.name.display ++ ".md")).parts = parts ++ [stem ++ ".md"] :=
    Path.exists_ofString_append _ (by decide) (by decide)
  have hjoin (base p : Path) (init : List String) (hp : p.parts = init ++ [stem ++ ".md"]) :
      ∃ init, (base.join p).parts = init ++ [stem ++ ".md"] := by
    unfold Path.join
    split
    · exact ⟨base.parts ++ init, by simp [hp]⟩
    · exact ⟨init, hp⟩
  unfold ContractDoc.pagePath at h
  split at h
  · rename_i source _
    obtain rfl := Except.ok.inj h
    obtain ⟨init, hinit⟩ := hjoin (Path.ofString pagesDirectory / source)
      (Path.ofString (doc.name.display ++ ".md")) parts hparts
    obtain ⟨init, hinit⟩ := hjoin directory _ init hinit
    refine ⟨?_, stem, ?_⟩
    · rw [Path.div_eq, hinit]
      simp
    · rw [Path.name, Path.div_eq, hinit]
      simp
  · cases h

theorem append_md_ne {file : String} (hfile : file.toList.getLast? ≠ some 'd') (stem : String) :
    stem ++ ".md" ≠ file := by
  rintro rfl
  simp [String.toList_append] at hfile

/-- A page that resolves to one of the two other files of a bundle has a path that ends in a link.
-/
theorem Opened.endsInLink (h : Opened directory root t) {doc : ContractDoc} {page : Path}
    (hpage : doc.pagePath = .ok page) {file : String} (hfile : file ∈ [dataFile, indexFile])
    (hresolve : t.resolve (directory.join page) = .ok (root ++ [file])) :
    t.EndsInLink (directory.join page) := by
  obtain ⟨hne, stem, hname⟩ := exists_name_of_pagePath hpage directory
  have hlast : ∀ file ∈ [dataFile, indexFile], file.toList.getLast? ≠ some 'd' := by decide
  have hother : stem ++ ".md" ≠ file := append_md_ne (hlast file hfile) stem
  by_contra hlink
  have hdot := Path.noDot_join h.noDot (noDot_pagePath hpage)
  obtain ⟨upper, hplace⟩ := h.based.exists_of_resolve hdot hne
    (hname ▸ append_md_ne (by decide) stem) hresolve hlink
  have hlast := (List.append_inj' hplace rfl).2
  rw [hname] at hlast
  exact hother (List.cons.inj hlast).1.symm

/-! ### Writing -/

theorem PageLands.landsAt {doc : ContractDoc} {item : Location × Entry}
    (h : PageLands t directory root doc item) : LandsAt t directory doc item.1 := by
  obtain ⟨file, hfile, hlands⟩ := h
  exact ⟨file.1, (pageFile_eq_ok_iff.1 hfile).1, hlands.resolve⟩

theorem LandsAt.unique {doc : ContractDoc} {place other : Location}
    (h : LandsAt t directory doc place) (h' : LandsAt t directory doc other) : place = other := by
  obtain ⟨page, hpage, hplace⟩ := h
  obtain ⟨page', hpage', hplace'⟩ := h'
  obtain rfl := Except.ok.inj (hpage.symm.trans hpage')
  exact Except.ok.inj (hplace.symm.trans hplace')

/-- At and below a directory without links a file lands under its name in the directory. -/
theorem Opened.place_eq (hopened : Opened directory root t)
    (hlinks : ∀ place, root <+: place → ∀ target, t.at? place ≠ some (.link target))
    {file : String} (hfile : file ≠ "..") (hpath : Path.ofString file = ⟨.here, [file]⟩)
    {text : String} {item : Location × Entry}
    (h : Lands t directory root (Path.ofString file, text) item) : item.1 = root ++ [file] := by
  have hresolve := h.resolve
  rw [hpath] at hresolve
  exact hopened.based.resolve_child hopened.noDot hopened.resolve hfile
    (hlinks _ (List.prefix_append _ _)) hresolve

namespace Items

variable {data : Location × Entry} {pages index : List (Location × Entry)}
  (h : Items docs options t directory root data pages index)
include h

theorem pagesAt : PagesAt t directory root docs options (pages.map Prod.fst) := by
  have hpages := h.pages_land
  unfold PagesAt
  split
  · rename_i hwanted
    rw [if_pos hwanted] at hpages
    rw [List.forall₂_map_right_iff]
    refine hpages.imp fun entry item hitem => ⟨hitem.landsAt, ?_⟩
    obtain ⟨file, -, hlands⟩ := hitem
    exact hlands.inside
  · rename_i hnone
    rw [if_neg hnone] at hpages
    rw [hpages]
    rfl

section

variable (hopened : Opened directory root t)
  (hlinks : ∀ place, root <+: place → ∀ target, t.at? place ≠ some (.link target))
include hopened hlinks

theorem place_data : data.1 = root ++ [dataFile] := by
  obtain ⟨text, -, hlands⟩ := h.data_lands
  exact hopened.place_eq hlinks (by decide) (by decide) hlands

theorem map_index : index.map Prod.fst = indexPlaces root options := by
  have hindex := h.index_lands
  unfold indexPlaces
  split
  · rename_i hwanted
    rw [if_pos hwanted] at hindex
    obtain ⟨text, item, -, hlands, rfl⟩ := hindex
    rw [List.map_singleton, hopened.place_eq hlinks (by decide) (by decide) hlands]
  · rename_i hnone
    rw [if_neg hnone] at hindex
    rw [hindex]
    rfl

end

variable {t₁ : FileTree} (hlaid : Laid (data :: pages ++ index) t₁ t')
include hlaid

/-- The data stand in their file if nothing was written over them. -/
theorem exists_data (hpages : data.1 ∉ pages.map Prod.fst) (hindex : data.1 ∉ index.map Prod.fst) :
    ∃ text, dataText docs options.jsonIndent = .ok text ∧
      t'.at? data.1 = some (.file text.toUTF8) := by
  obtain ⟨text, htext, hlands⟩ := h.data_lands
  refine ⟨text, htext, ?_⟩
  rw [← hlands.entry]
  refine Laid.at?_last [] hlaid fun other hother heq => ?_
  rcases List.mem_append.1 hother with hother | hother
  · exact hpages (List.mem_map.2 ⟨other, hother, heq⟩)
  · exact hindex (List.mem_map.2 ⟨other, hother, heq⟩)

/-- The index stands in its file, over whatever was written there before. -/
theorem exists_index (hwanted : options.includeHtml = true) :
    ∃ text item, Index.render docs options.includeMarkdown = .ok text ∧ index = [item] ∧
      t'.at? item.1 = some (.file text.toUTF8) := by
  have hindex := h.index_lands
  rw [if_pos hwanted] at hindex
  obtain ⟨text, item, htext, hlands, rfl⟩ := hindex
  refine ⟨text, item, htext, rfl, ?_⟩
  rw [← hlands.entry]
  exact hlaid.at?_last (data :: pages) (by simp)

/-- The page of the last contract that resolves to a place stands there, unless the index does. -/
theorem exists_page (hwanted : options.includeMarkdown = true) {before after : Docs} {name : String}
    {doc : ContractDoc} {place : Location} (hdocs : docs = before ++ (name, doc) :: after)
    (hplace : LandsAt t directory doc place)
    (hafter : ∀ other ∈ after, ¬LandsAt t directory other.2 place)
    (hindex : place ∉ index.map Prod.fst) :
    ∃ text, Page.render doc = .ok text ∧ t'.at? place = some (.file text.toUTF8) := by
  have hpages := h.pages_land
  rw [if_pos hwanted, hdocs] at hpages
  obtain ⟨earlier, rest, -, hrest, rfl⟩ := exists_of_forall₂_append hpages
  obtain ⟨item, later, hitem, hlater, rfl⟩ := List.forall₂_cons_left_iff.1 hrest
  obtain rfl := hplace.unique hitem.landsAt
  obtain ⟨file, hfile, hland⟩ := hitem
  refine ⟨file.2, (pageFile_eq_ok_iff.1 hfile).2, ?_⟩
  -- What is written behind the page lands in other places: later pages, and then the index.
  have hsplit : data :: (earlier ++ item :: later) ++ index =
      (data :: earlier) ++ item :: (later ++ index) := by simp
  rw [hsplit] at hlaid
  rw [← hland.entry]
  refine hlaid.at?_last (data :: earlier) fun other hother heq => ?_
  rcases List.mem_append.1 hother with hother | hother
  · obtain ⟨entry, hentry, hlands⟩ := exists_left_of_forall₂ hlater hother
    exact hafter entry hentry (heq ▸ hlands.landsAt)
  · exact hindex (List.mem_map.2 ⟨other, hother, heq⟩)

end Items

/-- The final state of a render. A bundle that was written to a directory at and below which there
were no links holds its data, its pages, later ones over earlier ones, and its index over all of
them. A page takes the place of the data or of the index only if its path ends in a link, which then
is outside of the directory. -/
theorem final_of_render (hsound : t.Sound) (hdot : "." ∉ directory.parts)
    (hlinks : ∀ root, t.resolve directory = .ok root → ∀ place, root <+: place →
      ∀ target, t.at? place ≠ some (.link target))
    (h : render docs directory options t = (.ok written, t')) :
    ∃ root pages, t.resolve directory = .ok root ∧
      Final docs options directory root pages written t t' := by
  obtain ⟨root, data, pages, index, t₁, hfits, rfl, hlaid⟩ :=
    exists_fits_of_render hsound.based hdot (fun root hroot => .inr (hlinks root hroot)) h
  have hopened := hfits.opened
  have hnone := hlinks root hopened.resolve
  have hdata := hfits.items.place_data hopened hnone
  have hindex := hfits.items.map_index hopened hnone
  have hother : root ++ [dataFile] ∉ indexPlaces root options := by
    unfold indexPlaces
    split
    · simp [dataFile, indexFile]
    · simp
  refine ⟨root, pages.map Prod.fst, hopened.resolve, ?_, hfits.items.pagesAt, ?_, ?_, ?_, ?_, ?_⟩
  · rw [← hindex, ← hdata]
    simp [Function.comp_def]
  · obtain ⟨text, htext, -⟩ := hfits.items.data_lands
    refine ⟨text, htext, fun hfree => ?_⟩
    obtain ⟨text', htext', hat⟩ :=
      hfits.items.exists_data hlaid (hdata ▸ hfree) (hdata ▸ hindex ▸ hother)
    obtain rfl := Except.ok.inj (htext.symm.trans htext')
    rwa [hdata] at hat
  · intro hwanted
    obtain ⟨text, item, htext, rfl, hat⟩ := hfits.items.exists_index hlaid hwanted
    rw [indexPlaces, if_pos hwanted] at hindex
    rw [(List.cons.inj hindex).1] at hat
    exact ⟨text, htext, hat⟩
  · intro hwanted before name doc after place hdocs hplace hafter hnot
    exact hfits.items.exists_page hlaid hwanted hdocs hplace hafter (hindex ▸ hnot)
  · intro entry hentry page hpage file hfile hresolve
    exact hopened.endsInLink hpage hfile hresolve
  · have hgrows := FileTree.makeDirectories_grows (P := fun _ => False) directory t
    rw [hfits.made] at hgrows
    exact hgrows.keepsFiles.append hlaid.keepsFiles

/-- Two contracts that share a page, and one whose page climbs to the top of the bundle. -/
def sharedDocs : Docs :=
  [("./A.sol:A", emptyDoc "./A.sol" "A"), ("A.sol:A", emptyDoc "A.sol" "A"),
    ("..:B", emptyDoc ".." "B")]

/-- A bundle that was begun, with a file of another kind. -/
def begunBundle : FileTree :=
  ⟨[], [(["out"], .directory), (["out", "old.txt"], .file .empty),
    (["out", "contracts"], .directory), (["out", "contracts", "A.sol"], .directory)]⟩

theorem not_link_begunBundle (place : Location) (target : String) :
    begunBundle.at? place ≠ some (.link target) :=
  FileTree.not_link_of_linkCount (by decide) place target

theorem resolve_climbing :
    begunBundle.resolve ((Path.ofTop ["out"]).join ⟨.here, ["contracts", "..", "B.md"]⟩) =
      .ok ["out", "B.md"] := by
  have hleads : begunBundle.Leads 0 [] ["out", "contracts", "..", "B.md"] ["out", "B.md"] :=
    .step (by decide) nofun (.step (by decide) nofun (.up (.step (by decide) nofun .done)))
  exact hleads.resolve_eq (by decide) (fun upper _ => not_link_begunBundle upper) (by decide)

theorem exists_contents_sharedDocs : ∃ data first second third index,
    contents sharedDocs {} =
      .ok [(⟨.here, ["docgen-data.json"]⟩, data), (⟨.here, ["contracts", "A.sol", "A.md"]⟩, first),
        (⟨.here, ["contracts", "A.sol", "A.md"]⟩, second),
        (⟨.here, ["contracts", "..", "B.md"]⟩, third), (⟨.here, ["index.html"]⟩, index)] := by
  obtain ⟨index, hindex⟩ : ∃ index, Index.render sharedDocs true = .ok index := by
    refine Index.exists_render_iff.2 fun entry hentry => ?_
    have hempty (source name : String) : Index.IsShown true (emptyDoc source name) :=
      ⟨fun _ => ⟨_, rfl⟩, nofun, nofun, nofun⟩
    simp only [sharedDocs, List.mem_cons, List.not_mem_nil, or_false] at hentry
    rcases hentry with rfl | rfl | rfl <;> exact hempty _ _
  obtain ⟨data, hdata⟩ : ∃ data, dataText sharedDocs (.int 2) = .ok data := by
    obtain ⟨layout, -, -, hdata⟩ := exists_dataText sharedDocs (.inr ⟨2, rfl⟩)
    exact ⟨_, hdata⟩
  obtain ⟨first, second, third, hfirst, hsecond, hthird⟩ : ∃ first second third,
      Page.render (emptyDoc "./A.sol" "A") = .ok first ∧
      Page.render (emptyDoc "A.sol" "A") = .ok second ∧
      Page.render (emptyDoc ".." "B") = .ok third := ⟨_, _, _, rfl, rfl, rfl⟩
  have hdataPath : Path.ofString dataFile = ⟨.here, ["docgen-data.json"]⟩ := by decide
  have hindexPath : Path.ofString indexFile = ⟨.here, ["index.html"]⟩ := by decide
  refine ⟨data, first, second, third, index, ?_⟩
  rw [← hdataPath, ← hindexPath]
  exact contents_eq_ok_iff.2 ⟨data, _, [(_, index)], hdata, mapM_eq_ok_iff.2 (.cons
    (pageFile_eq_ok_iff.2 ⟨rfl, hfirst⟩) (.cons (pageFile_eq_ok_iff.2 ⟨rfl, hsecond⟩)
      (.cons (pageFile_eq_ok_iff.2 ⟨rfl, hthird⟩) .nil))),
    bind_eq_ok_iff.2 ⟨index, hindex, rfl⟩, rfl⟩

theorem render_sharedDocs : ∃ t', render sharedDocs (.ofTop ["out"]) {} begunBundle =
    (.ok [.ofTop ["out", "docgen-data.json"], .ofTop ["out", "contracts", "A.sol", "A.md"],
      .ofTop ["out", "contracts", "A.sol", "A.md"], .ofTop ["out", "B.md"],
      .ofTop ["out", "index.html"]], t') := by
  obtain ⟨hopened, hmade⟩ := opened_of_directory (t := begunBundle) ["out"]
    (by decide +kernel) (by decide) (by decide) (by decide)
    (.inr fun place _ => not_link_begunBundle place)
  obtain ⟨data, first, second, third, index, hfiles⟩ := exists_contents_sharedDocs
  have hplain (place : Location) : begunBundle.Plain place :=
    fun upper _ => not_link_begunBundle upper
  have hlands : List.Forall₂ (Lands begunBundle (.ofTop ["out"]) ["out"])
      [(⟨.here, ["docgen-data.json"]⟩, data), (⟨.here, ["contracts", "A.sol", "A.md"]⟩, first),
        (⟨.here, ["contracts", "A.sol", "A.md"]⟩, second),
        (⟨.here, ["contracts", "..", "B.md"]⟩, third), (⟨.here, ["index.html"]⟩, index)]
      [(["out", "docgen-data.json"], .file data.toUTF8),
        (["out", "contracts", "A.sol", "A.md"], .file first.toUTF8),
        (["out", "contracts", "A.sol", "A.md"], .file second.toUTF8),
        (["out", "B.md"], .file third.toUTF8), (["out", "index.html"], .file index.toUTF8)] :=
    .cons (.of_plain (by decide) (by decide) (hplain _) data) <|
      .cons (.of_plain (by decide) (by decide) (hplain _) first) <|
      .cons (.of_plain (by decide) (by decide) (hplain _) second) <|
      .cons (.of_resolve (by decide) resolve_climbing (by decide) third) <|
      .cons (.of_plain (by decide) (by decide) (hplain _) index) .nil
  have hroom : ∀ place ∈ [["out", "docgen-data.json"], ["out", "contracts", "A.sol", "A.md"],
      ["out", "B.md"], ["out", "index.html"]], begunBundle.Room place := by
    have hnew : ∀ place ∈ [["out", "docgen-data.json"], ["out", "contracts", "A.sol", "A.md"],
        ["out", "B.md"], ["out", "index.html"]], FileTree.Nameable place ∧
          begunBundle.Founded place ∧ begunBundle.at? place = none := by decide
    intro place hplace
    obtain ⟨hname, hfounded, hnone⟩ := hnew place hplace
    exact ⟨hname, hfounded.unblocked, .inl hnone⟩
  obtain ⟨t', hrender, -⟩ := exists_render_of_lands hopened hmade hopened hfiles hlands
    (by simpa using hroom) (by simp [FileTree.Unnested])
  exact ⟨t', hrender⟩

/-- The second of the contracts that share a page has it, and the page at the top displaces nothing.
-/
theorem final_of_render_sample : ∃ written t' data index page,
    render sharedDocs (.ofTop ["out"]) {} begunBundle = (.ok written, t') ∧
    dataText sharedDocs (.int 2) = .ok data ∧ Index.render sharedDocs true = .ok index ∧
    Page.render (emptyDoc "A.sol" "A") = .ok page ∧
    t'.at? ["out", "docgen-data.json"] = some (.file data.toUTF8) ∧
    t'.at? ["out", "contracts", "A.sol", "A.md"] = some (.file page.toUTF8) ∧
    t'.at? ["out", "index.html"] = some (.file index.toUTF8) ∧
    t'.at? ["out", "old.txt"] = some (.file .empty) := by
  have hsound : begunBundle.Sound := by decide +kernel
  obtain ⟨t', hrender⟩ := render_sharedDocs
  obtain ⟨root, pages, hroot, hfinal⟩ := final_of_render hsound (by decide)
    (fun _ _ place _ => not_link_begunBundle place) hrender
  have hresolve : begunBundle.resolve (.ofTop ["out"]) = .ok ["out"] :=
    FileTree.resolve_of_nameable (by decide) (fun upper _ => not_link_begunBundle upper) (by decide)
  obtain rfl := Except.ok.inj (hresolve.symm.trans hroot)
  obtain ⟨data, hdata, hdataAt⟩ := hfinal.data
  obtain ⟨index, hindex, hindexAt⟩ := hfinal.index rfl
  have hlands : LandsAt begunBundle (.ofTop ["out"]) (emptyDoc "A.sol" "A")
      ["out", "contracts", "A.sol", "A.md"] :=
    ⟨⟨.here, ["contracts", "A.sol", "A.md"]⟩, rfl, FileTree.resolve_of_nameable (by decide)
      (fun upper _ => not_link_begunBundle upper) (by decide)⟩
  have hclimbs : LandsAt begunBundle (.ofTop ["out"]) (emptyDoc ".." "B") ["out", "B.md"] :=
    ⟨⟨.here, ["contracts", "..", "B.md"]⟩, rfl, resolve_climbing⟩
  obtain ⟨page, hpage, hpageAt⟩ := hfinal.page rfl [_] _ _ [_] _ rfl hlands (by
    rintro other hother hsame
    obtain rfl := List.mem_singleton.1 hother
    exact absurd (hsame.unique hclimbs) (by decide)) (by decide)
  have hfree : ["out"] ++ [dataFile] ∉ pages :=
    fun hmem => absurd (hfinal.mem_tail hmem) (by decide)
  exact ⟨_, t', data, index, page, hrender, hdata, hindex, hpage, hdataAt hfree, hpageAt, hindexAt,
    hfinal.rest _ _ (by decide) rfl⟩

/-- A directory for a bundle, and a link outside of it that leads to the file of its data. -/
def linkedData : FileTree :=
  ⟨[], [(["out"], .directory), (["page"], .directory),
    (["page", "A.md"], .link "../out/docgen-data.json")]⟩

theorem not_link_below_linkedData (place : Location) (hplace : ["out"] <+: place)
    (target : String) : linkedData.at? place ≠ some (.link target) :=
  FileTree.not_link_below (by decide) place hplace target

/-- Through a link outside of the bundle the page of a contract is written over the data. -/
theorem render_displaces_data :
    linkedData.Sound ∧ linkedData.resolve (.ofTop ["out"]) = .ok ["out"] ∧
    (∀ place, ["out"] <+: place → ∀ target, linkedData.at? place ≠ some (.link target)) ∧
    ∃ written t' data page,
      render [("x:A", emptyDoc "../../page" "A")] (.ofTop ["out"]) { includeHtml := false }
        linkedData = (.ok written, t') ∧
      dataText [("x:A", emptyDoc "../../page" "A")] (.int 2) = .ok data ∧
      Page.render (emptyDoc "../../page" "A") = .ok page ∧ page ≠ data ∧
      t'.at? ["out", "docgen-data.json"] = some (.file page.toUTF8) := by
  have hsound : linkedData.Sound := by decide +kernel
  obtain ⟨hopened, hmade⟩ := opened_of_directory ["out"] hsound (by decide) (by decide)
    (by decide) (.inr not_link_below_linkedData)
  refine ⟨hsound, hopened.resolve, not_link_below_linkedData, ?_⟩
  obtain ⟨data, page, hdata, hpage, hother⟩ : ∃ data page,
      dataText [("x:A", emptyDoc "../../page" "A")] (.int 2) = .ok data ∧
      Page.render (emptyDoc "../../page" "A") = .ok page ∧ page ≠ data :=
    ⟨_, _, rfl, rfl, by decide +kernel⟩
  have hdataPath : Path.ofString dataFile = ⟨.here, ["docgen-data.json"]⟩ := by decide
  have hfiles : contents [("x:A", emptyDoc "../../page" "A")] { includeHtml := false } =
      .ok [(⟨.here, ["docgen-data.json"]⟩, data),
        (⟨.here, ["contracts", "..", "..", "page", "A.md"]⟩, page)] := by
    rw [← hdataPath]
    exact contents_eq_ok_iff.2 ⟨data, _, [], hdata,
      mapM_eq_ok_iff.2 (.cons (pageFile_eq_ok_iff.2 ⟨rfl, hpage⟩) .nil), rfl, rfl⟩
  have hway : linkedData.Leads 1 [] ["out", "contracts", "..", "..", "page", "A.md"]
      ["out", "docgen-data.json"] :=
    .step (by decide) nofun (.step (by decide) nofun (.up (.up (.step (by decide) nofun
      (.link (by decide) rfl (.up (.step (by decide) nofun (.step (by decide) nofun .done)))
        .done)))))
  have hleads : linkedData.resolve ((Path.ofTop ["out"]).join
      ⟨.here, ["contracts", "..", "..", "page", "A.md"]⟩) = .ok ["out", "docgen-data.json"] :=
    hway.resolve_eq (by decide)
      (FileTree.Founded.plain (by decide) (not_link_below_linkedData _ (by decide))) (by decide)
  have hroom : linkedData.Room ["out", "docgen-data.json"] :=
    ⟨by decide, FileTree.Founded.unblocked (by decide), .inl (by decide)⟩
  have hlands : List.Forall₂ (Lands linkedData (.ofTop ["out"]) ["out"])
      [(⟨.here, ["docgen-data.json"]⟩, data),
        (⟨.here, ["contracts", "..", "..", "page", "A.md"]⟩, page)]
      [(["out", "docgen-data.json"], .file data.toUTF8),
        (["out", "docgen-data.json"], .file page.toUTF8)] :=
    .cons (.of_plain (by decide) (by decide) hroom.plain data) <|
      .cons (.of_resolve (by decide) hleads (by decide) page) .nil
  obtain ⟨t', hrender, hlaid⟩ := exists_render_of_lands hopened hmade hopened hfiles hlands
    (by simpa using hroom) (by simp [FileTree.Unnested])
  exact ⟨_, t', data, page, hrender, hdata, hpage, hother, hlaid.at?_last [_] (by simp)⟩

end Bundle

end NatSpec
