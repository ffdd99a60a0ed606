import NatSpec.Proofs.Bundle.Laid
import NatSpec.Proofs.BuildInfo
import NatSpec.Proofs.Contract.Name
import NatSpec.Proofs.Contract.Resolve
import NatSpec.Proofs.Store
import NatSpec.Proofs.Text.Sorting

/-!
One page for each contract. The path of a page is made of the source and the name of its contract by
joining paths, which is to say that different names may give one path. Names whose sources are
written as they are read, without empty parts and dots, and that hold no slashes give different
paths; so in a directory without links each of their contracts has its own page.
-/

namespace NatSpec

/-- The source of a contract is written as its parts are read, and its name is a single part. -/
structure ContractName.Canonical (id : ContractName) : Prop where
  source : ∀ part ∈ Path.slashParts id.source, part ≠ "" ∧ part ≠ "." ∧ part ≠ ".."
  name : '/' ∉ id.name.toList

instance (id : ContractName) : Decidable id.Canonical :=
  decidable_of_iff ((∀ part ∈ Path.slashParts id.source, part ≠ "" ∧ part ≠ "." ∧ part ≠ "..") ∧
      '/' ∉ id.name.toList)
    ⟨fun ⟨a, b⟩ => ⟨a, b⟩, fun ⟨a, b⟩ => ⟨a, b⟩⟩

open FileTree (Dotless)

namespace Bundle

/-- The components of a page's path. -/
def pageParts (id : ContractName) : List String :=
  pagesDirectory :: Path.slashParts id.source ++ [id.name ++ ".md"]

theorem pageFile_ne (id : ContractName) {short : String} (hshort : short.toList.length < 3) :
    id.name ++ ".md" ≠ short := by
  rintro rfl
  simp [String.toList_append] at hshort

theorem ofString_pageFile {id : ContractName} (h : id.Canonical) :
    Path.ofString (id.name ++ ".md") = ⟨.here, [id.name ++ ".md"]⟩ := by
  have hslash : '/' ∉ (id.name ++ ".md").toList := by
    simpa [String.toList_append] using h.name
  have hpart : ∀ part ∈ [id.name ++ ".md"], '/' ∉ part.toList ∧ part ≠ "" ∧ part ≠ "." := by
    simp only [List.mem_singleton, forall_eq]
    exact ⟨hslash, pageFile_ne id (by decide), pageFile_ne id (by decide)⟩
  have hone := Path.ofString_intercalate (List.cons_ne_nil _ _) hpart
  rwa [String.intercalate_singleton] at hone

theorem pagePath_of_canonical {doc : ContractDoc} {id : ContractName}
    (hsource : doc.source = .str id.source) (hname : doc.name = .str id.name) (h : id.Canonical) :
    doc.pagePath = .ok ⟨.here, pageParts id⟩ := by
  have hfirst : Path.ofString pagesDirectory = ⟨.here, [pagesDirectory]⟩ := by decide
  have hsecond : Path.ofString id.source = ⟨.here, Path.slashParts id.source⟩ :=
    Path.ofString_eq fun part hpart => ⟨(h.source part hpart).1, (h.source part hpart).2.1⟩
  unfold ContractDoc.pagePath
  rw [hsource, hname]
  simp only [Path.div_eq]
  rw [hfirst, hsecond, Json.display, ofString_pageFile h]
  rfl

/-- Different contracts have different pages. -/
theorem pageParts_inj {id other : ContractName} : pageParts id = pageParts other ↔ id = other := by
  constructor
  · intro h
    obtain ⟨hsource, hname⟩ := List.append_inj' (List.cons.inj h).2 rfl
    have hsource' := congrArg ("/".intercalate ·) hsource
    simp only [Path.intercalate_slashParts] at hsource'
    have hname' : id.name.toList = other.name.toList := by
      have hlists := congrArg String.toList (List.cons.inj hname).1
      simpa [String.toList_append] using hlists
    cases id
    cases other
    simp_all
  · rintro rfl
    rfl

/-- A page is not the data file, nor the index. -/
theorem pageParts_ne (id : ContractName) (file : String) : pageParts id ≠ [file] := by
  simp [pageParts]

theorem dotless_pageParts {id : ContractName} (h : id.Canonical) : Dotless (pageParts id) := by
  refine ⟨fun hmem => ?_, fun hmem => ?_⟩
  · rcases List.mem_cons.1 hmem with heq | hmem
    · exact absurd heq (by decide)
    rcases List.mem_append.1 hmem with hmem | hmem
    · exact (h.source _ hmem).2.1 rfl
    · exact pageFile_ne id (by decide) (List.mem_singleton.1 hmem).symm
  · rcases List.mem_cons.1 hmem with heq | hmem
    · exact absurd heq (by decide)
    rcases List.mem_append.1 hmem with hmem | hmem
    · exact (h.source _ hmem).2.2 rfl
    · exact pageFile_ne id (by decide) (List.mem_singleton.1 hmem).symm

/-! ### Pages in a directory without links -/

variable {t t' : FileTree} {out : Location} {docs : Docs} {options : RenderOptions}
  {written : List Path}

/-- In a directory without links a path resolves to the place that it names. -/
theorem Placed.target_eq (hplain : t.Plain out)
    (hlinks : ∀ place, out <+: place → ∀ target, t.at? place ≠ some (.link target))
    {parts : List String} {file : File} (hdots : ".." ∉ out ++ parts)
    (h : Placed t out out ⟨.here, parts⟩ file) : file.target = out ++ parts := by
  obtain ⟨s, -, hs, hresolve⟩ := h.resolved
  refine FileTree.resolve_of_plain ?_ hdots hresolve
  intro upper hupper target hlink
  have hlink' := ((hs.becomes upper).link_iff target).1 hlink
  rcases List.prefix_or_prefix_of_prefix hupper (List.prefix_append out parts) with habove | hbelow
  · exact hplain upper habove target hlink'
  · exact hlinks upper hbelow target hlink'

/-- Documentation whose names are canonical and belong to its contracts. -/
def AreCanonical (docs : Docs) : Prop :=
  ∀ entry ∈ docs, ∃ id : ContractName, ContractName.parse entry.1 = .ok id ∧ id.Canonical ∧
    entry.2.source = .str id.source ∧ entry.2.name = .str id.name

section

variable (hcanonical : AreCanonical docs) (hplain : t.Plain out) (hdotless : Dotless out)
  (hlinks : ∀ place, out <+: place → ∀ target, t.at? place ≠ some (.link target))
include hcanonical hplain hdotless hlinks

theorem exists_target_of_isPage {entry : String × ContractDoc} (hentry : entry ∈ docs) {file : File}
    (hfile : IsPage t out out entry.2 file) :
    ∃ id, ContractName.parse entry.1 = .ok id ∧ file.target = out ++ pageParts id := by
  obtain ⟨id, hid, hproper, hsource, hname⟩ := hcanonical entry hentry
  obtain ⟨page, hpage, hplace⟩ := hfile.place
  obtain rfl := Except.ok.inj ((pagePath_of_canonical hsource hname hproper).symm.trans hpage)
  refine ⟨id, hid, hplace.target_eq hplain hlinks ?_⟩
  rw [List.mem_append, not_or]
  exact ⟨hdotless.noDots, (dotless_pageParts hproper).noDots⟩

/-- The files of a bundle with canonical names have different paths. -/
theorem Files.nodup_paths (hdistinct : (Table.keys docs).Nodup)
    (files : Files docs options t out out) : files.paths.Nodup := by
  have hnoDots {file : String} (hfile : file ≠ "..") : ".." ∉ out ++ [file] := by
    rw [List.mem_append, List.mem_singleton, not_or]
    exact ⟨hdotless.noDots, hfile.symm⟩
  have hdata : files.data.target = out ++ [dataFile] :=
    files.data_place.target_eq hplain hlinks (hnoDots (by decide))
  have hindex (file : File) (hfile : file ∈ files.index) : file.target = out ++ [indexFile] :=
    (files.placed_index hfile).target_eq hplain hlinks (hnoDots (by decide))
  have hpage (file : File) (hfile : file ∈ files.pages) : ∃ id, file.target = out ++ pageParts id := by
    obtain ⟨entry, hentry, hpage⟩ := files.exists_isPage hfile
    obtain ⟨id, -, hplace⟩ :=
      exists_target_of_isPage hcanonical hplain hdotless hlinks hentry hpage
    exact ⟨id, hplace⟩
  have hpages : files.pages.Pairwise fun file other => file.target ≠ other.target := by
    have hare := files.pages_are
    unfold ArePages at hare
    split at hare
    · have hnames : docs.Pairwise fun entry other => entry.1 ≠ other.1 :=
        List.pairwise_map.1 hdistinct
      refine pairwise_of_forall₂ (List.forall₂_and_left _ _ |>.2 ⟨fun _ => id, hare⟩) hnames ?_
      rintro entry file entry' file' ⟨hentry, hfile⟩ ⟨hentry', hfile'⟩ hne heq
      obtain ⟨id, hid, hplace⟩ :=
        exists_target_of_isPage hcanonical hplain hdotless hlinks hentry hfile
      obtain ⟨id', hid', hplace'⟩ :=
        exists_target_of_isPage hcanonical hplain hdotless hlinks hentry' hfile'
      rw [hplace, hplace', List.append_cancel_left_eq, pageParts_inj] at heq
      rw [(ContractName.parse_eq_ok_iff.1 hid).2, (ContractName.parse_eq_ok_iff.1 hid').2, heq] at hne
      exact hne rfl
    · rw [hare]
      exact .nil
  have hindexes : files.index.Pairwise fun file other => file.target ≠ other.target := by
    match hfiles : files.index, files.length_index_le with
    | [], _ => exact .nil
    | [_], _ => exact List.pairwise_singleton ..
  have hall : files.all.Pairwise fun file other => file.target ≠ other.target := by
    refine List.pairwise_cons.2 ⟨fun file hfile => ?_, List.pairwise_append.2
      ⟨hpages, hindexes, fun file hfile other hother => ?_⟩⟩
    · rw [hdata]
      rcases List.mem_append.1 hfile with hfile | hfile
      · obtain ⟨id, hplace⟩ := hpage file hfile
        rw [hplace, ne_eq, List.append_cancel_left_eq]
        exact (pageParts_ne id dataFile).symm
      · rw [hindex file hfile, ne_eq, List.append_cancel_left_eq]
        decide
    · obtain ⟨id, hplace⟩ := hpage file hfile
      rw [hplace, hindex other hother, ne_eq, List.append_cancel_left_eq]
      exact pageParts_ne id indexFile
  refine List.pairwise_map.2 (hall.imp fun hne heq => hne ?_)
  exact congrArg Path.parts heq

end

/-- Documentation of a store belongs to the contracts of its names. -/
theorem exists_id_of_resolveAll {store : Store} {strict : Bool}
    (h : store.resolveAll strict = .ok docs) {name : String} {doc : ContractDoc}
    (hmem : (name, doc) ∈ docs) :
    ∃ id, ContractName.parse name = .ok id ∧ doc.source = .str id.source ∧
      doc.name = .str id.name := by
  obtain ⟨listing, -, h⟩ := bind_eq_ok_iff.1 h
  have hdocumented := Store.documented_of_resolve h
  obtain ⟨output, -, hresolve⟩ :=
    hdocumented.made name doc (Table.get?_of_mem hdocumented.distinct hmem)
  exact parse_of_resolveContract hresolve

theorem distinct_of_resolveAll {store : Store} {strict : Bool}
    (h : store.resolveAll strict = .ok docs) : (Table.keys docs).Nodup := by
  obtain ⟨listing, -, h⟩ := bind_eq_ok_iff.1 h
  exact (Store.documented_of_resolve h).distinct

/-- Contracts with canonical names have different pages. If all names are canonical then a bundle
that is written to a directory without links has each file under a path of its own, and the page of
each contract is among them, with the text of that page. -/
theorem own_pages_of_resolveAll {store : Store} {strict : Bool}
    (h : store.resolveAll strict = .ok docs) :
    (∀ name doc name' doc' id id', (name, doc) ∈ docs → (name', doc') ∈ docs →
      ContractName.parse name = .ok id → ContractName.parse name' = .ok id' →
      id.Canonical → id'.Canonical → name ≠ name' →
      ∃ parts parts', doc.pagePath = .ok ⟨.here, parts⟩ ∧ doc'.pagePath = .ok ⟨.here, parts'⟩ ∧
        Dotless parts ∧ Dotless parts' ∧ parts ≠ parts') ∧
    ∀ t t' out options written,
      (∀ name ∈ Table.keys docs, ∀ id, ContractName.parse name = .ok id → id.Canonical) →
      t.Sound → t.Plain out → Dotless out →
      (∀ place, out <+: place → ∀ target, t.at? place ≠ some (.link target)) →
      render docs (.ofTop out) options t = (.ok written, t') →
      written.Nodup ∧ (options.includeMarkdown = true → ∀ name doc, (name, doc) ∈ docs →
        ∃ parts text, doc.pagePath = .ok ⟨.here, parts⟩ ∧ Page.render doc = .ok text ∧
          Path.ofTop (out ++ parts) ∈ written ∧
          t'.at? (out ++ parts) = some (.file text.toUTF8)) := by
  constructor
  · intro name doc name' doc' id id' hmem hmem' hid hid' hproper hproper' hne
    obtain ⟨_, hparsed, hsource, hname⟩ := exists_id_of_resolveAll h hmem
    obtain rfl := Except.ok.inj (hid.symm.trans hparsed)
    obtain ⟨_, hparsed', hsource', hname'⟩ := exists_id_of_resolveAll h hmem'
    obtain rfl := Except.ok.inj (hid'.symm.trans hparsed')
    refine ⟨pageParts id, pageParts id', pagePath_of_canonical hsource hname hproper,
      pagePath_of_canonical hsource' hname' hproper', dotless_pageParts hproper,
      dotless_pageParts hproper', fun heq => hne ?_⟩
    rw [(ContractName.parse_eq_ok_iff.1 hid).2, (ContractName.parse_eq_ok_iff.1 hid').2,
      pageParts_inj.1 heq]
  · intro t t' out options written hproper hsound hplain hdotless hlinks hrender
    have hcanonical : AreCanonical docs := by
      rintro ⟨name, doc⟩ hmem
      obtain ⟨id, hid, hsource, hname⟩ := exists_id_of_resolveAll h hmem
      exact ⟨id, hid, hproper name (Table.mem_keys_of_mem hmem) id hid, hsource, hname⟩
    have hguarded : Guarded out t := ⟨hplain, .inr hlinks⟩
    obtain ⟨out', files, rfl, hsettles, -⟩ := settles_render hdotless hsound.tidy hrender
    obtain ⟨depth, hleads⟩ := files.leads
    obtain rfl : out' = out := hleads.unique (FileTree.leads_of_plain hplain hdotless.noDots)
    have hpaths := files.nodup_paths hcanonical hplain hdotless hlinks (distinct_of_resolveAll h)
    refine ⟨hpaths, fun hwanted name doc hmem => ?_⟩
    obtain ⟨file, hfile, hpage⟩ := files.exists_page hwanted hmem
    obtain ⟨id, hid, hplace⟩ :=
      exists_target_of_isPage hcanonical hplain hdotless hlinks hmem hpage
    obtain ⟨_, hparsed, hsource, hname⟩ := exists_id_of_resolveAll h hmem
    obtain rfl := Except.ok.inj (hid.symm.trans hparsed)
    have hid' := hproper name (Table.mem_keys_of_mem hmem) id hid
    have hall : file ∈ files.all := Files.mem_all.2 (.inr (.inl hfile))
    refine ⟨pageParts id, file.text, pagePath_of_canonical hsource hname hid', hpage.text, ?_, ?_⟩
    · rw [← hplace]
      exact List.mem_map_of_mem hall
    · obtain ⟨page, -, hplaced⟩ := hpage.place
      rw [← hplace, ← hplaced.place_eq hguarded]
      exact Files.at?_of_nodup hguarded hpaths hsettles.laid hall

def twoContracts : Json :=
  .obj [("output", .obj [("contracts", .obj [("A.sol",
    .obj [("A", .obj [("abi", .arr [])]), ("B", .obj [("abi", .arr [])])])])])]

/-- A project in which the directories of a bundle are there. -/
def emptyPages : FileTree :=
  ⟨[], [(["docgen"], .directory), (["docgen", "contracts"], .directory),
    (["docgen", "contracts", "A.sol"], .directory)]⟩

def emptyDoc (source name : String) : ContractDoc :=
  ⟨.str source, .str name, .null, .null, .null, .null, .null, .null, .null, .null, .null, .null, []⟩

/-- Each file is written where nothing was. -/
theorem render_emptyPages : ∃ written t',
    render [("A.sol:A", emptyDoc "A.sol" "A"), ("A.sol:B", emptyDoc "A.sol" "B")]
      (.ofTop ["docgen"]) { includeHtml := false } emptyPages = (.ok written, t') := by
  obtain ⟨text, htext⟩ : ∃ text, dataText [("A.sol:A", emptyDoc "A.sol" "A"),
      ("A.sol:B", emptyDoc "A.sol" "B")] (.int 2) = .ok text := ⟨_, rfl⟩
  obtain ⟨page, hpage⟩ : ∃ page, Page.render (emptyDoc "A.sol" "A") = .ok page := ⟨_, rfl⟩
  obtain ⟨page', hpage'⟩ : ∃ page, Page.render (emptyDoc "A.sol" "B") = .ok page := ⟨_, rfl⟩
  have hpath : (emptyDoc "A.sol" "A").pagePath = .ok ⟨.here, ["contracts", "A.sol", "A.md"]⟩ := rfl
  have hpath' : (emptyDoc "A.sol" "B").pagePath = .ok ⟨.here, ["contracts", "A.sol", "B.md"]⟩ := rfl
  have hmake : FileTree.makeDirectories (.ofTop ["docgen"]) emptyPages = (.ok (), emptyPages) :=
    FileTree.makeDirectories_of_founded (by decide) (by decide) (by decide) (by decide)
  have hdata := write_of_founded ["docgen"] ["docgen-data.json"] (t := emptyPages)
    (by decide) (by decide) (by decide) (by decide) (by decide) (by decide) (.inl (by decide)) text
  have hfounded : emptyPages.Founded ["docgen", "contracts", "A.sol", "A.md"] := by decide
  have hfounded' : emptyPages.Founded ["docgen", "contracts", "A.sol", "B.md"] := by decide
  have hfirst := write_of_founded ["docgen"] ["contracts", "A.sol", "A.md"]
    (t := emptyPages.put ["docgen", "docgen-data.json"] (.file text.toUTF8))
    (by decide) (by decide) (by decide) (by decide) (by decide)
    (hfounded.put (by decide) (by decide) _) (.inl rfl) page
  have hsecond := write_of_founded ["docgen"] ["contracts", "A.sol", "B.md"]
    (t := (emptyPages.put ["docgen", "docgen-data.json"] (.file text.toUTF8)).put
      ["docgen", "contracts", "A.sol", "A.md"] (.file page.toUTF8))
    (by decide) (by decide) (by decide) (by decide) (by decide)
    ((hfounded'.put (by decide) (by decide) _).put (by decide) (by decide) _) (.inl rfl) page'
  exact ⟨_, _, render_eq_ok hmake htext hdata
    (writePages_cons "A.sol:A" hpath hpage hfirst
      (writePages_cons "A.sol:B" hpath' hpage' hsecond rfl)) rfl⟩

/-- The records of a document that has two contracts without members. -/
theorem exists_docs_of_names {doc : Json} {table : Fields} {first second : String}
    {perSource : List (List String)} {empty empty' : ContractDoc}
    (htable : BuildInfo.contracts doc = .ok table)
    (hnames : table.mapM (fun entry => BuildInfo.sourceNames entry.1.display entry.2) =
      .ok perSource)
    (hlisted : perSource.flatten = [first, second]) (hlt : first < second)
    (hfirst : ContractName.parse first >>= BuildInfo.output doc = .ok (.obj [("abi", .arr [])]))
    (hsecond : ContractName.parse second >>= BuildInfo.output doc = .ok (.obj [("abi", .arr [])]))
    (hempty : resolveContract first (.obj [("abi", .arr [])]) false = .ok empty)
    (hempty' : resolveContract second (.obj [("abi", .arr [])]) false = .ok empty') :
    ∃ store, BuildInfo.store doc = .ok store ∧
      store.resolveAll false = .ok (Table.set [(first, empty)] second empty') := by
  have hsorted : perSource.flatten.mergeSort (fun a b => a ≤ b) = [first, second] := by
    rw [hlisted]
    exact mergeSort_eq_of_perm id (.refl _) (by simpa using hlt)
  obtain ⟨store, hstore, hlisting, hfetch⟩ := BuildInfo.exists_store htable
    (bind_eq_ok_iff.2 ⟨_, hnames, congrArg Except.ok hsorted⟩)
  refine ⟨store, hstore, ?_⟩
  rw [Store.resolveAll, hlisting, ok_bind]
  simp only [Store.resolve, List.foldlM_cons, List.foldlM_nil, Store.document, hfetch, hfirst,
    hsecond, hempty, hempty', ok_bind]
  rfl

theorem own_pages_of_resolveAll_sample : ∃ store docs written t',
    BuildInfo.store twoContracts = .ok store ∧ store.resolveAll false = .ok docs ∧
    render docs (.ofTop ["docgen"]) { includeHtml := false } emptyPages = (.ok written, t') ∧
    written.Nodup ∧ ∀ name doc, (name, doc) ∈ docs → ∃ parts text,
      doc.pagePath = .ok ⟨.here, parts⟩ ∧ Page.render doc = .ok text ∧
        Path.ofTop (["docgen"] ++ parts) ∈ written ∧
        t'.at? (["docgen"] ++ parts) = some (.file text.toUTF8) := by
  have hstore : ∃ store, BuildInfo.store twoContracts = .ok store ∧ store.resolveAll false =
      .ok [("A.sol:A", emptyDoc "A.sol" "A"), ("A.sol:B", emptyDoc "A.sol" "B")] :=
    exists_docs_of_names rfl rfl rfl (by decide : "A.sol:A" < "A.sol:B") rfl rfl rfl rfl
  obtain ⟨store, hstore, hdocs⟩ := hstore
  obtain ⟨written, t', hrender⟩ := render_emptyPages
  have hproper : ∀ name ∈ Table.keys [("A.sol:A", emptyDoc "A.sol" "A"),
      ("A.sol:B", emptyDoc "A.sol" "B")], ∀ id, ContractName.parse name = .ok id → id.Canonical := by
    simp only [Table.keys_cons, Table.keys_nil, List.forall_mem_cons, List.not_mem_nil]
    refine ⟨fun id hid => ?_, fun id hid => ?_, fun _ => False.elim⟩
    · obtain rfl : ⟨"A.sol", "A"⟩ = id := Except.ok.inj hid
      decide
    · obtain rfl : ⟨"A.sol", "B"⟩ = id := Except.ok.inj hid
      decide
  have hlinks := FileTree.not_link_of_linkCount (t := emptyPages) (by decide)
  obtain ⟨hnodup, hpages⟩ := (own_pages_of_resolveAll hdocs).2 emptyPages t' ["docgen"] _ written
    hproper (by decide) (fun upper _ => hlinks upper) (by decide) (fun place _ => hlinks place) hrender
  exact ⟨store, _, written, t', hstore, hdocs, hrender, hnodup, hpages rfl⟩

/-- Two sources that are written differently and read as one path. -/
def twoSpellings : Json :=
  .obj [("output", .obj [("contracts", .obj [
    ("./A.sol", .obj [("A", .obj [("abi", .arr [])])]),
    ("A.sol", .obj [("A", .obj [("abi", .arr [])])])])])]

/-- Contracts with different names may have one page. -/
theorem shared_page_of_resolveAll : ∃ store docs doc doc',
    BuildInfo.store twoSpellings = .ok store ∧ store.resolveAll false = .ok docs ∧
    ("./A.sol:A", doc) ∈ docs ∧ ("A.sol:A", doc') ∈ docs ∧ "./A.sol:A" ≠ "A.sol:A" ∧
    doc.pagePath = .ok ⟨.here, ["contracts", "A.sol", "A.md"]⟩ ∧ doc'.pagePath = doc.pagePath := by
  have hstore : ∃ store, BuildInfo.store twoSpellings = .ok store ∧ store.resolveAll false =
      .ok [("./A.sol:A", emptyDoc "./A.sol" "A"), ("A.sol:A", emptyDoc "A.sol" "A")] :=
    exists_docs_of_names rfl rfl rfl (by decide : "./A.sol:A" < "A.sol:A") rfl rfl rfl rfl
  obtain ⟨store, hstore, hdocs⟩ := hstore
  exact ⟨store, _, _, _, hstore, hdocs, .head _, .tail _ (.head _), by decide, rfl, rfl⟩

end Bundle

end NatSpec
