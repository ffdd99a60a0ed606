import NatSpec.Json.Equality
import NatSpec.Proofs.Docgen.Apart
import NatSpec.Proofs.Docgen.Failure

/-!
A run that is made again at once. What a run has written, it writes again and so leaves as it was. It
plans the same again if its bundle is apart from what it was made of: then the sources are read as
before, and no page is taken for an artifact. The data may be; they name no contract.
-/

namespace NatSpec

open Artifacts (Beside Build IsOpen Layout Reread Source contractOf? landing openDirectory
  openDirectory_eq_ok_iff)
open FileTree (Dotless Holds Keeps Settles)
open Json (Bounded)

variable {t t' : FileTree} {options : Options} {render : RenderOptions} {strict : Bool}
  {output place rootPlace directory : Location} {docs : Docs} {root : String}

/-! ### The data -/

/-- The data of a bundle are a table of objects. -/
theorem holds_dataText {indent : Json} (hindent : indent = .null ∨ ∃ n, indent = .int n)
    (hdocs : Bounded 989 docs.data) {text : String}
    (htext : Bundle.dataText docs indent = .ok text) :
    ∃ fields : Fields, Holds text.toUTF8 (.obj fields) ∧ ∀ e ∈ fields, e.2.isObj = true := by
  obtain ⟨l, hplain, hprinted, hwritten⟩ := Bundle.exists_dataText docs hindent
  obtain rfl := Except.ok.inj (hwritten.symm.trans htext)
  have hbehind : Json.AllPrinted "\n".toList := by simp [Json.AllPrinted, Json.Printed]
  obtain ⟨fields, hread, hfields⟩ := Json.exists_read_write hplain (hdocs.mono (by decide))
    (List.forall_mem_map.2 fun e _ => rfl)
    (by simp [Json.Blanks, Json.IsBlank] : Json.Blanks "\n".toList)
  refine ⟨fields, FileTree.holds_toUTF8 ?_, hfields⟩
  rw [Json.withLineFeeds_write hprinted hdocs.proper hbehind]
  exact hread

/-- A file whose path can name it is read as what it holds. -/
theorem readJson_of_nameable (htidy : t.Tidy) (hdotless : Dotless place)
    (hname : FileTree.Nameable place) {content : ByteArray} {v : Json}
    (hat : t.at? place = some (.file content)) (hholds : Holds content v) :
    t.readJson (.ofTop place) = .ok v := by
  have hlocate := hname.locate_eq true (htidy.plain hat (by simp)) hdotless (htidy.founded hat)
  rw [hat] at hlocate
  have hvalue := FileTree.readValue_of_readBytes
    (FileTree.readBytes_of_locate hname.noNull hlocate) hholds
  rw [FileTree.readJson, hvalue]

/-! ### Runs -/

theorem landing_of_isDirectory (hplain : t.Plain directory) (hdotless : Dotless directory)
    (h : t.isDirectory (.ofTop directory) = .ok true) : landing t directory = directory := by
  rw [landing, locate_of_isDirectory hplain hdotless h]

section

variable (hsound : t.Sound) (hloop : t.LoopFree) {report : Report}
  (hindent : render.jsonIndent = .null ∨ ∃ n, render.jsonIndent = .int n)
  (hchosen : Chosen t (.ofString root) options rootPlace output)
  (hreads : ReadsFrom t options rootPlace directory)
  (hrun : runDocgen (.ofString root) options none render strict t = (.ok report, t'))

include hsound hloop hchosen hreads hrun in
/-- What a run without a store has listed and documented. -/
theorem exists_listing_of_runDocgen :
    ∃ listed : Listing, Artifacts.listing t directory = .ok listed ∧
      (Artifacts.store t directory).resolve strict listed.names = .ok report.docs ∧
      Bounded 989 report.docs.data := by
  obtain ⟨hplan, -, -⟩ := exists_render_of_runDocgen hsound hloop hchosen hrun
  obtain ⟨output', opened, listed, ⟨⟨rootPlace', hchosen', hopened⟩, hlisting⟩, -, hdocs, -⟩ :=
    exists_of_plan hplan
  obtain ⟨rfl, -⟩ := hchosen.unique hchosen'
  obtain ⟨directory', ⟨artifacts, hartifacts, hdirectory⟩, rfl⟩ := openStore_none_eq_ok_iff.1 hopened
  obtain ⟨artifacts', hartifacts', hdirectory'⟩ := hreads
  obtain rfl := Except.ok.inj (hartifacts.symm.trans hartifacts')
  obtain rfl := Except.ok.inj (hdirectory.symm.trans hdirectory')
  have hdocumented := Store.documented_of_resolve hdocs
  exact ⟨listed, hlisting, hdocs, Docs.bounded_data hdocumented.distinct <|
    hdocumented.bounded_records fun _ _ _ => Artifacts.bounded_output⟩

end

section

variable (hsound : t.Sound) (hloop : t.LoopFree)
  (hchosen : Chosen t (.ofString root) options rootPlace output) {written : List Path}
  {files : Bundle.Files docs render (options.cleared t output) output output}
  (hsettles : Settles files.items (Bundle.render docs (.ofTop output) render)
    (options.cleared t output) written t')
include hsound hloop hchosen

theorem link_cleared_iff (place : Location) (target : String) :
    (options.cleared t output).at? place = some (.link target) ↔
      (options.emptied t output).at? place = some (.link target) := by
  have hconfined := hchosen.confined hsound hloop
  by_cases hplace : place = output
  · subst hplace
    have hnone := hconfined.plain place List.prefix_rfl target
    exact iff_of_false (fun hlink => hnone (at?_of_cleared hconfined.ne_top hlink))
      fun hlink => hnone (at?_of_emptied hlink)
  · rw [at?_cleared_of_ne hsound.tidy hconfined.ne_top hplace]

/-- A file of a bundle has landed where its path leads without the old bundle. -/
theorem landsIn_of_placed {relative : Path} {file : Bundle.File} (hdot : "." ∉ relative.parts)
    (h : Bundle.Placed (options.cleared t output) output output relative file) :
    LandsIn (options.emptied t output) output relative file.target := by
  have hconfined := hchosen.confined hsound hloop
  exact ⟨h.inside, h.resolve_of_links
    (guarded_cleared options hloop hconfined.plain hconfined.ne_top) hconfined.dotless hdot
    (tidy_emptied hsound.tidy) (link_cleared_iff hsound hloop hchosen)⟩

include hsettles

/-- Writing a bundle makes no links. -/
theorem sameLinks_of_settles : SameLinks t (options.emptied t output) t' where
  here := here_emptied options t output
  here' := hsettles.laid.grows.here.trans (here_cleared options t output)
  tidy := tidy_emptied hsound.tidy
  tidy' := hsettles.tidy
  fewer _ _ := at?_of_emptied
  same place target := ((link_cleared_iff hsound hloop hchosen place target).symm.trans
    ((hsettles.laid.grows.becomes place).link_iff target).symm)

/-- What is left without the old bundle is kept when the new one is written. -/
theorem keeps_of_settles (hmade : t'.at? output = some .directory) :
    Keeps (options.emptied t output) t' := by
  have hconfined := hchosen.confined hsound hloop
  have hkeeps := hsettles.laid.grows.keeps
  constructor
  case directory =>
    intro place hat
    by_cases hplace : place = output
    · rw [hplace, hmade]
    · rw [← at?_cleared_of_ne hsound.tidy hconfined.ne_top hplace] at hat
      exact hkeeps.directory place hat
  case link =>
    exact fun place target hlink =>
      hkeeps.link place target ((link_cleared_iff hsound hloop hchosen place target).2 hlink)
  case file =>
    intro place content hat
    refine hkeeps.file place content ?_
    by_cases hplace : place = output
    · -- A file in the place of the output directory is not cleared.
      subst hplace
      have hfile := at?_of_emptied hat
      rw [Options.cleared, if_neg fun hold => by simp [hfile] at hold, hfile]
    · rw [at?_cleared_of_ne hsound.tidy hconfined.ne_top hplace, hat]

/-- A file that is there when a bundle was written was left without the old one, or has landed. -/
theorem at?_of_settles {content : ByteArray} (hat : t'.at? place = some (.file content)) :
    (options.emptied t output).at? place = some (.file content) ∨
      ∃ file ∈ files.all, file.target = place ∧ content = file.text.toUTF8 := by
  have hconfined := hchosen.confined hsound hloop
  by_cases hold : (options.cleared t output).at? place = some (.file content)
  · refine .inl ?_
    by_cases hplace : place = output
    · rw [at?_emptied, if_neg fun hbelow => hbelow.2.2 hplace]
      exact at?_of_cleared hconfined.ne_top hold
    · rw [← at?_cleared_of_ne hsound.tidy hconfined.ne_top hplace, hold]
  · exact .inr (Bundle.Files.exists_of_file
      (guarded_cleared options hloop hconfined.plain hconfined.ne_top) hsettles.laid hat hold)

end

/-- A page or the index of a bundle has a path of its own. -/
theorem exists_view {tree : FileTree} {files : Bundle.Files docs render tree output output}
    {file : Bundle.File} (hfile : file ∈ files.pages ∨ file ∈ files.index) :
    ∃ relative, IsView docs render relative ∧
      Bundle.Placed tree output output relative file := by
  rcases hfile with hpage | hindex
  · have hwanted : render.includeMarkdown = true := by
      by_contra hnone
      have hpages := files.pages_are
      rw [Bundle.ArePages, if_neg hnone] at hpages
      rw [hpages] at hpage
      cases hpage
    obtain ⟨entry, hentry, hpage⟩ := files.exists_isPage hpage
    obtain ⟨page, hpath, hplaced⟩ := hpage.place
    exact ⟨page, .page hwanted hentry hpath, hplaced⟩
  · have hwanted : render.includeHtml = true := by
      by_contra hnone
      have hnoIndex := files.index_is
      rw [Bundle.IsIndex, if_neg hnone] at hnoIndex
      rw [hnoIndex] at hindex
      cases hindex
    exact ⟨_, .index hwanted, files.placed_index hindex⟩

section

variable (hsound : t.Sound) (hloop : t.LoopFree) {report : Report}
  (hindent : render.jsonIndent = .null ∨ ∃ n, render.jsonIndent = .int n)
  (hchosen : Chosen t (.ofString root) options rootPlace output)
  (hreads : ReadsFrom t options rootPlace directory)
  (hapart : Apart t (.ofString root) options render rootPlace output directory report.docs)
  (hrun : runDocgen (.ofString root) options none render strict t = (.ok report, t'))

include hsound hloop hchosen hreads hapart hrun in
/-- All paths lead where they led. -/
theorem Apart.sameWays :
    SameWays t t' (.ofString root) options rootPlace output directory := by
  obtain ⟨files, -, hsettles, hlocate⟩ := exists_files_of_runDocgen hsound hloop hchosen hrun
  have hkeeps := keeps_of_settles hsound hloop hchosen hsettles
    (FileTree.founded_of_locate hsettles.tidy hlocate).1
  have hlinks := sameLinks_of_settles hsound hloop hchosen hsettles
  obtain ⟨hplain, hdotless, -⟩ := ReadsFrom.locate hsound hloop hchosen hreads
  obtain ⟨artifacts, -, hopened⟩ := hapart.ways.readsFrom
  have hthere := locate_of_isDirectory (fun upper hupper target hlink =>
    hplain upper hupper target (hlinks.fewer _ _ hlink)) hdotless
    (openDirectory_eq_ok_iff.1 hopened).2
  exact hapart.ways.of_links hsound hloop hchosen hreads hlinks
    (hkeeps.directory _ (FileTree.founded_of_locate hlinks.tidy hthere).1)

include hsound hloop hchosen hapart hrun in
/-- The sources are read as they were. -/
theorem Apart.readText {path : Path} {text : String} (hpath : Source t directory path)
    (hread : t.readText path = .ok text) : t'.readText path = .ok text := by
  obtain ⟨files, -, hsettles, hlocate⟩ := exists_files_of_runDocgen hsound hloop hchosen hrun
  have hkeeps := keeps_of_settles hsound hloop hchosen hsettles
    (FileTree.founded_of_locate hsettles.tidy hlocate).1
  have hleft := hapart.sources path text hpath hread
  obtain ⟨place, content, hplace⟩ := FileTree.exists_locate_of_readText hleft
  have hplace' := hkeeps.locate_path hsettles.tidy hpath.start_ne hplace (by simp)
  obtain hdirectory | ⟨-, hat, -⟩ := FileTree.locate_eq_ok hplace
  · cases hdirectory
  obtain ⟨content', hat'⟩ := hkeeps.file place content hat
  rcases at?_of_settles hsound hloop hchosen hsettles hat' with hsame | ⟨file, hfile, htarget, -⟩
  · rw [hat'] at hplace'
    rw [hat] at hsame
    obtain rfl := Entry.file.inj (Option.some.inj hsame)
    rw [FileTree.readText_of_locate (hplace'.trans hplace.symm), hleft]
  · -- No file of the bundle has landed on a source.
    obtain ⟨relative, hrelative, hplaced⟩ : ∃ relative,
        (relative = .ofString Bundle.dataFile ∨ IsView report.docs render relative) ∧
          Bundle.Placed (options.cleared t output) output output relative file := by
      rcases Bundle.Files.mem_all.1 hfile with rfl | hview
      · exact ⟨_, .inl rfl, files.data_place⟩
      · obtain ⟨relative, hview, hplaced⟩ := exists_view hview
        exact ⟨relative, .inr hview, hplaced⟩
    have hdot : "." ∉ relative.parts := by
      rcases hrelative with rfl | hview
      · exact Path.noDot_ofString _
      · exact hview.noDot
    have hlands := landsIn_of_placed hsound hloop hchosen hdot hplaced
    rw [htarget] at hlands
    exact absurd hlands (hapart.kept path text place content hpath hread hplace relative hrelative)

include hsound hloop hindent hchosen hreads hapart hrun in
/-- The artifact directory is read again as it was. -/
theorem Apart.reread : Reread t t' directory := by
  have hconfined := hchosen.confined hsound hloop
  have hguarded := guarded_cleared options hloop hconfined.plain hconfined.ne_top
  obtain ⟨-, -, hrender⟩ := exists_render_of_runDocgen hsound hloop hchosen hrun
  obtain ⟨files, hwritten, hsettles, -⟩ := exists_files_of_runDocgen hsound hloop hchosen hrun
  obtain ⟨listed, -, -, hbounded⟩ :=
    exists_listing_of_runDocgen hsound hloop hchosen hreads hrun
  have hways := hapart.sameWays hsound hloop hchosen hreads hrun
  have hlinks := sameLinks_of_settles hsound hloop hchosen hsettles
  obtain ⟨hplain, hdotless, -⟩ := ReadsFrom.locate hsound hloop hchosen hreads
  obtain ⟨_, -, hopened⟩ := hreads
  obtain ⟨_, -, hreopened⟩ := hways.readsFrom
  have hlinksBefore (place : Location) (target : String) (hlink : t'.at? place = some (.link target)) :
      t.at? place = some (.link target) :=
    hlinks.fewer place target ((hlinks.same place target).2 hlink)
  refine ⟨hsound, hsettles.tidy, hlinksBefore,
    landing_of_isDirectory hplain hdotless (openDirectory_eq_ok_iff.1 hopened).2,
    landing_of_isDirectory
      (fun upper hupper target hlink => hplain upper hupper target (hlinksBefore _ _ hlink))
      hdotless (openDirectory_eq_ok_iff.1 hreopened).2,
    fun path text => hapart.readText hsound hloop hchosen hrun, hways.references,
    fun relative content hat hopen => ?_⟩
  rcases at?_of_settles hsound hloop hchosen hsettles hat with hold | ⟨file, hfile, htarget, rfl⟩
  · exact .inl (at?_of_emptied hold)
  · -- The file was written, and must be the one with the data.
    obtain rfl : file = files.data := by
      rcases Bundle.Files.mem_all.1 hfile with hdata | hview
      · exact hdata
      · obtain ⟨path, hview, hplaced⟩ := exists_view hview
        have hlands := landsIn_of_placed hsound hloop hchosen hview.noDot hplaced
        rw [htarget] at hlands
        exact absurd hlands (hapart.pages path hview relative hopen)
    obtain ⟨text, place, rest, htext, hfirst, hname, -⟩ :=
      Bundle.exists_data_of_render hconfined.dotless hguarded hrender
    obtain ⟨hplace, -⟩ := List.cons.inj (hwritten.symm.trans hfirst)
    obtain rfl := congrArg Path.parts hplace
    obtain ⟨fields, hholds, hfields⟩ := holds_dataText hindent hbounded files.data_text
    have hdotless' :=
      files.data_place.dotless hconfined.dotless (Path.noDot_ofString Bundle.dataFile)
    rw [← htarget] at hat ⊢
    exact .inr ⟨hdotless', hname, .obj fields,
      readJson_of_nameable hsettles.tidy hdotless' hname hat hholds,
      Artifacts.contractOf?_of_objects hfields⟩

include hsound hloop hindent hchosen hreads hrun in
/-- A run without a store that is made again at once succeeds with the same documentation and the
same written files, and leaves everything as it was, if before the first run its bundle is apart from
what it is made of, however the artifacts and the bundle lie to each other. -/
theorem runDocgen_again {p : Plan} (hplan : plan t (.ofString root) options none strict = .ok p)
    (hapart : Apart t (.ofString root) options render rootPlace output directory p.docs) :
    ∃ warnings s, runDocgen (.ofString root) options none render strict t' =
        (.ok ⟨report.output, report.docs, report.written, warnings⟩, s) ∧
      ∀ place, s.at? place = t'.at? place := by
  obtain ⟨hplanned, houtput, -⟩ := exists_render_of_runDocgen hsound hloop hchosen hrun
  obtain rfl := Except.ok.inj (hplan.symm.trans hplanned)
  obtain ⟨listed, hlisting, hdocs, -⟩ :=
    exists_listing_of_runDocgen hsound hloop hchosen hreads hrun
  have hways := hapart.sameWays hsound hloop hchosen hreads hrun
  have hreread := hapart.reread hsound hloop hindent hchosen hreads hrun
  obtain ⟨notes, hlisting'⟩ := hreread.exists_listing hlisting
  have hdocs' : (Artifacts.store t' directory).resolve strict listed.names = .ok report.docs := by
    rw [← hdocs]
    refine Store.resolve_congr fun name hname => ?_
    obtain ⟨v, -, houtput, -⟩ := Store.resolves_of_resolve hdocs hname
    exact (hreread.output_eq hlisting hname houtput).trans houtput.symm
  have hplan' : plan t' (.ofString root) options none strict =
      .ok ⟨.ofTop output, report.docs, notes ++ report.docs.warnings⟩ :=
    plan_of_listed ⟨⟨rootPlace, hways.chosen, openStore_none_eq_ok_iff.2
      ⟨directory, hways.readsFrom, rfl⟩⟩, hlisting'⟩ hdocs'
  obtain ⟨s, hwrite, hsame⟩ :=
    exists_writeOut_again hsound hloop hchosen hrun (notes ++ report.docs.warnings)
  refine ⟨notes ++ report.docs.warnings, s, ?_, hsame⟩
  rw [runDocgen_of_plan hplan', bind_apply_of_ok _ hwrite, pure_apply, houtput]

end

/-- The project with one contract and a second directory for documentation, inside the artifact
directory. -/
def twoOutputs : FileTree :=
  OneContract.project [(["project", "artifacts", "docs"], .directory)]

/-- The build whose artifacts the project holds. -/
def oneBuild : Build where
  label := "b"
  document := .obj [("output", .obj [("contracts", .obj [("A.sol",
    .obj [("A", .obj [("abi", .arr [])])])])])]
  sources := [("A.sol", [("A", .obj [("abi", .arr [])])])]
  contracts := rfl
  distinct := by decide
  distinctNames := by decide
  isSource := by decide +kernel
  isIdentifier := by decide +kernel

theorem layout_twoOutputs : Layout twoOutputs ["project", "artifacts"] oneBuild := by
  have hentries (relative : Location) (entry : Entry)
      (hat : twoOutputs.at? (["project", "artifacts"] ++ relative) = some entry) :=
    FileTree.mem_entries_of_at? hat (by simp)
  have hids : oneBuild.ids = [⟨"A.sol", "A"⟩] := rfl
  constructor
  case sound => decide +kernel
  case isDirectory => rfl
  case noLinks => exact fun relative => FileTree.not_link_of_linkCount (by decide) _
  case document => exact ⟨_, rfl, FileTree.holds_toUTF8 (by decide +kernel)⟩
  case artifact =>
    intro c hc
    obtain rfl := List.mem_singleton.1 (hids ▸ hc)
    exact ⟨_, .obj [("sourceName", .str "A.sol"), ("contractName", .str "A")], rfl,
      FileTree.holds_toUTF8 (by decide +kernel), rfl⟩
  case debug =>
    intro c hc
    obtain rfl := List.mem_singleton.1 (hids ▸ hc)
    exact ⟨_, .obj [("buildInfo", .str "../build-info/b.json")], rfl,
      FileTree.holds_toUTF8 (by decide +kernel), by decide +kernel⟩
  case only =>
    intro relative content hat
    have hmem := hentries relative _ hat
    simp only [twoOutputs, OneContract.project, List.cons_append, List.nil_append, List.mem_cons,
      Prod.mk.injEq, reduceCtorEq, and_false, false_or, List.not_mem_nil, or_false, List.cons.injEq,
      true_and, String.reduceEq, false_and] at hmem
    rcases hmem with ⟨rfl, -⟩ | ⟨rfl, -⟩ | ⟨rfl, -⟩
    · exact .inr ⟨⟨"A.sol", "A"⟩, by simp [hids], .inl rfl⟩
    · exact .inr ⟨⟨"A.sol", "A"⟩, by simp [hids], .inr rfl⟩
    · exact .inl rfl
  case short =>
    intro relative entry hat
    have hshort : ∀ place ∈ Table.keys twoOutputs.entries,
        (Path.ofTop place).toString.utf8ByteSize ≤ FileTree.maxPath := by decide +kernel
    exact hshort _ (Table.mem_keys_of_mem (hentries relative entry hat))

theorem listing_twoOutputs :
    Artifacts.listing twoOutputs ["project", "artifacts"] = .ok ⟨["A.sol:A"], []⟩ :=
  OneContract.listing_eq layout_twoOutputs.sound [] (by decide +kernel)
    (List.forall_mem_nil _)

theorem readsFrom_twoOutputs (options : Options) (h : options.artifacts = .str "./artifacts") :
    ReadsFrom twoOutputs options ["project"] ["project", "artifacts"] :=
  OneContract.readsFrom layout_twoOutputs.sound options h

/-- The contract is documented twice beside the artifacts, and twice among them. -/
theorem runDocgen_again_sample :
    (∃ t' warnings s,
      runDocgen (.ofString "/project") { clear := .bool true } none {} false twoOutputs =
        (.ok ⟨.ofTop ["project", "docgen"], OneContract.docs,
          OneContract.written ["project", "docgen"], []⟩, t') ∧
      runDocgen (.ofString "/project") { clear := .bool true } none {} false t' =
        (.ok ⟨.ofTop ["project", "docgen"], OneContract.docs,
          OneContract.written ["project", "docgen"], warnings⟩, s) ∧
      ∀ place, s.at? place = t'.at? place) ∧
    ∃ t' warnings s,
      runDocgen (.ofString "/project") { path := .str "artifacts/docs", clear := .bool true } none {}
          false twoOutputs =
        (.ok ⟨.ofTop ["project", "artifacts", "docs"], OneContract.docs,
          OneContract.written ["project", "artifacts", "docs"], []⟩, t') ∧
      runDocgen (.ofString "/project") { path := .str "artifacts/docs", clear := .bool true } none {}
          false t' =
        (.ok ⟨.ofTop ["project", "artifacts", "docs"], OneContract.docs,
          OneContract.written ["project", "artifacts", "docs"], warnings⟩, s) ∧
      ∀ place, s.at? place = t'.at? place := by
  have hlayout := layout_twoOutputs
  have hsound := hlayout.sound
  have hloop : twoOutputs.LoopFree := FileTree.loopFree_iff.2 (by decide +kernel)
  have hlinks := FileTree.not_link_of_linkCount (t := twoOutputs) (by decide)
  constructor
  · obtain ⟨-, -, hchosen⟩ := resolve_of_founded (t := twoOutputs) { clear := .bool true } rfl
      (by decide) (.inr rfl)
    obtain ⟨hplan, t', hrun⟩ := OneContract.exists_runDocgen hsound hlinks rfl (by decide)
      (by decide) listing_twoOutputs rfl rfl hchosen
    have hreads := readsFrom_twoOutputs { clear := .bool true } rfl
    have hbeside : Beside twoOutputs ["project", "docgen"] ["project", "artifacts"] :=
      hlayout.beside (fun place target _ => hlinks place target) (by decide) (by decide)
    obtain ⟨warnings, s, hagain, hsame⟩ := runDocgen_again hsound hloop (.inr ⟨2, rfl⟩) hchosen hreads
      hrun hplan (apart_of_beside hsound hloop hchosen hreads hbeside {} OneContract.docs)
    exact ⟨t', warnings, s, hrun, hagain, hsame⟩
  · have hplain (place : Location) : twoOutputs.Plain place := fun upper _ => hlinks upper
    have hroot : twoOutputs.resolve (.ofTop ["project"]) = .ok ["project"] :=
      FileTree.resolve_of_nameable (by decide) (hplain _) (by decide)
    have hplace : twoOutputs.resolve (Path.ofTop ["project"] / "artifacts/docs") =
        .ok ["project", "artifacts", "docs"] :=
      FileTree.resolve_of_eq_ofTop (by decide +kernel) (by decide) (hplain _) (by decide)
    have hchosen : Chosen twoOutputs (.ofString "/project")
        { path := .str "artifacts/docs", clear := .bool true } ["project"]
        ["project", "artifacts", "docs"] :=
      .of_resolve hroot hroot rfl hplace (by decide) (by decide)
    obtain ⟨hplan, t', hrun⟩ := OneContract.exists_runDocgen hsound hlinks rfl (by decide)
      (by decide) listing_twoOutputs rfl rfl hchosen
    have hreads := readsFrom_twoOutputs
      { path := .str "artifacts/docs", clear := .bool true } rfl
    -- No file of the artifacts is in the directory.
    have hcleared (relative : Location) (content : ByteArray)
        (hat : twoOutputs.at? (["project", "artifacts"] ++ relative) = some (.file content)) :
        ¬["project", "artifacts", "docs"] <+: ["project", "artifacts"] ++ relative := by
      have hids : oneBuild.ids = [⟨"A.sol", "A"⟩] := rfl
      rcases hlayout.only relative content hat with rfl | ⟨c, hc, hrelative⟩
      · decide
      · obtain rfl := List.mem_singleton.1 (hids ▸ hc)
        rcases hrelative with rfl | rfl <;> decide +kernel
    obtain ⟨warnings, s, hagain, hsame⟩ := runDocgen_again hsound hloop (.inr ⟨2, rfl⟩) hchosen hreads
      hrun hplan (apart_of_layout hsound hloop hchosen hreads hlayout hlinks (fun _ => hcleared)
        (by decide) {} OneContract.docs)
    exact ⟨t', warnings, s, hrun, hagain, hsame⟩

/-- A project whose artifact directory is in the directory of its documentation. -/
def innerArtifacts : FileTree :=
  ⟨[], [(["project"], .directory), (["project", "docgen"], .directory),
    (["project", "docgen", "artifacts"], .directory)]⟩

def clearingArtifacts : Options := { artifacts := .str "docgen/artifacts", clear := .bool true }

theorem plan_innerArtifacts : plan innerArtifacts (.ofString "/project") clearingArtifacts none false =
    .ok ⟨.ofTop ["project", "docgen"], [], []⟩ := by
  have hsound : innerArtifacts.Sound := by decide
  have hlocate : innerArtifacts.locate true (.ofTop ["project", "docgen", "artifacts"]) =
      .ok (["project", "docgen", "artifacts"], some .directory) :=
    hsound.locate_directory true rfl (by decide)
  have hresolve : innerArtifacts.resolve (Path.ofTop ["project"] / "docgen/artifacts") =
      .ok ["project", "docgen", "artifacts"] :=
    FileTree.resolve_of_eq_ofTop (by decide) (by decide) (hsound.plain rfl nofun) (by decide)
  obtain ⟨-, -, hchosen⟩ :=
    resolve_of_founded (t := innerArtifacts) clearingArtifacts rfl (by decide) (.inr rfl)
  have hopened : openDirectory innerArtifacts (Path.ofTop ["project"] / "docgen/artifacts") =
      .ok ["project", "docgen", "artifacts"] :=
    openDirectory_eq_ok_iff.2
      ⟨hresolve, FileTree.isDirectory_eq_true_iff.2 ⟨by decide, _, hlocate⟩⟩
  have hcandidates : Artifacts.candidates innerArtifacts ["project", "docgen", "artifacts"] = [] := by
    rw [Artifacts.candidates, landing, hlocate]
    decide +kernel
  have hlisting : Artifacts.listing innerArtifacts ["project", "docgen", "artifacts"] =
      .ok ⟨[], []⟩ := by
    have hfiles : Artifacts.files innerArtifacts ["project", "docgen", "artifacts"] = [] := by
      rw [Artifacts.files, hcandidates]
      rfl
    refine Artifacts.listing_eq_ok_iff.2 ⟨?_, ?_⟩
    · rw [hcandidates]
      exact List.forall_mem_nil _
    · rw [hfiles]
      simp [Artifacts.artifactsAt, Artifacts.warningsAt]
  exact plan_of_listed ⟨⟨_, hchosen, openStore_none_eq_ok_iff.2 ⟨_, ⟨_, rfl, hopened⟩, rfl⟩⟩, hlisting⟩
    rfl

/-- If the artifacts are cleared with the old bundle then a second run fails. -/
theorem runDocgen_clears_artifacts : ∃ report t',
    runDocgen (.ofString "/project") clearingArtifacts none { includeHtml := false } false
      innerArtifacts = (.ok report, t') ∧
    runDocgen (.ofString "/project") clearingArtifacts none { includeHtml := false } false t' =
      (.error (.problem (.noArtifactsDirectory "/project/docgen/artifacts")), t') := by
  have hsound : innerArtifacts.Sound := by decide +kernel
  have hclear : clearOutput (.ofTop ["project", "docgen"]) innerArtifacts =
      (.ok (), innerArtifacts.remove ["project", "docgen"]) :=
    clearOutput_of_directory hsound rfl (by decide) (by decide)
  obtain ⟨text, -, hrender⟩ := exists_render_noContracts
    (hsound.tidy.remove ["project", "docgen"]) (by decide) rfl
  have hwrite := (congrFun (writeOut_eq clearingArtifacts { includeHtml := false }
    ⟨.ofTop ["project", "docgen"], [], []⟩) innerArtifacts).trans
      ((bind_apply_of_ok _ hclear).trans hrender)
  refine ⟨⟨.ofTop ["project", "docgen"], [], [.ofTop ["project", "docgen", "docgen-data.json"]], []⟩,
    begunBundle text, ?_, runDocgen_of_stops _ ?_⟩
  · rw [runDocgen_of_plan plan_innerArtifacts, bind_apply_of_ok _ hwrite, pure_apply]
    rfl
  · have htidy : (begunBundle text).Tidy := by
      have hkept := (Bundle.respects_render [] ["project", "docgen"] { includeHtml := false }).tidy
        (hsound.tidy.remove ["project", "docgen"])
      rw [hrender] at hkept
      exact hkept
    have hdocgen : (begunBundle text).at? ["project", "docgen"] = some .directory := rfl
    obtain ⟨-, -, hchosen⟩ := resolve_of_founded (t := begunBundle text) clearingArtifacts rfl
      (htidy.founded hdocgen) (.inr hdocgen)
    have hplain : (begunBundle text).Plain ["project", "docgen", "artifacts"] :=
      fun upper _ => FileTree.not_link_of_linkCount rfl upper
    have hmissing : (begunBundle text).locate true (.ofTop ["project", "docgen", "artifacts"]) =
        .ok (["project", "docgen", "artifacts"], none) :=
      FileTree.Nameable.locate_eq (by decide) true hplain (by decide)
        (htidy.founded_concat hdocgen "artifacts")
    have hresolve : (begunBundle text).resolve (Path.ofTop ["project"] / "docgen/artifacts") =
        .ok ["project", "docgen", "artifacts"] :=
      FileTree.resolve_of_eq_ofTop (by decide) (by decide) hplain (by decide)
    have hrefused : openDirectory (begunBundle text) (Path.ofTop ["project"] / "docgen/artifacts") =
        .error (.problem (.noArtifactsDirectory "/project/docgen/artifacts")) := by
      rw [openDirectory, hresolve, liftM_ok, ok_bind]
      dsimp only
      rw [FileTree.holds, FileTree.lookup_of_noNull (by decide), FileTree.status, hmissing]
      rfl
    exact .opening hchosen (bind_eq_error_iff.2 (.inr ⟨"docgen/artifacts", rfl,
      bind_eq_error_iff.2 (.inl hrefused)⟩))

end NatSpec
