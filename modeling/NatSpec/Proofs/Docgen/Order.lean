import NatSpec.Json.Equality
import NatSpec.Proofs.Artifacts.Layout
import NatSpec.Proofs.Artifacts.Reread
import NatSpec.Proofs.Bundle.Fits
import NatSpec.Proofs.Bundle.Index
import NatSpec.Proofs.Bundle.Pages
import NatSpec.Proofs.Docgen.Cleared

/-!
A run does not depend on the order in which directories list their entries. What it plans is read
from an artifact directory, whose listing has one order once it is sorted; what it writes depends on
what stands in each place only.
-/

namespace NatSpec

open Artifacts (buildInfo_eq_ok_iff contractAt? debugPath openDirectory openDirectory_eq_ok_iff
  skipWarning)
open FileTree (Alike Dotless Relisted Tidy)

variable {t t' : FileTree} {root : Path} {options : Options} {render : RenderOptions}
  {strict : Bool}

/-- The artifact directory from which a run without a store reads. -/
def ReadsFrom (t : FileTree) (options : Options) (rootPlace directory : Location) : Prop :=
  ∃ artifacts, pathText options.artifacts = .ok artifacts ∧
    openDirectory t (Path.ofTop rootPlace / artifacts) = .ok directory

/-- A run opens its artifact directory, if it is given no store. -/
theorem openStore_none_eq_ok_iff {rootPlace : Location} {opened : Store} :
    openStore t rootPlace options none = .ok opened ↔
      ∃ directory, ReadsFrom t options rootPlace directory ∧ opened = Artifacts.store t directory := by
  rw [openStore]
  constructor
  · intro h
    obtain ⟨artifacts, hartifacts, h⟩ := bind_eq_ok_iff.1 h
    obtain ⟨directory, hdirectory, h⟩ := bind_eq_ok_iff.1 h
    exact ⟨directory, ⟨artifacts, liftM_eq_ok_iff.1 hartifacts, hdirectory⟩, (Except.ok.inj h).symm⟩
  · rintro ⟨directory, ⟨artifacts, hartifacts, hdirectory⟩, rfl⟩
    dsimp only
    rw [hartifacts, liftM_ok, ok_bind, hdirectory, ok_bind]

/-- What a run without a store plans, it plans whatever the order of listing, but for the order of the
notes on files that it skips. -/
theorem FileTree.Alike.exists_plan (h : Alike t t') {p : Plan}
    (hplan : plan t root options none strict = .ok p) :
    ∃ rootPlace directory listed listed', t.resolve root = .ok rootPlace ∧
      ReadsFrom t options rootPlace directory ∧
      Artifacts.listing t directory = .ok listed ∧
      Artifacts.listing t' directory = .ok listed' ∧
      listed.warnings.Perm listed'.warnings ∧
      p.warnings = listed.warnings ++ p.docs.warnings ∧
      plan t' root options none strict =
        .ok { p with warnings := listed'.warnings ++ p.docs.warnings } := by
  obtain ⟨output, opened, listed, ⟨⟨rootPlace, hchosen, hopened⟩, hlisting⟩, houtput, hdocs,
    hwarnings⟩ := exists_of_plan hplan
  obtain ⟨directory, hreads, rfl⟩ := openStore_none_eq_ok_iff.1 hopened
  obtain ⟨notes, hlisting', hnotes⟩ := h.exists_listing hlisting
  have hchosen' : Chosen t' root options rootPlace output := by
    obtain ⟨hroot, path, hpath, hchosen⟩ := hchosen
    refine ⟨h.resolve root ▸ hroot, path, hpath, ?_⟩
    rw [← hchosen]
    unfold outputDirectory
    simp only [h.resolve]
  have hreads' : ReadsFrom t' options rootPlace directory := by
    obtain ⟨artifacts, hartifacts, hdirectory⟩ := hreads
    exact ⟨artifacts, hartifacts, h.openDirectory _ ▸ hdirectory⟩
  have hopened' := openStore_none_eq_ok_iff.2 ⟨directory, hreads', rfl⟩
  have hdocs' : (Artifacts.store t' directory).resolve strict listed.names = .ok p.docs := by
    rw [← hdocs]
    exact Store.resolve_congr fun name _ => (h.output name).symm
  have hplan' := plan_of_listed ⟨⟨rootPlace, hchosen', hopened'⟩, hlisting'⟩ hdocs'
  rw [← houtput] at hplan'
  exact ⟨rootPlace, directory, listed, _, hchosen.root, hreads, hlisting, hlisting', hnotes,
    hwarnings, hplan'⟩

/-- What a run writes, and whether it gets that far, depends on what stands in each place only. -/
theorem respects_writeOut (options : Options) (render : RenderOptions) {p : Plan}
    {output : Location} (h : p.output = .ofTop output) : Respects (writeOut options render p) := by
  rw [writeOut_eq, h]
  refine .bind ?_ fun _ => Bundle.respects_render p.docs output render
  split
  · exact respects_clearOutput output
  · exact .pure _

/-- What a plan writes, it writes in every tree that holds the same. -/
theorem FileTree.Alike.exists_writeOut (h : Alike t t') (options : Options) (render : RenderOptions)
    {p : Plan} {output : Location} (houtput : p.output = .ofTop output) (warnings : List String)
    {written : List Path} {s : FileTree} (hwrite : writeOut options render p t = (.ok written, s)) :
    ∃ s', writeOut options render { p with warnings } t' = (.ok written, s') ∧ Alike s s' := by
  obtain ⟨hresult, hleft⟩ := respects_writeOut options render houtput t t' h
  rw [hwrite] at hresult hleft
  exact ⟨(writeOut options render p t').2, Prod.ext hresult.symm rfl, hleft⟩

/-- Two reports that differ in their notes on skipped files only, which were made in different orders
while the artifact directory was listed. The notes stand at the front of the warnings. -/
structure Report.Renoted (t t' : FileTree) (directory : Location) (report report' : Report) :
    Prop where
  output : report'.output = report.output
  docs : report'.docs = report.docs
  written : report'.written = report.written
  notes : ∃ listed listed', Artifacts.listing t directory = .ok listed ∧
    Artifacts.listing t' directory = .ok listed' ∧ listed.warnings.Perm listed'.warnings ∧
    report.warnings = listed.warnings ++ report.docs.warnings ∧
    report'.warnings = listed'.warnings ++ report.docs.warnings

/-- What a run without a store does, it does in every tree that holds the same. -/
theorem FileTree.Alike.exists_runDocgen (h : Alike t t') {report : Report} {s : FileTree}
    (hrun : runDocgen root options none render strict t = (.ok report, s)) :
    ∃ rootPlace directory report' s', t.resolve root = .ok rootPlace ∧
      ReadsFrom t options rootPlace directory ∧
      runDocgen root options none render strict t' = (.ok report', s') ∧
      report.Renoted t t' directory report' ∧ Alike s s' := by
  obtain ⟨p, hplan, hreport, hwrite⟩ := exists_of_runDocgen hrun
  obtain ⟨output, -, -, -, houtput, -⟩ := exists_of_plan hplan
  obtain ⟨_, _, written, _⟩ := report
  obtain ⟨rfl, rfl, -, rfl⟩ := Report.mk.inj hreport
  obtain ⟨rootPlace, directory, listed, listed', hroot, hreads, hlisting, hlisting', hnotes,
    hwarnings, hplan'⟩ := h.exists_plan hplan
  obtain ⟨s', hwrite', hleft⟩ := h.exists_writeOut options render houtput
    (listed'.warnings ++ p.docs.warnings) hwrite
  refine ⟨rootPlace, directory, ⟨p.output, p.docs, written, listed'.warnings ++ p.docs.warnings⟩, s',
    hroot, hreads, ?_, ⟨rfl, rfl, rfl, listed, listed', hlisting, hlisting', hnotes, hwarnings, rfl⟩,
    hleft⟩
  rw [runDocgen_of_plan hplan', bind_apply_of_ok _ hwrite', pure_apply]

/-- A run without a store does the same in whatever order directories list their entries. It succeeds
or not, and if it does then with the same documentation, the same written files and the same warnings
but for the order of the notes on skipped files, and it leaves the same in all places. -/
theorem runDocgen_of_relisted (htidy : t.Tidy) (hlisted : Relisted t t') (root : Path)
    (options : Options) (render : RenderOptions) (strict : Bool) :
    ((∃ report s, runDocgen root options none render strict t = (.ok report, s)) ↔
      ∃ report s, runDocgen root options none render strict t' = (.ok report, s)) ∧
    ∀ report s, runDocgen root options none render strict t = (.ok report, s) →
      ∃ rootPlace directory report' s', t.resolve root = .ok rootPlace ∧
        ReadsFrom t options rootPlace directory ∧
        runDocgen root options none render strict t' = (.ok report', s') ∧
        report.Renoted t t' directory report' ∧
        s.here = s'.here ∧ ∀ place, s.at? place = s'.at? place := by
  have halike := hlisted.alike htidy
  refine ⟨⟨?_, ?_⟩, fun report s hrun => ?_⟩
  · rintro ⟨report, s, hrun⟩
    obtain ⟨-, -, report', s', -, -, hrun', -⟩ := halike.exists_runDocgen hrun
    exact ⟨report', s', hrun'⟩
  · rintro ⟨report, s, hrun⟩
    obtain ⟨-, -, report', s', -, -, hrun', -⟩ := halike.symm.exists_runDocgen hrun
    exact ⟨report', s', hrun'⟩
  · obtain ⟨rootPlace, directory, report', s', hroot, hreads, hrun', hnotes, hleft⟩ :=
      halike.exists_runDocgen hrun
    exact ⟨rootPlace, directory, report', s', hroot, hreads, hrun', hnotes, hleft.here, hleft.same⟩

/-! ### A project with one contract -/

namespace OneContract

open NatSpec.Bundle (Lands emptyDoc)

def documentText : String :=
  "\x7b\"output\": \x7b\"contracts\": \x7b\"A.sol\": \x7b\"A\": \x7b\"abi\": []\x7d\x7d\x7d\x7d\x7d"

def artifactText : String := "\x7b\"sourceName\": \"A.sol\", \"contractName\": \"A\"\x7d"

def debugText : String := "\x7b\"buildInfo\": \"../build-info/b.json\"\x7d"

/-- A project with an old bundle and the artifacts of one contract, and with other entries. -/
def project (others : Table Location Entry) : FileTree :=
  ⟨[], [(["project"], .directory), (["project", "docgen"], .directory),
    (["project", "docgen", "old.md"], .file .empty), (["project", "artifacts"], .directory),
    (["project", "artifacts", "A.sol"], .directory),
    (["project", "artifacts", "A.sol", "A.json"], .file artifactText.toUTF8),
    (["project", "artifacts", "A.sol", "A.dbg.json"], .file debugText.toUTF8),
    (["project", "artifacts", "build-info"], .directory),
    (["project", "artifacts", "build-info", "b.json"], .file documentText.toUTF8)] ++ others⟩

/-- The documentation of the contract. -/
def docs : Docs := [("A.sol:A", emptyDoc "A.sol" "A")]

variable {others : Table Location Entry} (hsound : (project others).Sound)
include hsound

theorem readsFrom (options : Options) (hartifacts : options.artifacts = .str "./artifacts") :
    ReadsFrom (project others) options ["project"] ["project", "artifacts"] := by
  have hat : (project others).at? ["project", "artifacts"] = some .directory := rfl
  have hresolve : (project others).resolve (Path.ofTop ["project"] / "./artifacts") =
      .ok ["project", "artifacts"] :=
    FileTree.resolve_of_eq_ofTop (by decide +kernel) (by decide) (hsound.plain hat (by simp))
      (by decide)
  have hlocate := hsound.locate_eq true hat (by simp)
  rw [if_neg (by decide)] at hlocate
  refine ⟨"./artifacts", by rw [hartifacts]; rfl, ?_⟩
  exact openDirectory_eq_ok_iff.2
    ⟨hresolve, FileTree.isDirectory_eq_true_iff.2 ⟨by decide, _, hlocate⟩⟩

theorem landing_eq :
    Artifacts.landing (project others) ["project", "artifacts"] = ["project", "artifacts"] := by
  have hat : (project others).at? ["project", "artifacts"] = some .directory := rfl
  have hlocate := hsound.locate_eq true hat (by simp)
  rw [if_neg (by decide)] at hlocate
  rw [Artifacts.landing, hlocate]

theorem output_eq : Artifacts.output (project others) ["project", "artifacts"] "A.sol:A" =
    .ok (.obj [("abi", .arr [])] : Json) := by
  have hat : (project others).at? ["project", "artifacts", "build-info", "b.json"] =
      some (.file documentText.toUTF8) := rfl
  have hdebug : (project others).readJson (debugPath ["project", "artifacts"] ⟨"A.sol", "A"⟩) =
      .ok (.obj [("buildInfo", .str ("../build-info/b.json" : Utf16))]) := by
    have hpath : debugPath ["project", "artifacts"] ⟨"A.sol", "A"⟩ =
        .ofTop ["project", "artifacts", "A.sol", "A.dbg.json"] := by decide +kernel
    rw [hpath]
    have hat : (project others).at? ["project", "artifacts", "A.sol", "A.dbg.json"] =
        some (.file debugText.toUTF8) := rfl
    exact Artifacts.readJson_of_holds hsound hat (by decide +kernel)
      (FileTree.holds_toUTF8 (by decide +kernel))
  have hplace : (project others).resolve
      ((debugPath ["project", "artifacts"] ⟨"A.sol", "A"⟩).parent.join
        (.ofString "../build-info/b.json")) =
      .ok ["project", "artifacts", "build-info", "b.json"] := by
    have hpath : (debugPath ["project", "artifacts"] ⟨"A.sol", "A"⟩).parent.join
        (.ofString "../build-info/b.json") =
        .ofTop (["project", "artifacts", "A.sol"] ++ ([".."] ++ ["build-info", "b.json"])) := by
      decide +kernel
    have hsource : (project others).at? ["project", "artifacts", "A.sol"] = some .directory := rfl
    have hdown : (project others).Leads 0 [] ["project", "artifacts", "A.sol"]
        ["project", "artifacts", "A.sol"] :=
      FileTree.leads_of_plain (hsound.plain hsource (by simp)) (by decide)
    have hleads : (project others).Leads 0 ["project", "artifacts"] ["build-info", "b.json"]
        ["project", "artifacts", "build-info", "b.json"] :=
      FileTree.leads_of_plain (hsound.plain hat (by simp)) (by decide)
    rw [hpath]
    exact hsound.resolve_eq (hdown.append (.up hleads)) (by decide) hat (by simp)
  have hdocument : (project others).readJson
      (.ofTop ["project", "artifacts", "build-info", "b.json"]) =
      .ok (.obj [("output", .obj [("contracts", .obj [("A.sol",
        .obj [("A", .obj [("abi", .arr [])])])])])] : Json) :=
    Artifacts.readJson_of_holds hsound hat (by decide +kernel)
      (FileTree.holds_toUTF8 (by decide +kernel))
  have hparse : ContractName.parse "A.sol:A" = .ok ⟨"A.sol", "A"⟩ := by rfl
  have hinfo := buildInfo_eq_ok_iff.2
    ⟨_, _, _, _, _, hparse, hdebug, rfl, Artifacts.referencePath_ofString _, hplace, hdocument, rfl⟩
  rw [Artifacts.output, hparse, ok_bind, hinfo, ok_bind]
  rfl

/-- In the artifact directory there are the artifact of the contract and some files of the top that
are no artifacts, which are noted in the order of the walk. -/
theorem listing_eq (names : List String)
    (hcandidates : Artifacts.walk (project others) ["project", "artifacts"] ["project", "artifacts"]
      (project others).entries.length [] = names.map ([·]) ++ [["A.sol", "A.json"]])
    (hnames : ∀ name ∈ names, FileTree.Nameable ["project", "artifacts", name] ∧
      (project others).at? ["project", "artifacts", name] = some (.file "[]".toUTF8)) :
    Artifacts.listing (project others) ["project", "artifacts"] =
      .ok ⟨["A.sol:A"], names.map fun name => skipWarning [name]⟩ := by
  have hfile (relative : Location) {content : ByteArray} {v : Json}
      (hname : FileTree.Nameable (["project", "artifacts"] ++ relative))
      (hat : (project others).at? (["project", "artifacts"] ++ relative) = some (.file content))
      (hholds : FileTree.Holds content v) :
      (project others).isLink (.ofTop (["project", "artifacts"] ++ relative)) = .ok false ∧
        (project others).readJson (.ofTop (["project", "artifacts"] ++ relative)) = .ok v :=
    ⟨Artifacts.isLink_of_nameable hsound.tidy (hsound.dotless hat) hname hat,
      Artifacts.readJson_of_holds hsound hat hname.short hholds⟩
  have hnote (name : String) (hmem : name ∈ names) :=
    hfile [name] (hnames name hmem).1 (hnames name hmem).2
      (FileTree.holds_toUTF8 (v := .arr []) (by decide +kernel))
  have hartifact := hfile ["A.sol", "A.json"] (by decide +kernel) rfl
    (FileTree.holds_toUTF8 (v := .obj [("sourceName", .str "A.sol"), ("contractName", .str "A")])
      (by decide +kernel))
  have hall : Artifacts.candidates (project others) ["project", "artifacts"] =
      names.map ([·]) ++ [["A.sol", "A.json"]] := by
    rw [Artifacts.candidates, landing_eq hsound, hcandidates]
  have hseen : ∀ relative ∈ names.map ([·]) ++ [["A.sol", "A.json"]],
      (project others).isLink (.ofTop (["project", "artifacts"] ++ relative)) = .ok false ∧
        ∃ v : Json,
          (project others).readJson (.ofTop (["project", "artifacts"] ++ relative)) = .ok v := by
    refine List.forall_mem_append.2 ⟨List.forall_mem_map.2 fun name hmem => ?_,
      List.forall_mem_singleton.2 ⟨hartifact.1, _, hartifact.2⟩⟩
    exact ⟨(hnote name hmem).1, _, (hnote name hmem).2⟩
  have hfiles : Artifacts.files (project others) ["project", "artifacts"] =
      names.map ([·]) ++ [["A.sol", "A.json"]] := by
    rw [Artifacts.files, hall]
    exact List.filter_eq_self.2 fun relative hmem => by rw [(hseen relative hmem).1]
  have hnone : ∀ name ∈ names,
      contractAt? (project others) ["project", "artifacts"] [name] = none :=
    fun name hmem => Artifacts.contractAt?_of_readJson (hnote name hmem).2
  have hcontract : contractAt? (project others) ["project", "artifacts"] ["A.sol", "A.json"] =
      some ⟨"A.sol", "A"⟩ := Artifacts.contractAt?_of_readJson hartifact.2
  refine Artifacts.listing_eq_ok_iff.2 ⟨?_, ?_⟩
  · rw [hall]
    exact fun relative hmem => .inr (hseen relative hmem)
  · have hartifacts : Artifacts.artifactsAt (project others) ["project", "artifacts"]
        (names.map ([·]) ++ [["A.sol", "A.json"]]) =
        [⟨.ofTop ["project", "artifacts", "A.sol", "A.json"], ⟨"A.sol", "A"⟩⟩] := by
      rw [Artifacts.artifactsAt, List.filterMap_append, List.filterMap_map,
        List.filterMap_eq_nil_iff.2 fun name hmem => by simp [hnone name hmem]]
      simp [hcontract]
    have hwarnings : Artifacts.warningsAt (project others) ["project", "artifacts"]
        (names.map ([·]) ++ [["A.sol", "A.json"]]) = names.map fun name => skipWarning [name] := by
      rw [Artifacts.warningsAt, List.filter_append, List.filter_map,
        List.filter_eq_self.2 fun name hmem => by simp [hnone name hmem]]
      simp [hcontract]
    rw [hfiles, hartifacts, hwarnings, List.map_singleton, List.mergeSort_singleton]
    rfl

omit hsound in
theorem exists_contents : ∃ data page index, Bundle.contents docs {} =
    .ok [(⟨.here, ["docgen-data.json"]⟩, data), (⟨.here, ["contracts", "A.sol", "A.md"]⟩, page),
      (⟨.here, ["index.html"]⟩, index)] := by
  have hnone : Index.IsGroup .null := fun h => absurd h (by decide)
  obtain ⟨index, hindex⟩ : ∃ index, Index.render docs true = .ok index :=
    Index.exists_render_iff.2 (List.forall_mem_singleton.2
      ⟨fun _ => ⟨_, rfl⟩, hnone, hnone, hnone⟩)
  obtain ⟨data, hdata⟩ : ∃ data, Bundle.dataText docs (.int 2) = .ok data := ⟨_, rfl⟩
  obtain ⟨page, hpage⟩ : ∃ page, Page.render (emptyDoc "A.sol" "A") = .ok page := ⟨_, rfl⟩
  have hdataPath : Path.ofString Bundle.dataFile = ⟨.here, ["docgen-data.json"]⟩ := by decide
  have hindexPath : Path.ofString Bundle.indexFile = ⟨.here, ["index.html"]⟩ := by decide
  refine ⟨data, page, index, ?_⟩
  rw [← hdataPath, ← hindexPath]
  exact Bundle.contents_eq_ok_iff.2 ⟨data, _, [(_, index)], hdata,
    mapM_eq_ok_iff.2 (.cons (Bundle.pageFile_eq_ok_iff.2 ⟨rfl, hpage⟩) .nil),
    bind_eq_ok_iff.2 ⟨index, hindex, rfl⟩, rfl⟩

/-- The three files of the bundle, by their ways from its directory. -/
def files : List Location :=
  [["docgen-data.json"], ["contracts", "A.sol", "A.md"], ["index.html"]]

def written (output : Location) : List Path :=
  files.map fun parts => .ofTop (output ++ parts)

variable (hlinks : ∀ place target, (project others).at? place ≠ some (.link target))
  {output : Location} (hold : (project others).at? output = some .directory)
  (hnames : ∀ parts ∈ files, FileTree.Nameable (output ++ parts)) (hne : output ≠ [])
include hlinks hold hnames hne

theorem exists_render :
    ∃ s, Bundle.render docs (.ofTop output) {} ((project others).remove output) =
      (.ok (written output), s) := by
  obtain ⟨data, page, index, hcontents⟩ := exists_contents
  have hremoved (place : Location) :
      ((project others).remove output).at? place =
        if output <+: place then none else (project others).at? place :=
    FileTree.at?_remove hne place
  have hnone (place : Location) (target : String) :
      ((project others).remove output).at? place ≠ some (.link target) := by
    rw [hremoved]
    split
    · exact (by simp)
    · exact hlinks place target
  have hdotless := hsound.dotless hold
  have hname : FileTree.Nameable output :=
    FileTree.Nameable.of_prefix (hnames _ List.mem_cons_self) (List.prefix_append _ _)
  have hfounded : ((project others).remove output).Founded output := by
    intro upper hupper hother
    rw [hremoved, if_neg fun hlower => hother
      (hupper.eq_of_length (hupper.length_le.antisymm hlower.length_le))]
    exact hsound.tidy.founded hold upper hupper hother
  have hmissing : ((project others).remove output).at? output = none := by
    rw [hremoved, if_pos List.prefix_rfl]
  obtain ⟨hopened, hmade, hready⟩ := Bundle.opened_of_missing
    (t := (project others).remove output) output
    ⟨hsound.tidy.remove output, rfl, ⟨List.not_mem_nil, List.not_mem_nil⟩⟩ hname hdotless hfounded
    hmissing (.inr fun place _ => hnone place)
  have hlands (parts : Location) (hparts : parts ∈ files) (text : String) :
      Lands ((project others).remove output) (.ofTop output) output (⟨.here, parts⟩, text)
        (output ++ parts, .file text.toUTF8) := by
    have hdots : ∀ parts ∈ files, Dotless parts := by decide
    refine .of_plain (hnames parts hparts) ⟨?_, ?_⟩ (fun upper _ => hnone upper) text
    · simp [hdotless.noDot, (hdots parts hparts).noDot]
    · simp [hdotless.noDots, (hdots parts hparts).noDots]
  have hroom (parts : Location) (hparts : parts ∈ files) :
      (((project others).remove output).put output .directory).Room (output ++ parts) := by
    have hproper : ∀ parts ∈ files, parts ≠ [] := by decide
    refine FileTree.room_of_empty hready.based.tidy ?_ (fun below hbelow hother => ?_)
      (hnames parts hparts) (List.prefix_append _ _) (by simpa using hproper parts hparts)
    · rw [FileTree.at?_put hne, if_pos rfl]
    · rw [FileTree.at?_put hne, if_neg hother.symm, hremoved, if_pos hbelow]
  obtain ⟨s, hrender, -⟩ := Bundle.exists_render_of_lands hopened hmade hready hcontents
    (.cons (hlands _ (by decide) data) <| .cons (hlands _ (by decide) page) <|
      .cons (hlands _ (by decide) index) .nil)
    (by simpa [files] using hroom) (by simp [FileTree.Unnested])
  exact ⟨s, hrender⟩

/-- Its documentation is written where the old bundle was. -/
theorem exists_runDocgen {notes : List String} {options : Options}
    (hlisting : Artifacts.listing (project others) ["project", "artifacts"] =
      .ok ⟨["A.sol:A"], notes⟩)
    (hclear : options.clear.truthy = true) (hartifacts : options.artifacts = .str "./artifacts")
    (hchosen : Chosen (project others) (.ofString "/project") options ["project"] output) :
    plan (project others) (.ofString "/project") options none false =
        .ok ⟨.ofTop output, docs, notes⟩ ∧
      ∃ s, runDocgen (.ofString "/project") options none {} false (project others) =
        (.ok ⟨.ofTop output, docs, written output, notes⟩, s) := by
  have hdocs : (Artifacts.store (project others) ["project", "artifacts"]).resolve false ["A.sol:A"] =
      .ok docs := by
    have hoffers : (Artifacts.store (project others) ["project", "artifacts"]).output "A.sol:A" =
      .ok (.obj [("abi", .arr [])]) := output_eq hsound
    rw [Store.resolve, List.foldlM_cons, Store.document, hoffers]
    rfl
  have hplan : plan (project others) (.ofString "/project") options none false =
      .ok ⟨.ofTop output, docs, notes⟩ := by
    rw [plan_of_listed ⟨⟨_, hchosen, openStore_none_eq_ok_iff.2
      ⟨_, readsFrom hsound options hartifacts, rfl⟩⟩, hlisting⟩ hdocs]
    exact congrArg (fun warnings => Except.ok (Plan.mk _ _ warnings)) (List.append_nil notes)
  have hname : FileTree.Nameable output :=
    FileTree.Nameable.of_prefix (hnames _ List.mem_cons_self) (List.prefix_append _ _)
  obtain ⟨s, hrender⟩ := exists_render hsound hlinks hold hnames hne
  have hwrite : writeOut options {} ⟨.ofTop output, docs, notes⟩ (project others) =
      (.ok (written output), s) := by
    rw [writeOut_eq, if_pos hclear]
    exact (bind_apply_of_ok _ (clearOutput_of_directory hsound hold hne hname.short)).trans hrender
  refine ⟨hplan, s, ?_⟩
  rw [runDocgen_of_plan hplan, bind_apply_of_ok _ hwrite, pure_apply]

end OneContract

/-- The project with two files that are no artifacts. -/
def twoNotes : FileTree :=
  OneContract.project [(["project", "artifacts", "a.json"], .file "[]".toUTF8),
    (["project", "artifacts", "b.json"], .file "[]".toUTF8)]

/-- The same project, with these files listed the other way round. -/
def twoNotesSwapped : FileTree :=
  OneContract.project [(["project", "artifacts", "b.json"], .file "[]".toUTF8),
    (["project", "artifacts", "a.json"], .file "[]".toUTF8)]

theorem listing_twoNotes :
    Artifacts.listing twoNotes ["project", "artifacts"] =
      .ok ⟨["A.sol:A"], [skipWarning ["a.json"], skipWarning ["b.json"]]⟩ :=
  OneContract.listing_eq (by decide +kernel) ["a.json", "b.json"] (by decide +kernel)
    (by decide +kernel)

theorem listing_twoNotesSwapped :
    Artifacts.listing twoNotesSwapped ["project", "artifacts"] =
      .ok ⟨["A.sol:A"], [skipWarning ["b.json"], skipWarning ["a.json"]]⟩ :=
  OneContract.listing_eq (by decide +kernel) ["b.json", "a.json"] (by decide +kernel)
    (by decide +kernel)

/-- The two runs document the contract, and note the two files in different orders. -/
theorem runDocgen_of_relisted_twoNotes : twoNotes.Tidy ∧ Relisted twoNotes twoNotesSwapped ∧
    ∃ report report' s s',
      runDocgen (.ofString "/project") { clear := .bool true } none {} false twoNotes =
        (.ok report, s) ∧
      runDocgen (.ofString "/project") { clear := .bool true } none {} false twoNotesSwapped =
        (.ok report', s') ∧
      report.docs = OneContract.docs ∧ report'.docs = OneContract.docs ∧
      report.written = OneContract.written ["project", "docgen"] ∧
      report'.written = OneContract.written ["project", "docgen"] ∧
      report.warnings = [skipWarning ["a.json"], skipWarning ["b.json"]] ∧
      report'.warnings = [skipWarning ["b.json"], skipWarning ["a.json"]] ∧
      ∀ place, s.at? place = s'.at? place := by
  have hsound : twoNotes.Sound := by decide +kernel
  have hsound' : twoNotesSwapped.Sound := by decide +kernel
  have hlisted : Relisted twoNotes twoNotesSwapped := ⟨rfl, by decide +kernel⟩
  have hnames : ∀ parts ∈ OneContract.files,
      FileTree.Nameable (["project", "docgen"] ++ parts) := by decide
  obtain ⟨-, -, hchosen⟩ := resolve_of_founded (t := twoNotes) { clear := .bool true } rfl
    (by decide) (.inr rfl)
  obtain ⟨-, -, hchosen'⟩ := resolve_of_founded (t := twoNotesSwapped) { clear := .bool true } rfl
    (by decide) (.inr rfl)
  obtain ⟨-, s, hrun⟩ := OneContract.exists_runDocgen hsound
    (FileTree.not_link_of_linkCount (by decide)) rfl hnames (by decide) listing_twoNotes rfl rfl
    hchosen
  obtain ⟨-, s', hrun'⟩ := OneContract.exists_runDocgen hsound'
    (FileTree.not_link_of_linkCount (by decide)) rfl hnames (by decide) listing_twoNotesSwapped rfl
    rfl hchosen'
  obtain ⟨-, -, report', s₀, -, -, hagain, -, -, hsame⟩ := (runDocgen_of_relisted hsound.tidy hlisted
    (.ofString "/project") { clear := .bool true } {} false).2 _ _ hrun
  obtain ⟨hreport, rfl⟩ := Prod.mk.inj (hagain.symm.trans hrun')
  obtain rfl := Except.ok.inj hreport
  exact ⟨hsound.tidy, hlisted, _, _, s, s₀, hrun, hagain, rfl, rfl, rfl, rfl, rfl, rfl, hsame⟩

end NatSpec
