import NatSpec.Json.Equality
import NatSpec.Proofs.Artifacts.Layout
import NatSpec.Proofs.Artifacts.Listing

/-!
A build on disk and in memory. The store of an artifact directory that holds one build, and the
store of the document of that build, list the same names and give the same outputs or failures, so
they are documented in the same way. The directory is walked without a warning.
-/

namespace NatSpec.Artifacts

open FileTree (Holds)
open NatSpec.Path (slashParts)

variable {t : FileTree} {directory : Location} {b : Build}

/-! ### Paths -/

theorem ofTop_div_source (place : Location) {source : String} (h : IsSource source) :
    Path.ofTop place / source = .ofTop (place ++ slashParts source) := by
  rw [Path.div_eq,
    Path.ofString_eq fun part hpart => ⟨(h.proper part hpart).1, (h.proper part hpart).2.1⟩]
  rfl

theorem ofTop_div_debugFile (place : Location) {name : String} (h : IsIdentifier name) :
    Path.ofTop place / ContractName.debugFile name =
      .ofTop (place ++ [ContractName.debugFile name]) := by
  have hlist : (ContractName.debugFile name).toList = name.toList ++ ".dbg.json".toList :=
    String.toList_append
  have hslash : '/' ∉ (ContractName.debugFile name).toList := by
    rw [hlist, List.mem_append, not_or]
    exact ⟨h.not_mem (by decide), by decide⟩
  have hlong : ∀ short : String, short.toList.length < 9 → ContractName.debugFile name ≠ short := by
    rintro short hshort rfl
    rw [hlist, List.length_append] at hshort
    have hdebug : ".dbg.json".toList.length = 9 := by decide
    omega
  have hparts : Path.ofString ("/".intercalate [ContractName.debugFile name]) =
      ⟨.here, [ContractName.debugFile name]⟩ :=
    Path.ofString_intercalate (by simp)
      (by simpa using ⟨hslash, hlong "" (by decide), hlong "." (by decide)⟩)
  rw [String.intercalate_singleton] at hparts
  rw [Path.div_eq, hparts]
  rfl

theorem ofTop_div_debugPlace (place : Location) {c : ContractName} (hsource : IsSource c.source)
    (hname : IsIdentifier c.name) :
    Path.ofTop place / c.source / ContractName.debugFile c.name =
      .ofTop (place ++ debugPlace c) := by
  rw [ofTop_div_source place hsource, ofTop_div_debugFile _ hname, List.append_assoc]
  rfl

theorem parent_debugPlace (place : Location) (c : ContractName) :
    (Path.ofTop (place ++ debugPlace c)).parent = .ofTop (place ++ slashParts c.source) := by
  rw [Path.parent, Path.ofTop, debugPlace, ← List.append_assoc, List.dropLast_concat]
  rfl

namespace Layout

variable (h : Layout t directory b)
include h

/-- The reference of a debug file leads to the document. -/
theorem resolve_reference {c : ContractName} (hc : c ∈ b.ids) :
    t.resolve ((Path.ofTop (directory ++ slashParts c.source)).join
      (.ofString (b.reference c.source))) = .ok (directory ++ b.documentPlace) := by
  obtain ⟨_, _, hdebug, -⟩ := h.debug c hc
  obtain ⟨_, hdocument, -⟩ := h.document
  rw [debugPlace, ← List.append_assoc] at hdebug
  have hup (name : String) (hname : name ∈ directory ++ slashParts c.source) :=
    h.sound.isName_of_mem hdebug (List.mem_append_left _ hname)
  have hdown (name : String) (hname : name ∈ b.documentPlace) :=
    h.sound.isName_of_mem hdocument (List.mem_append_right _ hname)
  have hparts : Path.ofString (b.reference c.source) =
      ⟨.here, List.replicate (slashParts c.source).length ".." ++ b.documentPlace⟩ := by
    refine Path.ofString_intercalate (by simp [Build.documentPlace]) fun part hpart => ?_
    rcases List.mem_append.1 hpart with hdots | hname
    · obtain rfl := List.eq_of_mem_replicate hdots
      decide
    · exact ⟨(hdown part hname).noSlash, (hdown part hname).nonempty, (hdown part hname).ne_dot⟩
  rw [hparts]
  -- The way goes down to the directory of the source, up again as far, and down to the document.
  have hplain := h.sound.plain hdebug (by simp)
  have hleads : t.Leads 0 [] (directory ++ slashParts c.source)
      (directory ++ slashParts c.source) :=
    FileTree.leads_of_plain (hplain.of_prefix (List.prefix_append ..))
      fun hmem => (hup ".." hmem).ne_dots rfl
  have hleads' : t.Leads 0 directory b.documentPlace (directory ++ b.documentPlace) :=
    FileTree.leads_of_plain (h.sound.plain hdocument (by simp))
      fun hmem => (hdown ".." hmem).ne_dots rfl
  refine h.sound.resolve_eq (hleads.append ((FileTree.Leads.ups directory _).append hleads'))
    (FileTree.holdsNull_eq_false fun name hname => ?_) hdocument (by simp)
  rcases List.mem_append.1 hname with hname | hname
  · exact (hup name hname).noNull
  · rcases List.mem_append.1 hname with hdots | hname
    · obtain rfl := List.eq_of_mem_replicate hdots
      decide
    · exact (hdown name hname).noNull

/-- The output of a contract is that of the document. -/
theorem output_qualified {c : ContractName} (hc : c ∈ b.ids) :
    output t directory c.qualified = BuildInfo.output b.document c := by
  have hsource := Build.isSource_of_mem hc
  have hparse : ContractName.parse c.qualified = .ok c :=
    ContractName.parse_qualified hsource.noColon
  obtain ⟨content, v, hat, hholds, hreference⟩ := h.debug c hc
  have hread := h.readJson_eq hat hholds
  obtain ⟨content', hat', hholds'⟩ := h.document
  have hdocument : buildInfo t directory c.qualified = .ok b.document := by
    rw [buildInfo, hparse, ok_bind]
    dsimp only
    rw [ofTop_div_debugPlace _ hsource (Build.isIdentifier_of_mem hc), hread, ok_bind, hreference]
    dsimp only
    rw [referencePath_ofString, liftM_ok, ok_bind, parent_debugPlace, h.resolve_reference hc,
      liftM_ok, ok_bind, h.readJson_eq hat' hholds', ok_bind,
      if_pos (BuildInfo.isObj_of_contracts b.contracts)]
  rw [output, hparse, ok_bind, hdocument, ok_bind]

/-- The directory can be opened. -/
theorem openDirectory_eq {p : Path} (hp : t.resolve p = .ok directory) :
    openDirectory t p = .ok directory := by
  have hshort := h.short [] .directory (by rw [List.append_nil]; exact h.isDirectory)
  rw [List.append_nil] at hshort
  have hlookup := h.sound.lookup_eq h.isDirectory nofun
  rw [if_neg (Nat.not_lt.2 hshort)] at hlookup
  rw [openDirectory, hp, liftM_ok, ok_bind]
  dsimp only
  rw [FileTree.holds, FileTree.isDirectory, hlookup]
  rfl

theorem contractAt?_artifactPlace {c : ContractName} (hc : c ∈ b.ids) :
    contractAt? t directory (artifactPlace c) = some c := by
  obtain ⟨content, v, hat, hholds, hcontract⟩ := h.artifact c hc
  rw [contractAt?_of_readJson (h.readJson_eq hat hholds), hcontract]

/-- The names of the contracts are listed, and nothing is warned of. -/
theorem listing_eq : listing t directory =
    .ok ⟨(b.ids.map ContractName.qualified).mergeSort fun a b => a ≤ b, []⟩ := by
  have hplaces := h.candidates_perm
  have hcontract (relative : Location) (hmem : relative ∈ candidates t directory) :
      ∃ c ∈ b.ids, relative = artifactPlace c ∧ contractAt? t directory relative = some c := by
    obtain ⟨c, hc, rfl⟩ := List.mem_map.1 (hplaces.mem_iff.1 hmem)
    exact ⟨c, hc, rfl, h.contractAt?_artifactPlace hc⟩
  refine listing_eq_ok_iff.2 ⟨fun relative hmem => ?_, ?_⟩
  · obtain ⟨c, hc, rfl, -⟩ := hcontract relative hmem
    rw [h.candidates_eq] at hmem
    obtain ⟨content, v, hat, hholds, -⟩ := h.artifact c hc
    exact .inr ⟨(mem_unlinked.1 hmem).2, v, h.readJson_eq hat hholds⟩
  · have hids : ((artifactsAt t directory (files t directory)).map fun a => a.id).Perm b.ids := by
      rw [map_artifactsAt, ← h.candidates_eq]
      refine (hplaces.filterMap _).trans (.of_eq ?_)
      rw [List.filterMap_map]
      exact (List.filterMap_congr fun c hc => h.contractAt?_artifactPlace hc).trans List.filterMap_some
    have hwarnings : warningsAt t directory (files t directory) = [] := by
      rw [warningsAt, ← h.candidates_eq, List.map_eq_nil_iff, List.filter_eq_nil_iff]
      intro relative hmem
      obtain ⟨c, -, -, hc⟩ := hcontract relative hmem
      simp [hc]
    have hnames := hids.map ContractName.qualified
    rw [List.map_map] at hnames
    rw [hwarnings]
    exact congrArg (Listing.mk · []) (mergeSort_congr hnames).symm

end Layout

/-! ### Agreement -/

/-- A build in an artifact directory and its document in memory give stores that agree: they list
the same names without a warning, give the same output or failure for each of them, and so are
documented in the same way or fail in the same way. -/
theorem store_agrees (h : Layout t directory b) {p : Path} (hp : t.resolve p = .ok directory) :
    openDirectory t p = .ok directory ∧
    ∃ s names, BuildInfo.store b.document = .ok s ∧
      (store t directory).listing = .ok ⟨names, []⟩ ∧ s.listing = .ok ⟨names, []⟩ ∧
      (∀ name ∈ names, (store t directory).output name = s.output name) ∧
      ∀ strict, (store t directory).resolveAll strict = s.resolveAll strict := by
  obtain ⟨s, hs, hlisting, houtput⟩ :=
    BuildInfo.exists_store b.contracts (BuildInfo.names_contractFields id b.sources)
  have hlisting' : (store t directory).listing =
      .ok ⟨(b.ids.map ContractName.qualified).mergeSort fun a b => a ≤ b, []⟩ := h.listing_eq
  have hsame : ∀ name ∈ (b.ids.map ContractName.qualified).mergeSort fun a b => a ≤ b,
      (store t directory).output name = s.output name := by
    intro name hname
    obtain ⟨c, hc, rfl⟩ := List.mem_map.1 (List.mem_mergeSort.1 hname)
    have hparse : ContractName.parse c.qualified = .ok c :=
      ContractName.parse_qualified (Build.isSource_of_mem hc).noColon
    rw [houtput, hparse, ok_bind]
    exact h.output_qualified hc
  refine ⟨h.openDirectory_eq hp, s, _, hs, hlisting', hlisting, hsame, fun strict => ?_⟩
  rw [Store.resolveAll, Store.resolveAll, hlisting', hlisting, ok_bind, ok_bind]
  exact Store.resolve_congr hsame

/-- A contract in a directory of sources, and one whose output is no object. -/
def sampleBuild : Build where
  label := "b1"
  document := .obj [("output", .obj [("contracts", .obj [
    ("lib/A.sol", .obj [("A", .obj [("abi", .arr [])])]), ("B.sol", .obj [("B", .int 1)])])])]
  sources := [("lib/A.sol", [("A", .obj [("abi", .arr [])])]), ("B.sol", [("B", .int 1)])]
  contracts := rfl
  distinct := by decide
  distinctNames := by decide
  isSource := by decide +kernel
  isIdentifier := by decide +kernel

def documentText : String :=
  "\x7b\"output\": \x7b\"contracts\": \x7b\"lib/A.sol\": \x7b\"A\": \x7b\"abi\": []\x7d\x7d, \"B.sol\": \x7b\"B\": 1\x7d\x7d\x7d\x7d"

def artifactTextA : String := "\x7b\"sourceName\": \"lib/A.sol\", \"contractName\": \"A\"\x7d"

def artifactTextB : String := "\x7b\"sourceName\": \"B.sol\", \"contractName\": \"B\"\x7d"

def debugTextA : String := "\x7b\"buildInfo\": \"../../build-info/b1.json\"\x7d"

def debugTextB : String := "\x7b\"buildInfo\": \"../build-info/b1.json\"\x7d"

def sampleArtifacts : FileTree :=
  ⟨[], [(["artifacts"], .directory), (["artifacts", "build-info"], .directory),
    (["artifacts", "build-info", "b1.json"], .file documentText.toUTF8),
    (["artifacts", "lib"], .directory), (["artifacts", "lib", "A.sol"], .directory),
    (["artifacts", "lib", "A.sol", "A.json"], .file artifactTextA.toUTF8),
    (["artifacts", "lib", "A.sol", "A.dbg.json"], .file debugTextA.toUTF8),
    (["artifacts", "B.sol"], .directory),
    (["artifacts", "B.sol", "B.json"], .file artifactTextB.toUTF8),
    (["artifacts", "B.sol", "B.dbg.json"], .file debugTextB.toUTF8)]⟩

theorem sampleArtifacts_layout : Layout sampleArtifacts ["artifacts"] sampleBuild := by
  have hentries (relative : Location) (entry : Entry)
      (hat : sampleArtifacts.at? (["artifacts"] ++ relative) = some entry) :=
    FileTree.mem_entries_of_at? hat (by simp)
  have hids : sampleBuild.ids = [⟨"lib/A.sol", "A"⟩, ⟨"B.sol", "B"⟩] := rfl
  constructor
  case sound => decide +kernel
  case isDirectory => rfl
  case noLinks =>
    intro relative target hat
    simpa [sampleArtifacts] using hentries relative _ hat
  case document =>
    exact ⟨_, rfl, FileTree.holds_toUTF8 (by decide +kernel)⟩
  case artifact =>
    intro c hc
    rw [hids, List.mem_pair] at hc
    rcases hc with rfl | rfl
    · exact ⟨_, .obj [("sourceName", .str "lib/A.sol"), ("contractName", .str "A")], rfl,
        FileTree.holds_toUTF8 (by decide +kernel), rfl⟩
    · exact ⟨_, .obj [("sourceName", .str "B.sol"), ("contractName", .str "B")], rfl,
        FileTree.holds_toUTF8 (by decide +kernel), rfl⟩
  case debug =>
    intro c hc
    rw [hids, List.mem_pair] at hc
    rcases hc with rfl | rfl
    · exact ⟨_, .obj [("buildInfo", .str "../../build-info/b1.json")], rfl,
        FileTree.holds_toUTF8 (by decide +kernel), by decide +kernel⟩
    · exact ⟨_, .obj [("buildInfo", .str "../build-info/b1.json")], rfl,
        FileTree.holds_toUTF8 (by decide +kernel), by decide +kernel⟩
  case only =>
    intro relative content hat
    have hmem := hentries relative _ hat
    simp only [sampleArtifacts, List.mem_cons, Prod.mk.injEq, reduceCtorEq, and_false, false_or,
      List.not_mem_nil, or_false, List.singleton_append, List.cons.injEq, true_and] at hmem
    rcases hmem with ⟨rfl, -⟩ | ⟨rfl, -⟩ | ⟨rfl, -⟩ | ⟨rfl, -⟩ | ⟨rfl, -⟩
    · exact .inl rfl
    · exact .inr ⟨⟨"lib/A.sol", "A"⟩, by simp [hids], .inl rfl⟩
    · exact .inr ⟨⟨"lib/A.sol", "A"⟩, by simp [hids], .inr rfl⟩
    · exact .inr ⟨⟨"B.sol", "B"⟩, by simp [hids], .inl rfl⟩
    · exact .inr ⟨⟨"B.sol", "B"⟩, by simp [hids], .inr rfl⟩
  case short =>
    intro relative entry hat
    have hshort : ∀ place ∈ Table.keys sampleArtifacts.entries,
        (Path.ofTop place).toString.utf8ByteSize ≤ FileTree.maxPath := by decide +kernel
    exact hshort _ (Table.mem_keys_of_mem (hentries relative entry hat))

/-- Both stores list two contracts, and both refuse the output of one of them. -/
theorem store_agrees_sample :
    Layout sampleArtifacts ["artifacts"] sampleBuild ∧
    sampleArtifacts.resolve (.ofTop ["artifacts"]) = .ok ["artifacts"] ∧
    ∃ s, BuildInfo.store sampleBuild.document = .ok s ∧
      (store sampleArtifacts ["artifacts"]).listing = .ok ⟨["B.sol:B", "lib/A.sol:A"], []⟩ ∧
      s.listing = .ok ⟨["B.sol:B", "lib/A.sol:A"], []⟩ ∧
      (store sampleArtifacts ["artifacts"]).output "B.sol:B" =
        .error (.problem (.malformedOutput "B.sol" "B")) ∧
      (store sampleArtifacts ["artifacts"]).resolveAll false = s.resolveAll false := by
  have hplace : sampleArtifacts.resolve (.ofTop ["artifacts"]) = .ok ["artifacts"] :=
    sampleArtifacts_layout.sound.resolve_eq
      (FileTree.leads_of_plain (sampleArtifacts_layout.sound.plain
        sampleArtifacts_layout.isDirectory nofun) (by decide)) (by decide)
      sampleArtifacts_layout.isDirectory nofun
  obtain ⟨s', hs', hlisting', houtput'⟩ := BuildInfo.exists_store sampleBuild.contracts
    (BuildInfo.names_contractFields id sampleBuild.sources)
  have hsorted : ((BuildInfo.idsOf sampleBuild.sources).map ContractName.qualified).mergeSort
      (fun a b => a ≤ b) = ["B.sol:B", "lib/A.sol:A"] := by
    have hids : (BuildInfo.idsOf sampleBuild.sources).map ContractName.qualified =
        ["lib/A.sol:A", "B.sol:B"] := by decide +kernel
    rw [hids]
    exact List.Perm.eq_of_pairwise (fun _ _ _ _ => String.le_antisymm)
      (pairwise_mergeSort_le id _) (by decide) ((List.mergeSort_perm _ _).trans (by decide))
  rw [hsorted] at hlisting'
  obtain ⟨-, s, names, hs, hdisk, hmemory, houtput, hresolve⟩ :=
    store_agrees sampleArtifacts_layout hplace
  obtain rfl := Except.ok.inj (hs.symm.trans hs')
  obtain rfl : names = ["B.sol:B", "lib/A.sol:A"] := by
    rw [hmemory] at hlisting'
    exact congrArg Listing.names (Except.ok.inj hlisting')
  refine ⟨sampleArtifacts_layout, hplace, s, hs, hdisk, hmemory, ?_, hresolve false⟩
  rw [houtput _ (by simp), houtput']
  rfl

end NatSpec.Artifacts
