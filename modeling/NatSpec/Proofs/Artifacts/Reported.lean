import NatSpec.Json.Equality
import NatSpec.Proofs.Artifacts.Exact
import NatSpec.Proofs.Artifacts.Reread
import NatSpec.Proofs.FileTree.NullFree
import NatSpec.Proofs.Json.Refusal

/-!
Which failures of an artifact directory are reported. Whatever the files hold, looking for artifacts
and fetching what belongs to a contract give a result or a problem of the artifacts; the one file
that is read for a contract beside its debug file is the document to which that refers. Two failures
are not reported: a path beyond the limit of the file system is asked for a link, or a reference
that has no bytes is made a path. Left out are the limits of a reader, null characters, and links
that lead back to themselves.
-/

namespace NatSpec

/-! ### Reported failures -/

/-- A computation that gives a result of a kind, fails with a problem of the artifacts, or breaks off
with one of some faults. -/
inductive Reports {α : Type} (P : α → Prop) (E : Fault → Prop) : Except Failure α → Prop
  | ok {a : α} : P a → Reports P E (.ok a)
  | problem {q : Problem} : q.kind = .artifact → Reports P E (.error (.problem q))
  | fault {f : Fault} : E f → Reports P E (.error (.fault f))

namespace Reports

variable {α β : Type} {P : α → Prop} {Q : β → Prop} {E : Fault → Prop}

theorem bind {x : Except Failure α} {f : α → Except Failure β} (hx : Reports P E x)
    (hf : ∀ a, x = .ok a → P a → Reports Q E (f a)) : Reports Q E (x >>= f) := by
  cases hx with
  | ok ha => exact hf _ rfl ha
  | problem hq => exact .problem hq
  | fault he => exact .fault he

end Reports

namespace Artifacts

open FileTree (Holds NullFree)

variable {τ : Type} [DecidableEq τ] [IsText τ]
variable {t : FileTree} {directory : Location} {p : Path} {contract : String} {E : Fault → Prop}

/-! ### What reads no file -/

/-- Picking the output of a contract from a document is reported. -/
theorem reports_output (document : Json τ) (id : ContractName) :
    Reports (fun v => v.isObj = true) E (BuildInfo.output document id) := by
  unfold BuildInfo.output
  split
  · exact .problem rfl
  · exact .ok rfl
  · exact .problem rfl

theorem reports_parse (text : String) :
    Reports (fun id => text = id.qualified) E (ContractName.parse text) := by
  cases hparse : ContractName.parse text with
  | ok id => exact .ok (ContractName.parse_eq_ok_iff.1 hparse).2
  | error f =>
      obtain rfl := ContractName.parse_eq_error hparse
      exact .problem rfl

/-- A reference that is no path has no bytes. -/
theorem referencePath_eq_error {reference : Utf16} {f : Fault}
    (h : referencePath reference = .error f) : f = .unencodable := by
  unfold referencePath at h
  split at h
  · cases h
  · split at h
    · cases h
    · exact (Except.error.inj h).symm

/-! ### Trees that can be read -/

/-- A tree of a file system without loops of links whose files may hold anything, but no text beyond
the limits of a reader, and no reference with a null character. -/
structure Legible (t : FileTree) : Prop where
  sound : t.Sound
  loopFree : t.LoopFree
  targets : ∀ place target, t.at? place = some (.link target) → '\x00' ∉ target.toList
  limits : ∀ place content text refusal, t.at? place = some (.file content) →
    String.fromUTF8? content = some text →
    (Json.read (Text.withLineFeeds text) : Except Json.Refusal (Json Utf16)) = .error refusal →
    ∃ misread, refusal = .misread misread
  references : ∀ place content v reference path, t.at? place = some (.file content) →
    Holds content v → reference? v = some reference → referencePath reference = .ok path →
    NullFree path.parts

/-- Files hold no text, or that of a value which refers to nothing with a null character. -/
theorem legible_of_files (hsound : t.Sound) (hloop : t.LoopFree)
    (htargets : ∀ place target, t.at? place = some (.link target) → '\x00' ∉ target.toList)
    (hfiles : ∀ place content, t.at? place = some (.file content) →
      String.fromUTF8? content = none ∨ ∃ v, Holds content v ∧
        ∀ reference path, reference? v = some reference → referencePath reference = .ok path →
          NullFree path.parts) : Legible t where
  sound := hsound
  loopFree := hloop
  targets := htargets
  limits place content text refusal hat htext hrefused := by
    rcases hfiles place content hat with hnone | ⟨v, ⟨text', htext', hread⟩, -⟩
    · cases hnone.symm.trans htext
    · obtain rfl := Option.some.inj (htext'.symm.trans htext)
      cases hread.symm.trans hrefused
  references place content v reference path hat hholds := by
    obtain ⟨text, htext, hread⟩ := hholds
    rcases hfiles place content hat with hnone | ⟨v', ⟨text', htext', hread'⟩, hfree⟩
    · cases hnone.symm.trans htext
    · obtain rfl := Option.some.inj (htext'.symm.trans htext)
      obtain rfl := Except.ok.inj (hread'.symm.trans hread)
      exact hfree reference path

/-- A fault of a walk that asks of a path beyond the limit of the file system whether it is a link. -/
def BreaksWalk (t : FileTree) (directory : Location) (f : Fault) : Prop :=
  ∃ relative ∈ candidates t directory, ¬Fits (directory ++ relative) ∧
    f = .refused .nameTooLong (Path.ofTop (directory ++ relative)).toString

/-- The fault of a reference without bytes in the debug file of a contract. -/
def BreaksReference (t : FileTree) (directory : Location) (contract : String) (f : Fault) : Prop :=
  f = .unencodable ∧ ∃ (id : ContractName) (v : Json Utf16) (reference : Utf16),
    ContractName.parse contract = .ok id ∧ t.readJson (debugPath directory id) = .ok v ∧
    reference? v = some reference ∧ referencePath reference = .error .unencodable

/-- A value that some file holds. -/
def Stored (t : FileTree) (v : Json τ) : Prop :=
  ∃ place content, t.at? place = some (.file content) ∧ Holds content v

namespace Legible

variable (h : Legible t)
include h

/-- Reading is reported, whatever stands at the end of a path. -/
theorem readJson (hp : NullFree p.parts) :
    Reports (Stored t) E (t.readJson p : Except Failure (Json τ)) := by
  have hnull := FileTree.holdsNull_eq_false_iff.2 hp
  rw [FileTree.readJson]
  cases hbytes : t.readBytes p with
  | error f =>
      have hvalue : (t.readValue p : Except Fault (Json τ)) = .error f := by
        rw [FileTree.readValue, FileTree.readText, hbytes]
        rfl
      obtain ⟨reason, path, rfl⟩ := FileTree.exists_refused_of_readBytes hnull hbytes
      rw [hvalue]
      cases reason <;> exact .problem rfl
  | ok content =>
      obtain ⟨place, hlocate⟩ := FileTree.exists_locate_of_readBytes hbytes
      have hat : t.at? place = some (.file content) := by
        obtain hdirectory | ⟨-, hat, -⟩ := FileTree.locate_eq_ok hlocate
        · cases hdirectory
        · exact hat
      rw [FileTree.readValue_eq_of_readBytes hbytes]
      cases htext : String.fromUTF8? content with
      | none => exact .problem rfl
      | some text =>
          dsimp only
          -- Only the limits of the reader are not made a problem.
          cases hread : (Json.read (Text.withLineFeeds text) : Except Json.Refusal (Json τ)) with
          | ok v => exact .ok ⟨place, content, hat, text, htext, hread⟩
          | error refusal =>
              obtain ⟨misread, rfl⟩ :=
                h.limits place content text refusal hat htext (Json.read_eq_error hread)
              exact .problem rfl

/-- A path that can be asked for resolves to a place that can be asked for. -/
theorem resolve (hdot : "." ∉ p.parts) (hp : NullFree p.parts) :
    ∃ place, t.resolve p = .ok place ∧ NullFree place := by
  obtain ⟨place, depth, hplace, hleads⟩ := h.loopFree.exists_resolve h.sound.based hdot hp
  exact ⟨place, hplace, hleads.nullFree h.targets (h.sound.nullFree_startOf p) hp⟩

theorem nullFree_of_openDirectory (hopen : openDirectory t p = .ok directory)
    (hdot : "." ∉ p.parts) : NullFree directory := by
  obtain ⟨hresolve, -⟩ := openDirectory_eq_ok_iff.1 hopen
  obtain ⟨place, hplace, hnull⟩ := h.resolve hdot (FileTree.nullFree_of_resolve hresolve)
  exact Except.ok.inj (hplace.symm.trans hresolve) ▸ hnull

/-- What a reader finds at some places are artifacts in increasing order of their names, each of them
read from its own file, unless it meets a problem or is not told whether a place is a link. -/
theorem visit (reader : Reader) {found : List Artifact} {places : List Location}
    (hdirectory : NullFree reader.directory)
    (hplaces : ∀ relative ∈ places, NullFree relative ∧
      ∀ f, t.isLink (.ofTop (reader.directory ++ relative)) = .error f → E f)
    (hfound : ∀ a ∈ found, ∃ v, t.readJson a.path = .ok v ∧ NamesContract v a.id) :
    Reports (fun artifacts : List Artifact =>
      (artifacts.map fun a => a.id.qualified).Pairwise (· ≤ ·) ∧
      ∀ a ∈ artifacts, ∃ v, t.readJson a.path = .ok v ∧ NamesContract v a.id) E
      (reader.visit t found places).1 := by
  induction places generalizing found reader with
  | nil =>
      refine .ok ⟨?_, fun a ha => hfound a (List.mem_mergeSort.1 ha)⟩
      exact List.pairwise_map.2 (pairwise_mergeSort_le (fun a : Artifact => a.id.qualified) _)
  | cons relative places ih =>
      obtain ⟨⟨hbelow, hlink⟩, hrest⟩ := List.forall_mem_cons.1 hplaces
      rw [Reader.visit]
      generalize t.isLink (.ofTop (reader.directory ++ relative)) = link at hlink
      rcases link with f | _ | _
      · exact .fault (hlink f rfl)
      · have hread := h.readJson (τ := String) (E := E) (p := .ofTop (reader.directory ++ relative))
          (hdirectory.append hbelow)
        dsimp only
        generalize hvalue : (t.readJson (.ofTop (reader.directory ++ relative)) :
          Except Failure Json) = value at hread
        cases hread with
        | problem hkind => exact .problem hkind
        | fault he => exact .fault he
        | @ok v _ =>
            dsimp only
            cases hcontract : contractOf? v with
            | none => exact ih _ hdirectory hrest hfound
            | some id =>
                exact ih _ hdirectory hrest (List.forall_mem_append.2 ⟨hfound,
                  List.forall_mem_singleton.2 ⟨v, hvalue, contractOf?_eq_some_iff.1 hcontract⟩⟩)
      · exact ih _ hdirectory hrest hfound

/-- Looking for artifacts gives artifacts in increasing order of their names, each of them read from
its own file, or a problem, or breaks off at a path beyond the limit of the file system. -/
theorem find (hdirectory : NullFree directory) :
    Reports (fun found : Findings =>
      (found.artifacts.map fun a => a.id.qualified).Pairwise (· ≤ ·) ∧
      ∀ a ∈ found.artifacts, ∃ v, t.readJson a.path = .ok v ∧ NamesContract v a.id)
      (BreaksWalk t directory) (find t directory) := by
  have hplaces : ∀ relative ∈ candidates t directory, NullFree relative ∧
      ∀ f, t.isLink (.ofTop (directory ++ relative)) = .error f → BreaksWalk t directory f := by
    intro relative hrelative
    obtain ⟨⟨entry, hat, -⟩, hopen, hupper⟩ := (mem_candidates h.sound.tidy).1 hrelative
    refine ⟨(h.sound.nullFree hat).of_subset (List.subset_append_right _ _), fun f hlink => ?_⟩
    by_cases hfits : Fits (directory ++ relative)
    · cases hlink.symm.trans (isLink_eq h.sound hat hopen.ne_nil hfits)
    · rw [isLink_of_not_fits h.sound hat hopen.ne_nil hupper.of_append hfits] at hlink
      exact ⟨relative, hrelative, hfits, (Except.error.inj hlink).symm⟩
  exact (h.visit ⟨directory, []⟩ hdirectory hplaces (List.forall_mem_nil _)).bind
    fun artifacts _ hartifacts => .ok hartifacts

/-- Fetching the build-info document of a contract gives an object, or a problem, or breaks off at
the reference of the contract's debug file. -/
theorem buildInfo (hdirectory : NullFree directory) (hdot : "." ∉ directory)
    (hcontract : '\x00' ∉ contract.toList) :
    Reports (fun v => v.isObj = true) (BreaksReference t directory contract)
      (buildInfo t directory contract : Except Failure (Json τ)) := by
  refine (reports_parse contract).bind fun id hparse hid => ?_
  obtain ⟨hsource, hname⟩ : '\x00' ∉ id.source.toList ∧ '\x00' ∉ id.name.toList := by
    rw [hid, ContractName.toList_qualified, List.mem_append, List.mem_cons] at hcontract
    exact ⟨fun hmem => hcontract (.inl hmem), fun hmem => hcontract (.inr (.inr hmem))⟩
  have hdebug : NullFree (debugPath directory id).parts := by
    refine (NullFree.div (p := .ofTop directory) hdirectory hsource).div ?_
    rw [ContractName.debugFile, String.toList_append, List.mem_append, not_or]
    exact ⟨hname, by decide⟩
  have htop : "." ∉ (Path.ofTop directory).parts := hdot
  have hdot' : "." ∉ (debugPath directory id).parts := Path.noDot_div (Path.noDot_div htop _) _
  refine (h.readJson hdebug).bind fun v hread hv => ?_
  obtain ⟨place, content, hat, hholds⟩ := hv
  cases hreference : reference? v with
  | none => exact .problem rfl
  | some reference =>
      dsimp only
      cases hpath : referencePath reference with
      | error f =>
          obtain rfl := referencePath_eq_error hpath
          exact .fault ⟨rfl, id, v, reference, hparse, hread, hreference, hpath⟩
      | ok path =>
          -- The reference is taken from the directory of the debug file.
          have hreferenced := h.references place content v reference path hat hholds hreference hpath
          have hparent : (debugPath directory id).parent.parts ⊆ (debugPath directory id).parts :=
            List.dropLast_subset _
          obtain ⟨found, hfound, hnull⟩ := h.resolve (p := (debugPath directory id).parent.join path)
            (Path.noDot_join (fun hmem => hdot' (hparent hmem)) (noDot_referencePath hpath))
            ((hdebug.of_subset hparent).join hreferenced)
          rw [liftM_ok, ok_bind]
          change Reports _ _ (liftM (t.resolve ((debugPath directory id).parent.join path)) >>= _)
          rw [hfound, liftM_ok, ok_bind]
          refine (h.readJson (p := .ofTop found) hnull).bind fun document _ _ => ?_
          split
          · exact .ok ‹_›
          · exact .problem rfl

/-- Fetching the output of a contract gives an object, or a problem, or breaks off at the reference
of the contract's debug file. -/
theorem output (hdirectory : NullFree directory) (hdot : "." ∉ directory)
    (hcontract : '\x00' ∉ contract.toList) :
    Reports (fun v => v.isObj = true) (BreaksReference t directory contract)
      (output t directory contract : Except Failure (Json τ)) := by
  refine (reports_parse contract).bind fun id _ _ => ?_
  exact (h.buildInfo hdirectory hdot hcontract).bind fun document _ _ => reports_output document id

end Legible

/-! ### Where an output is found -/

theorem reference?_eq_some_iff {v : Json Utf16} {reference : Utf16} :
    reference? v = some reference ↔
      ∃ fields, v = .obj fields ∧ Table.get? fields "buildInfo" = some (.str reference) := by
  cases v with
  | obj fields =>
      simp only [reference?, Json.asFields?, Option.bind_eq_bind, Option.bind_some,
        asText?_field_iff, Json.obj.injEq, exists_eq_left']
  | _ => simp [reference?, Json.asFields?]

/-- The object of a contract in the build-info document to which the contract's own debug file
refers. -/
def Provides (t : FileTree) (directory : Location) (id : ContractName) (out : Fields τ) : Prop :=
  ∃ (debug : Fields Utf16) (document outputs contracts names : Fields τ) (reference : Utf16)
      (path : Path) (place : Location),
    t.readJson (debugPath directory id) = .ok (.obj debug) ∧
    Table.get? debug "buildInfo" = some (.str reference) ∧
    referencePath reference = .ok path ∧
    t.resolve ((debugPath directory id).parent.join path) = .ok place ∧
    t.readJson (.ofTop place) = .ok (.obj document) ∧
    Table.get? document "output" = some (.obj outputs) ∧
    Table.get? outputs "contracts" = some (.obj contracts) ∧
    Table.get? contracts id.source = some (.obj names) ∧
    Table.get? names id.name = some (.obj out)

/-- An output is fetched just where a contract of the given name is provided with it. -/
theorem output_eq_ok_iff {v : Json τ} :
    output t directory contract = .ok v ↔ ∃ source name out, ':' ∉ source.toList ∧
      contract = source ++ ":" ++ name ∧ v = .obj out ∧
      Provides t directory ⟨source, name⟩ out := by
  rw [output]
  constructor
  · intro h
    obtain ⟨id, hid, h⟩ := bind_eq_ok_iff.1 h
    obtain ⟨document, hdocument, houtput⟩ := bind_eq_ok_iff.1 h
    obtain ⟨id', debug, reference, path, place, hid', hdebug, hreference, hpath, hplace, hread,
      -⟩ := buildInfo_eq_ok_iff.1 hdocument
    obtain rfl := Except.ok.inj (hid.symm.trans hid')
    obtain ⟨hfree, hcontract⟩ := ContractName.parse_eq_ok_iff.1 hid
    obtain ⟨debug, rfl, hreferred⟩ := reference?_eq_some_iff.1 hreference
    obtain ⟨document, outputs, contracts, names, out, rfl, houtputs, hcontracts, hnames, hout,
      rfl⟩ := BuildInfo.output_eq_ok_iff.1 houtput
    exact ⟨id.source, id.name, out, hfree, hcontract, rfl, debug, document, outputs, contracts,
      names, reference, path, place, hdebug, hreferred, hpath, hplace, hread, houtputs, hcontracts,
      hnames, hout⟩
  · rintro ⟨source, name, out, hfree, hcontract, rfl, debug, document, outputs, contracts, names,
      reference, path, place, hdebug, hreference, hpath, hplace, hread, houtputs, hcontracts,
      hnames, hout⟩
    have hid : ContractName.parse contract = .ok ⟨source, name⟩ :=
      ContractName.parse_eq_ok_iff.2 ⟨hfree, hcontract⟩
    have hdocument : buildInfo t directory contract = .ok (.obj document) :=
      buildInfo_eq_ok_iff.2 ⟨_, _, reference, path, place, hid, hdebug,
        reference?_eq_some_iff.2 ⟨debug, rfl, hreference⟩, hpath, hplace, hread, rfl⟩
    rw [hid, ok_bind, hdocument, ok_bind]
    exact BuildInfo.output_eq_ok_iff.2 ⟨document, outputs, contracts, names, out, rfl, houtputs,
      hcontracts, hnames, hout, rfl⟩

/-- A reference without bytes does break off what is fetched for its contract. -/
theorem BreaksReference.buildInfo_eq {f : Fault} (h : BreaksReference t directory contract f) :
    (buildInfo t directory contract : Except Failure (Json τ)) = .error (.fault f) := by
  obtain ⟨rfl, id, v, reference, hid, hread, hreference, hpath⟩ := h
  have hread' : t.readJson (Path.ofTop directory / id.source /
      ContractName.debugFile id.name) = .ok v := hread
  rw [buildInfo, hid, ok_bind]
  dsimp only
  rw [hread', ok_bind, hreference]
  dsimp only
  rw [hpath]
  rfl

/-- An artifact directory with a file that is no text, a debug file that refers to a document through
a link, and one whose reference has no bytes. -/
def partlyLegible : FileTree :=
  ⟨[], [(["art"], .directory), (["art", "x.json"], .file ⟨#[0xff]⟩), (["art", "a"], .directory),
    (["art", "a", "A.dbg.json"], .file "\x7b\"buildInfo\":\"../l\"\x7d".toUTF8),
    (["art", "a", "B.dbg.json"], .file "\x7b\"buildInfo\":\"\\ud800\"\x7d".toUTF8),
    (["art", "l"], .link "b"), (["art", "b"], .file
      "\x7b\"output\":\x7b\"contracts\":\x7b\"a\":\x7b\"A\":\x7b\x7d\x7d\x7d\x7d\x7d".toUTF8)]⟩

def legibleDocument : Json Utf16 :=
  .obj [("output", .obj [("contracts", .obj [("a", .obj [("A", .obj [])])])])]

theorem legible_partlyLegible : Legible partlyLegible := by
  have hentries (place : Location) (entry : Entry)
      (hat : partlyLegible.at? place = some entry) (hne : entry ≠ .directory) :
      (place, entry) ∈ partlyLegible.entries := by
    refine FileTree.mem_entries_of_at? hat ?_
    rintro rfl
    exact hne (Option.some.inj hat).symm
  have hlink (place : Location) (target : String)
      (hat : partlyLegible.at? place = some (.link target)) :
      place = ["art"] ++ ["l"] ∧ target = "b" := by
    simpa [partlyLegible] using hentries place _ hat (by simp)
  have hloop : partlyLegible.LoopFree := by
    intro place name target hat
    obtain ⟨hplace, rfl⟩ := hlink _ _ hat
    obtain ⟨rfl, -⟩ := List.append_inj' hplace rfl
    exact ⟨0, ["art", "b"], .step (by decide) nofun .done⟩
  refine legible_of_files (by decide +kernel) hloop ?_ ?_
  · intro place target hat
    obtain ⟨-, rfl⟩ := hlink place target hat
    decide
  · intro place content hat
    have hmem := hentries place _ hat (by simp)
    simp only [partlyLegible, List.mem_cons, Prod.mk.injEq, reduceCtorEq, and_false, false_or,
      List.not_mem_nil, or_false, Entry.file.injEq] at hmem
    rcases hmem with ⟨-, rfl⟩ | ⟨-, rfl⟩ | ⟨-, rfl⟩ | ⟨-, rfl⟩
    · exact .inl (by decide +kernel)
    · refine .inr ⟨.obj [("buildInfo", .str "../l")], FileTree.holds_toUTF8 (by decide +kernel), ?_⟩
      intro reference path hreference hpath
      obtain rfl : "../l" = reference := Option.some.inj hreference
      obtain rfl := Except.ok.inj ((referencePath_ofString _).symm.trans hpath)
      exact FileTree.holdsNull_eq_false_iff.1 (by decide)
    · refine .inr ⟨.obj [("buildInfo", .str ⟨[0xD800]⟩)],
        FileTree.holds_toUTF8 (by decide +kernel), ?_⟩
      intro reference path hreference hpath
      obtain rfl : ⟨[0xD800]⟩ = reference := Option.some.inj hreference
      cases hpath
    · exact .inr ⟨legibleDocument, FileTree.holds_toUTF8 (by decide +kernel), fun _ _ hreference =>
        absurd hreference.symm (Option.some_ne_none _)⟩

theorem readJson_partlyLegible :
    partlyLegible.readJson (.ofTop ["art", "a", "A.dbg.json"]) =
      .ok (.obj [("buildInfo", .str ("../l" : Utf16))]) ∧
    partlyLegible.readJson (.ofTop ["art", "a", "B.dbg.json"]) =
      .ok (.obj [("buildInfo", .str (⟨[0xD800]⟩ : Utf16))]) ∧
    partlyLegible.readJson (.ofTop ["art", "b"]) = .ok legibleDocument := by
  have hsound := legible_partlyLegible.sound
  refine ⟨?_, ?_, ?_⟩
  all_goals
    exact readJson_of_holds hsound rfl (by decide +kernel)
      (FileTree.holds_toUTF8 (by decide +kernel))

theorem openDirectory_partlyLegible :
    openDirectory partlyLegible (.ofString "/art/") = .ok ["art"] := by
  have hsound := legible_partlyLegible.sound
  have hat : partlyLegible.at? ["art"] = some .directory := rfl
  have hdirectory : partlyLegible.isDirectory (.ofTop ["art"]) = .ok true :=
    FileTree.isDirectory_eq_true_iff.2
      ⟨by decide, _, hsound.locate_directory true hat (by decide)⟩
  refine openDirectory_eq_ok_iff.2 ⟨?_, hdirectory⟩
  exact FileTree.resolve_of_nameable (by decide) (hsound.plain hat nofun) (by decide)

end Artifacts

end NatSpec
