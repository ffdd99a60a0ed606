import Mathlib.Data.List.Permutation
import NatSpec.Json.Equality
import NatSpec.Proofs.Artifacts.Layout
import NatSpec.Proofs.Artifacts.Listing

/-!
The walk through an artifact directory accounts for each file that it considers, once: either an
artifact comes of it or a warning does, and nothing comes of any other file. A reader starts the
warnings anew with each walk, so what earlier walks have noted does not show.
-/

namespace NatSpec

namespace Artifacts

variable {t : FileTree} {directory top relative other place : Location}

/-! ### The files that are considered -/

/-- A file that may be an artifact, in an artifact directory: a regular file that is reached through
directories only, whose name has the ending of an artifact but not that of a debug file, and that is
not in the directory of build-info documents at the top. -/
structure Considered (t : FileTree) (top relative : Location) : Prop where
  file : ∃ content, t.at? (top ++ relative) = some (.file content)
  above : ∀ upper, upper <+: relative → upper ≠ relative → t.at? (top ++ upper) = some .directory
  named : ∃ name, relative.getLast? = some name ∧ ".json".toList <:+ name.toList ∧
    ¬".dbg.json".toList <:+ name.toList
  elsewhere : ∀ rest, relative = buildInfoDirectory :: rest → rest = []

theorem isCandidate_iff {name : String} :
    isCandidate name = true ↔
      ".json".toList <:+ name.toList ∧ ¬".dbg.json".toList <:+ name.toList := by
  rw [isCandidate, Bool.and_eq_true, Bool.not_eq_true', Bool.eq_false_iff, Ne, endsWith_iff,
    endsWith_iff]

theorem isOpen_iff (hne : relative ≠ []) :
    IsOpen relative ↔
      (∃ name, relative.getLast? = some name ∧ ".json".toList <:+ name.toList ∧
        ¬".dbg.json".toList <:+ name.toList) ∧
      ∀ rest, relative = buildInfoDirectory :: rest → rest = [] := by
  constructor
  · rintro ⟨hnamed, helsewhere⟩
    obtain ⟨name, hlast, hname⟩ := (Option.any_eq_true ..).1 hnamed
    refine ⟨⟨name, hlast, isCandidate_iff.1 hname⟩, ?_⟩
    rintro rest rfl
    by_contra hrest
    exact helsewhere (by simp [List.dropLast_cons_of_ne_nil hrest])
  · rintro ⟨⟨name, hlast, hname⟩, helsewhere⟩
    refine ⟨by rw [hlast]; exact isCandidate_iff.2 hname, fun hhead => ?_⟩
    obtain ⟨first, rest, rfl⟩ := List.exists_cons_of_ne_nil hne
    cases rest with
    | nil => simp at hhead
    | cons second rest =>
        obtain rfl : first = buildInfoDirectory := by simpa using hhead
        exact absurd (helsewhere _ rfl) (by simp)

theorem considered_iff (htidy : t.Tidy) : Considered t top relative ↔
    (∃ content, t.at? (top ++ relative) = some (.file content)) ∧ IsOpen relative := by
  constructor
  · rintro ⟨hfile, -, hnamed, helsewhere⟩
    refine ⟨hfile, (isOpen_iff ?_).2 ⟨hnamed, helsewhere⟩⟩
    rintro rfl
    obtain ⟨name, hlast, -⟩ := hnamed
    cases hlast
  · rintro ⟨⟨content, hat⟩, hopen⟩
    obtain ⟨hnamed, helsewhere⟩ := (isOpen_iff hopen.ne_nil).1 hopen
    refine ⟨⟨content, hat⟩, ?_, hnamed, helsewhere⟩
    rintro upper ⟨rest, rfl⟩ hupper
    rw [← List.append_assoc] at hat
    exact htidy.directory_of_append hat fun hrest => hupper (by simp [hrest])

/-- The walk reads just the files that are considered, as far as the file system takes their
paths. -/
theorem mem_files_iff (hsound : t.Sound) : relative ∈ files t directory ↔
    Considered t (landing t directory) relative ∧ Fits (directory ++ relative) := by
  rw [mem_files hsound, considered_iff hsound.tidy, and_assoc]

/-- Files that are considered have warnings of their own. -/
theorem Considered.eq_of_skipWarning (hsound : t.Sound) (h : Considered t top relative)
    (h' : Considered t top other) (heq : skipWarning relative = skipWarning other) :
    relative = other := by
  have hpath {place : Location} (hplace : Considered t top place) :
      Path.ofString ("/".intercalate place) = ⟨.here, place⟩ := by
    obtain ⟨content, hat⟩ := hplace.file
    obtain ⟨name, hlast, -⟩ := hplace.named
    have hne : place ≠ [] := by
      rintro rfl
      simp at hlast
    refine Path.ofString_intercalate hne fun part hpart => ?_
    have hname := hsound.isName_of_mem hat (List.mem_append_right top hpart)
    exact ⟨hname.noSlash, hname.nonempty, hname.ne_dot⟩
  have hjoined : "/".intercalate relative = "/".intercalate other :=
    (String.append_right_inj _).1 heq
  have hpaths : Path.mk .here relative = Path.mk .here other := by
    rw [← hpath h, hjoined, hpath h']
  exact (Path.mk.inj hpaths).2

/-- A value is the artifact of a contract: an object with the two names as texts. -/
def NamesContract (v : Json) (id : ContractName) : Prop :=
  ∃ fields, v = .obj fields ∧ Table.get? fields (.text "sourceName") = some (.str id.source) ∧
    Table.get? fields (.text "contractName") = some (.str id.name)

theorem asText?_field_iff {τ : Type} [DecidableEq τ] {fields : Fields τ} {key : Json.Key τ}
    {text : τ} :
    (Json.field fields key).asText? = some text ↔ Table.get? fields key = some (.str text) := by
  rw [Json.field]
  cases Table.get? fields key with
  | none => simp [Json.asText?]
  | some value => cases value <;> simp [Json.asText?]

theorem contractOf?_eq_some_iff {v : Json} {id : ContractName} :
    contractOf? v = some id ↔ NamesContract v id := by
  obtain ⟨source, name⟩ := id
  cases v with
  | obj fields =>
      simp only [contractOf?, Json.asFields?, NamesContract, Option.bind_eq_bind, Option.bind_some,
        Option.bind_eq_some_iff, asText?_field_iff, Option.some.injEq, ContractName.mk.injEq,
        Json.obj.injEq]
      constructor
      · rintro ⟨_, hsource, _, hname, rfl, rfl⟩
        exact ⟨fields, rfl, hsource, hname⟩
      · rintro ⟨_, rfl, hsource, hname⟩
        exact ⟨source, hsource, name, hname, rfl, rfl⟩
  | _ => simp [contractOf?, Json.asFields?, NamesContract]

/-! ### What comes of each file -/

/-- The findings account for a file: if it is the artifact of a contract, one artifact has its path
and no warning is about it, else one warning is about it and no artifact has its path. -/
structure Accounts (t : FileTree) (directory : Location) (found : Findings)
    (relative : Location) : Prop where
  artifact : ∀ v id, t.readJson (.ofTop (directory ++ relative)) = .ok v → NamesContract v id →
    (found.artifacts.filter fun a => a.path = .ofTop (directory ++ relative)) =
        [⟨.ofTop (directory ++ relative), id⟩] ∧
      skipWarning relative ∉ found.warnings
  warning : ∀ v, t.readJson (.ofTop (directory ++ relative)) = .ok v →
    (∀ id, ¬NamesContract v id) →
    found.warnings.count (skipWarning relative) = 1 ∧
      ∀ a ∈ found.artifacts, a.path ≠ .ofTop (directory ++ relative)

theorem ofTop_append_inj :
    Path.ofTop (directory ++ relative) = .ofTop (directory ++ other) ↔ relative = other := by
  simp [Path.ofTop]

theorem mem_artifactsAt {places : List Location} {a : Artifact} :
    a ∈ artifactsAt t directory places ↔
      ∃ relative ∈ places, contractAt? t directory relative = some a.id ∧
        a.path = .ofTop (directory ++ relative) := by
  obtain ⟨path, id⟩ := a
  simp only [artifactsAt, List.mem_filterMap, Option.map_eq_some_iff, Artifact.mk.injEq]
  constructor
  · rintro ⟨relative, hmem, _, hcontract, rfl, rfl⟩
    exact ⟨relative, hmem, hcontract, rfl⟩
  · rintro ⟨relative, hmem, hcontract, rfl⟩
    exact ⟨relative, hmem, id, hcontract, rfl, rfl⟩

theorem mem_warningsAt {places : List Location} {warning : String} :
    warning ∈ warningsAt t directory places ↔
      ∃ relative ∈ places, contractAt? t directory relative = none ∧
        skipWarning relative = warning := by
  simp [warningsAt, and_assoc]

/-- The artifacts at the path of one file are those of that file. -/
theorem filter_artifactsAt (places : List Location) :
    (artifactsAt t directory places).filter (fun a => a.path = .ofTop (directory ++ relative)) =
      artifactsAt t directory (places.filter fun other => other = relative) := by
  rw [artifactsAt, artifactsAt, List.filter_filterMap, List.filterMap_filter]
  refine List.filterMap_congr fun other _ => ?_
  cases contractAt? t directory other with
  | none => simp
  | some id => simp [Option.filter, Path.ofTop]

/-- What is found at the files that are read, in any order, accounts for each of them. -/
theorem accounts_of_perm (hsound : t.Sound) {found : Findings}
    (hartifacts : found.artifacts.Perm (artifactsAt t directory (files t directory)))
    (hwarnings : found.warnings.Perm (warningsAt t directory (files t directory)))
    (hmem : relative ∈ files t directory) : Accounts t directory found relative := by
  have hnodup := @nodup_files t directory hsound.tidy
  have hconsidered {place : Location} (hplace : place ∈ files t directory) :=
    ((mem_files_iff hsound).1 hplace).1
  have h := hconsidered hmem
  -- No other file has this warning, so the file itself is the one that was skipped.
  have hwarned : skipWarning relative ∈ found.warnings →
      contractAt? t directory relative = none := by
    intro hwarning
    obtain ⟨other, hother, hnone, heq⟩ := mem_warningsAt.1 (hwarnings.mem_iff.1 hwarning)
    obtain rfl := h.eq_of_skipWarning hsound (hconsidered hother) heq.symm
    exact hnone
  constructor
  case artifact =>
    intro v id hread hid
    have hcontract := (contractAt?_of_readJson hread).trans (contractOf?_eq_some_iff.2 hid)
    constructor
    · have hfiltered := hartifacts.filter fun a => a.path = .ofTop (directory ++ relative)
      have honly : (files t directory).filter (fun other => other = relative) = [relative] := by
        rw [List.filter_eq, List.count_eq_one_of_mem hnodup hmem, List.replicate_one]
      rw [filter_artifactsAt, honly] at hfiltered
      exact List.perm_singleton.1 (by simpa [artifactsAt, hcontract] using hfiltered)
    · intro hwarning
      rw [hwarned hwarning] at hcontract
      cases hcontract
  case warning =>
    intro v hread hnone
    have hcontract : contractAt? t directory relative = none := by
      rw [contractAt?_of_readJson hread, Option.eq_none_iff_forall_ne_some]
      exact fun id hid => hnone id (contractOf?_eq_some_iff.1 hid)
    constructor
    · refine List.count_eq_one_of_mem ?_ ?_
      · rw [hwarnings.nodup_iff]
        refine (hnodup.filter _).map_on fun place hplace other hother heq => ?_
        exact (hconsidered (List.mem_filter.1 hplace).1).eq_of_skipWarning hsound
          (hconsidered (List.mem_filter.1 hother).1) heq
      · exact hwarnings.mem_iff.2 (mem_warningsAt.2 ⟨relative, hmem, hcontract, rfl⟩)
    · intro a ha hpath
      obtain ⟨other, -, hid, hother⟩ := mem_artifactsAt.1 (hartifacts.mem_iff.1 ha)
      obtain rfl := ofTop_append_inj.1 (hpath.symm.trans hother)
      rw [hcontract] at hid
      cases hid

/-- An artifact directory with an artifact, its debug file and a file that is no artifact, one more
artifact in a directory of build-info documents further down, one such directory at the top, and
links to a file and a directory. -/
def linkedArtifacts : FileTree :=
  ⟨[], [(["art"], .directory), (["art", "lib"], .directory),
    (["art", "lib", "B.json"],
      .file "\x7b\"sourceName\":\"lib\",\"contractName\":\"B\"\x7d".toUTF8),
    (["art", "lib", "B.dbg.json"], .file "\x7b\x7d".toUTF8),
    (["art", "lib", "n.json"], .file "[]".toUTF8), (["art", "lib", "build-info"], .directory),
    (["art", "lib", "build-info", "A.json"],
      .file "\x7b\"sourceName\":\"lib\",\"contractName\":\"A\"\x7d".toUTF8),
    (["art", "build-info"], .directory), (["art", "build-info", "x.json"], .file "\x7b\x7d".toUTF8),
    (["art", "l.json"], .link "lib/B.json"), (["art", "more"], .link "lib")]⟩

/-- The artifact of a contract in that directory. -/
def linkedArtifact (name : String) : Json :=
  .obj [(.text "sourceName", .str "lib"), (.text "contractName", .str name)]

theorem sound_linkedArtifacts : linkedArtifacts.Sound := by decide +kernel

theorem landing_linkedArtifacts : landing linkedArtifacts ["art"] = ["art"] := by
  have hat : linkedArtifacts.at? ["art"] = some .directory := rfl
  have hlocate := sound_linkedArtifacts.locate_eq true hat fun target => by simp
  rw [if_neg (by decide)] at hlocate
  rw [landing, hlocate]

theorem fits_linkedArtifacts {place : Location} {entry : Entry} (hplace : place ≠ [])
    (h : linkedArtifacts.at? place = some entry) : Fits place := by
  have hfits : ∀ place ∈ Table.keys linkedArtifacts.entries, Fits place := by decide +kernel
  exact hfits _ (FileTree.mem_keys_of_at? h hplace)

theorem isLink_linkedArtifacts {entry : Entry} (hne : relative ≠ [])
    (h : linkedArtifacts.at? (["art"] ++ relative) = some entry) :
    linkedArtifacts.isLink (.ofTop (["art"] ++ relative)) = .ok entry.isLink :=
  isLink_eq sound_linkedArtifacts (by rwa [landing_linkedArtifacts]) hne
    (fits_linkedArtifacts (by simp) h)

theorem considered_linkedArtifacts_iff : Considered linkedArtifacts ["art"] relative ↔
    relative ∈ [["lib", "B.json"], ["lib", "n.json"], ["lib", "build-info", "A.json"]] := by
  have hcandidates : candidates linkedArtifacts ["art"] =
      [["l.json"], ["lib", "B.json"], ["lib", "n.json"], ["lib", "build-info", "A.json"]] := by
    rw [candidates, landing_linkedArtifacts]
    decide +kernel
  have hmem := @mem_files_iff linkedArtifacts ["art"] relative sound_linkedArtifacts
  rw [landing_linkedArtifacts] at hmem
  rw [← and_iff_left_of_imp (a := Considered linkedArtifacts ["art"] relative) fun hconsidered =>
    fits_linkedArtifacts (by simp) hconsidered.file.choose_spec, ← hmem, files, mem_unlinked,
    hcandidates, List.mem_cons]
  constructor
  · rintro ⟨rfl | hfile, hlink⟩
    · have hat : linkedArtifacts.at? (["art"] ++ ["l.json"]) = some (.link "lib/B.json") := rfl
      cases (isLink_linkedArtifacts (by simp) hat).symm.trans hlink
    · exact hfile
  · intro hfile
    have hne : relative ≠ [] := by
      rintro rfl
      simp at hfile
    obtain ⟨content, hat⟩ : ∃ content,
        linkedArtifacts.at? (["art"] ++ relative) = some (.file content) := by
      obtain rfl | rfl | rfl : relative = ["lib", "B.json"] ∨ relative = ["lib", "n.json"] ∨
        relative = ["lib", "build-info", "A.json"] := by simpa using hfile
      all_goals exact ⟨_, rfl⟩
    exact ⟨.inr hfile, isLink_linkedArtifacts hne hat⟩

theorem readJson_linkedArtifacts :
    linkedArtifacts.readJson (.ofTop ["art", "lib", "B.json"]) = .ok (linkedArtifact "B") ∧
    linkedArtifacts.readJson (.ofTop ["art", "lib", "build-info", "A.json"]) =
      .ok (linkedArtifact "A") ∧
    linkedArtifacts.readJson (.ofTop ["art", "lib", "n.json"]) = .ok (.arr [] : Json) := by
  have hread {place : Location} {text : String} {v : Json}
      (hplace : linkedArtifacts.at? place = some (.file text.toUTF8))
      (hjson : Json.read (Text.withLineFeeds text) = .ok v)
      (hshort : (Path.ofTop place).toString.utf8ByteSize ≤ FileTree.maxPath) :
      linkedArtifacts.readJson (.ofTop place) = .ok v :=
    readJson_of_holds sound_linkedArtifacts hplace hshort (FileTree.holds_toUTF8 hjson)
  refine ⟨?_, ?_, ?_⟩
  all_goals exact hread rfl (by decide +kernel) (by decide +kernel)

end Artifacts

end NatSpec
