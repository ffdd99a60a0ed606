import NatSpec.Proofs.Artifacts.Walk
import NatSpec.Proofs.BuildInfo
import NatSpec.Proofs.FileTree.Read

/-!
The layout of an artifact directory for one build. The build-info document stands in a directory of
its own, and for each contract there are, in the directory that the name of its source writes, an
artifact and a debug file that leads back to the document. Only the artifacts are candidates, and
all of these files are read as what they hold.
-/

namespace NatSpec.Artifacts

open FileTree (Sound Holds maxPath)
open NatSpec.Path (slashParts)

/-! ### Names -/

/-- A source name that writes a place in an artifact directory: its parts between slashes are proper
names, it has no colon, and it does not begin in the directory of build-info documents. -/
structure IsSource (source : String) : Prop where
  proper : ∀ part ∈ slashParts source, part ≠ "" ∧ part ≠ "." ∧ part ≠ ".."
  noColon : ':' ∉ source.toList
  elsewhere : (slashParts source).head? ≠ some buildInfoDirectory

/-- An identifier of Solidity: letters, digits, underscores and dollar signs, no digit first. -/
structure IsIdentifier (name : String) : Prop where
  chars : ∀ c ∈ name.toList, c.isAlphanum ∨ c = '_' ∨ c = '$'
  start : (name.toList.head?.any fun c => !c.isDigit) = true

instance (source : String) : Decidable (IsSource source) :=
  decidable_of_iff ((∀ part ∈ slashParts source, part ≠ "" ∧ part ≠ "." ∧ part ≠ "..") ∧
      ':' ∉ source.toList ∧ (slashParts source).head? ≠ some buildInfoDirectory)
    ⟨fun ⟨a, b, c⟩ => ⟨a, b, c⟩, fun ⟨a, b, c⟩ => ⟨a, b, c⟩⟩

instance (name : String) : Decidable (IsIdentifier name) :=
  decidable_of_iff ((name.toList.all fun c => c.isAlphanum ∨ c = '_' ∨ c = '$') = true ∧
      (name.toList.head?.any fun c => !c.isDigit) = true)
    ⟨fun ⟨a, b⟩ => ⟨fun c hc => of_decide_eq_true (List.all_eq_true.1 a c hc), b⟩,
      fun ⟨a, b⟩ => ⟨List.all_eq_true.2 fun c hc => decide_eq_true (a c hc), b⟩⟩

theorem IsIdentifier.not_mem {name : String} (h : IsIdentifier name) {c : Char}
    (hc : ¬(c.isAlphanum ∨ c = '_' ∨ c = '$')) : c ∉ name.toList :=
  fun hmem => hc (h.chars c hmem)

/-! ### Builds -/

/-- A build: a document whose table of contracts has sources and identifiers for names, each of
which stands once, and the name under which the document is kept. -/
structure Build where
  label : String
  document : Json
  sources : Table String (Table String Json)
  contracts : BuildInfo.contracts document = .ok (BuildInfo.contractFields id sources)
  distinct : (Table.keys sources).Nodup
  distinctNames : ∀ entry ∈ sources, (Table.keys entry.2).Nodup
  isSource : ∀ source ∈ Table.keys sources, IsSource source
  isIdentifier : ∀ entry ∈ sources, ∀ name ∈ Table.keys entry.2, IsIdentifier name

def artifactPlace (c : ContractName) : Location :=
  slashParts c.source ++ [c.name ++ ".json"]

def debugPlace (c : ContractName) : Location :=
  slashParts c.source ++ [ContractName.debugFile c.name]

namespace Build

def ids (b : Build) : List ContractName :=
  BuildInfo.idsOf b.sources

def documentPlace (b : Build) : Location :=
  [buildInfoDirectory, b.label ++ ".json"]

/-- The way from the directory of a source to the document. -/
def reference (b : Build) (source : String) : String :=
  "/".intercalate (List.replicate (slashParts source).length ".." ++ b.documentPlace)

variable {b : Build} {c : ContractName}

theorem isSource_of_mem (h : c ∈ b.ids) : IsSource c.source := by
  obtain ⟨names, hsource, -⟩ := BuildInfo.mem_idsOf.1 h
  exact b.isSource _ (Table.mem_keys_of_mem hsource)

theorem isIdentifier_of_mem (h : c ∈ b.ids) : IsIdentifier c.name := by
  obtain ⟨names, hsource, hname⟩ := BuildInfo.mem_idsOf.1 h
  exact b.isIdentifier _ hsource _ hname

theorem nodup_ids (b : Build) : b.ids.Nodup :=
  BuildInfo.nodup_idsOf b.distinct b.distinctNames

end Build

/-- An artifact directory that holds one build and nothing else. -/
structure Layout (t : FileTree) (directory : Location) (b : Build) : Prop where
  sound : t.Sound
  isDirectory : t.at? directory = some .directory
  noLinks : ∀ relative target, t.at? (directory ++ relative) ≠ some (.link target)
  document : ∃ content, t.at? (directory ++ b.documentPlace) = some (.file content) ∧
    Holds content b.document
  artifact : ∀ c ∈ b.ids, ∃ content v, t.at? (directory ++ artifactPlace c) = some (.file content) ∧
    Holds content v ∧ contractOf? v = some c
  debug : ∀ c ∈ b.ids, ∃ content v, t.at? (directory ++ debugPlace c) = some (.file content) ∧
    Holds content v ∧ reference? v = some ↑(b.reference c.source)
  only : ∀ relative content, t.at? (directory ++ relative) = some (.file content) →
    relative = b.documentPlace ∨ ∃ c ∈ b.ids, relative = artifactPlace c ∨ relative = debugPlace c
  /-- Everything in the directory has a path that the file system takes. -/
  short : ∀ relative entry, t.at? (directory ++ relative) = some entry →
    (Path.ofTop (directory ++ relative)).toString.utf8ByteSize ≤ maxPath

/-! ### Candidates -/

theorem endsWith_iff {text ending : String} :
    Text.endsWith text ending = true ↔ ending.toList <:+ text.toList :=
  List.isSuffixOf_iff_suffix

theorem isOpen_artifactPlace {c : ContractName} (hsource : IsSource c.source)
    (hname : IsIdentifier c.name) : IsOpen (artifactPlace c) := by
  have hjson : Text.endsWith (c.name ++ ".json") ".json" = true := by
    rw [endsWith_iff, String.toList_append]
    exact List.suffix_append ..
  have hdebug : Text.endsWith (c.name ++ ".json") ".dbg.json" = false := by
    rw [Bool.eq_false_iff, Ne, endsWith_iff, String.toList_append]
    rintro ⟨before, heq⟩
    have hjson' : before ++ ".dbg".toList ++ ".json".toList = c.name.toList ++ ".json".toList := by
      rw [← heq, List.append_assoc]
      rfl
    have hends := List.append_cancel_right hjson'
    have hdot : '.' ∈ c.name.toList := hends ▸ List.mem_append_right _ (by decide)
    exact hname.not_mem (by decide) hdot
  constructor
  case named => simp [artifactPlace, isCandidate, hjson, hdebug]
  case elsewhere =>
    rw [artifactPlace, List.dropLast_concat]
    exact hsource.elsewhere

theorem not_isOpen_debugPlace (c : ContractName) : ¬IsOpen (debugPlace c) := by
  have hdebug : Text.endsWith (ContractName.debugFile c.name) ".dbg.json" = true := by
    rw [endsWith_iff, ContractName.debugFile, String.toList_append]
    exact List.suffix_append ..
  intro h
  simpa [debugPlace, isCandidate, hdebug] using h.named

theorem not_isOpen_documentPlace (b : Build) : ¬IsOpen b.documentPlace :=
  fun h => h.elsewhere rfl

variable {t : FileTree} {directory : Location}

theorem artifactPlace_inj {c c' : ContractName} : artifactPlace c = artifactPlace c' ↔ c = c' := by
  constructor
  · intro h
    obtain ⟨hparts, hlast⟩ := List.append_inj' h rfl
    have hsource : c.source = c'.source := by
      rw [← Path.intercalate_slashParts c.source, hparts, Path.intercalate_slashParts]
    have hname : c.name = c'.name := by
      have hlist := congrArg String.toList (List.singleton_inj.1 hlast)
      rw [String.toList_append, String.toList_append] at hlist
      exact String.toList_inj.1 (List.append_cancel_right hlist)
    cases c
    cases c'
    cases hsource
    cases hname
    rfl
  · rintro rfl
    rfl

/-- A file whose text is that of a JSON value is read as that value. -/
theorem readJson_of_holds {τ : Type} [DecidableEq τ] [IsText τ] (hsound : t.Sound)
    {place : Location} {content : ByteArray} {v : Json τ} (hat : t.at? place = some (.file content))
    (hshort : (Path.ofTop place).toString.utf8ByteSize ≤ maxPath) (hholds : Holds content v) :
    t.readJson (.ofTop place) = .ok v := by
  rw [FileTree.readJson, hsound.readValue_eq hat hshort hholds]

namespace Layout

variable {b : Build} (h : Layout t directory b)
include h

/-- The path of the directory leads to the directory. -/
theorem landing_eq : landing t directory = directory := by
  have hshort := h.short [] .directory (by rw [List.append_nil]; exact h.isDirectory)
  rw [List.append_nil] at hshort
  have hlocate := h.sound.locate_eq true h.isDirectory nofun
  rw [if_neg (Nat.not_lt.2 hshort)] at hlocate
  rw [landing, hlocate]

/-- Nothing in the directory is a link. -/
theorem candidates_eq : candidates t directory = files t directory := by
  symm
  refine List.filter_eq_self.2 fun relative hmem => ?_
  obtain ⟨⟨entry, hat, -⟩, hopen, -⟩ := (mem_candidates h.sound.tidy).1 hmem
  have hat' := hat
  rw [h.landing_eq] at hat'
  rw [isLink_eq h.sound hat hopen.ne_nil (h.short _ _ hat')]
  cases entry with
  | link target => exact absurd hat' (h.noLinks relative target)
  | file content => rfl
  | directory => rfl

/-- The candidates are the artifacts of the contracts. -/
theorem candidates_perm : (candidates t directory).Perm (b.ids.map artifactPlace) := by
  have hnodup : (b.ids.map artifactPlace).Nodup :=
    b.nodup_ids.map fun _ _ => artifactPlace_inj.1
  rw [List.perm_ext_iff_of_nodup (nodup_candidates h.sound.tidy) hnodup]
  intro relative
  rw [h.candidates_eq, mem_files h.sound, h.landing_eq, List.mem_map]
  constructor
  · rintro ⟨⟨content, hat⟩, hopen, -⟩
    rcases h.only relative content hat with rfl | ⟨c, hc, rfl | rfl⟩
    · exact absurd hopen (not_isOpen_documentPlace b)
    · exact ⟨c, hc, rfl⟩
    · exact absurd hopen (not_isOpen_debugPlace c)
  · rintro ⟨c, hc, rfl⟩
    obtain ⟨content, v, hat, -⟩ := h.artifact c hc
    exact ⟨⟨content, hat⟩,
      isOpen_artifactPlace (Build.isSource_of_mem hc) (Build.isIdentifier_of_mem hc),
      h.short _ _ hat⟩

/-- A file of the directory is read as what it holds. -/
theorem readJson_eq {τ : Type} [DecidableEq τ] [IsText τ] {relative : Location}
    {content : ByteArray} {v : Json τ}
    (hat : t.at? (directory ++ relative) = some (.file content)) (hholds : Holds content v) :
    t.readJson (.ofTop (directory ++ relative)) = .ok v :=
  readJson_of_holds h.sound hat (h.short _ _ hat) hholds

end Layout

end NatSpec.Artifacts
