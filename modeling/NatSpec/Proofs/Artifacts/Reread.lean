import NatSpec.Proofs.Artifacts.Listing
import NatSpec.Proofs.Contract.Bounded
import NatSpec.Proofs.FileTree.Made

/-!
An artifact directory that is read again in a changed tree. If what was read for the documentation is
read as before, and what is new where artifacts are looked for names no contract, then the same
contracts are listed and give the same outputs.
-/

namespace NatSpec

namespace FileTree

variable {t t' : FileTree}

/-- A file under its own path that is as it was has the text that it had. -/
theorem readText_of_at? {place : Location} {content : ByteArray} {text : String} (hsound : t.Sound)
    (htidy' : t'.Tidy) (hat : t.at? place = some (.file content))
    (hat' : t'.at? place = some (.file content)) (h : t.readText (.ofTop place) = .ok text) :
    t'.readText (.ofTop place) = .ok text := by
  obtain ⟨found, content', hlocate⟩ := exists_locate_of_readText h
  have hdotless := hsound.dotless hat
  have hplain := hsound.plain hat nofun
  have hplain' := htidy'.plain hat' nofun
  have hreach : t.locate true (.ofTop place) = .ok (place, t.at? place) := by
    rcases locate_of_plain true hplain hdotless with ⟨reason, hstop, -⟩ | hreach
    · cases hstop.symm.trans hlocate
    · exact hreach
  obtain ⟨hshort, -⟩ := (locate_eq_iff true hplain hdotless).1 hreach
  have hreach' := (locate_eq_iff true hplain' hdotless).2 ⟨hshort, htidy'.founded hat'⟩
  rw [readText_of_locate (hreach'.trans (by rw [hreach, hat, hat'])), h]

end FileTree

namespace Artifacts

open FileTree (Dotless Nameable)
open Json (Bounded)

variable {t t' : FileTree} {directory : Location}

/-! ### What is looked at -/

/-- What stands under a path that names its place is seen for what it is. -/
theorem isLink_of_nameable {place : Location} {entry : Entry} (htidy : t.Tidy)
    (hdotless : Dotless place) (hname : Nameable place) (hat : t.at? place = some entry) :
    t.isLink (.ofTop place) = .ok entry.isLink := by
  have hwalk : t.walk false FileTree.maxLinks [] place = .ok ([] ++ place,
      if place = [] then some .directory else t.at? ([] ++ place)) :=
    FileTree.walk_false_of_directories hdotless hname.names (htidy.founded hat)
  refine @isLink_of_locate t _ place entry hname.noNull ?_
  rw [FileTree.locate, if_neg (Nat.not_lt.2 hname.short)]
  refine hwalk.trans ?_
  split
  · rename_i hnil
    rw [hnil, FileTree.at?_top] at hat
    rw [hnil, ← hat]
    rfl
  · rw [List.nil_append, hat]

theorem nameable_of_fits {place : Location} {entry : Entry} (hsound : t.Sound)
    (hat : t.at? place = some entry) (hfits : Fits place) : Nameable place :=
  ⟨hsound.holdsNull_eq_false hat fun _ => id, hfits,
    fun _ hname => (hsound.isName_of_mem hat hname).short⟩

/-! ### What is read -/

def Names (t : FileTree) (directory : Location) (c : ContractName) : Prop :=
  ∃ relative ∈ files t directory, contractAt? t directory relative = some c

/-- The path of a contract's debug file. -/
def debugPath (directory : Location) (id : ContractName) : Path :=
  Path.ofTop directory / id.source / ContractName.debugFile id.name

/-- A path under which a debug file says that the document of a contract is. -/
def Refers (t : FileTree) (directory : Location) (p : Path) : Prop :=
  ∃ (c id : ContractName) (v : Json Utf16) (reference : Utf16) (path : Path),
    Names t directory c ∧ ContractName.parse c.qualified = .ok id ∧
    t.readJson (debugPath directory id) = .ok v ∧ reference? v = some reference ∧
    referencePath reference = .ok path ∧ p = (debugPath directory id).parent.join path

/-- The files from which the contracts of an artifact directory are documented, by the paths under
which they are read: the artifacts that name contracts, their debug files, and the documents to
which these refer. -/
inductive Source (t : FileTree) (directory : Location) : Path → Prop
  | artifact {relative : Location} {c : ContractName} :
      relative ∈ files t directory →
      contractAt? t directory relative = some c → Source t directory (.ofTop (directory ++ relative))
  | debug {c id : ContractName} : Names t directory c →
      ContractName.parse c.qualified = .ok id → Source t directory (debugPath directory id)
  | document {p : Path} {place : Location} : Refers t directory p → t.resolve p = .ok place →
      Source t directory (.ofTop place)

/-- What is listed is named by an artifact. -/
theorem exists_names_of_mem {listed : Listing} (h : listing t directory = .ok listed)
    {name : String} (hname : name ∈ listed.names) : ∃ c, Names t directory c ∧ c.qualified = name := by
  obtain ⟨-, rfl⟩ := listing_eq_ok_iff.1 h
  obtain ⟨a, ha, rfl⟩ := List.mem_map.1 (List.mem_mergeSort.1 hname)
  obtain ⟨relative, hrelative, hcontract⟩ := List.mem_filterMap.1 ha
  obtain ⟨c, hc, rfl⟩ := Option.map_eq_some_iff.1 hcontract
  exact ⟨c, ⟨relative, hrelative, hc⟩, rfl⟩

theorem Source.exists_names {p : Path} (h : Source t directory p) : ∃ c, Names t directory c := by
  cases h with
  | artifact hrelative hcontract => exact ⟨_, _, hrelative, hcontract⟩
  | debug hc _ => exact ⟨_, hc⟩
  | document hrefers _ =>
      obtain ⟨c, -, -, -, -, hc, -⟩ := hrefers
      exact ⟨c, hc⟩

/-- A table of objects names no contract. -/
theorem contractOf?_of_objects {fields : Fields} (h : ∀ e ∈ fields, e.2.isObj = true) :
    contractOf? (.obj fields) = none := by
  have hsource : (Json.field fields "sourceName").asText? = none := by
    rw [Json.field]
    cases hget : Table.get? fields "sourceName" with
    | none => rfl
    | some v =>
        obtain ⟨k, hmem⟩ := Table.exists_mem_of_get?_eq_some hget
        have hv := h _ hmem
        cases v <;> first | rfl | cases hv
  change (Json.field fields "sourceName").asText?.bind _ = none
  rw [hsource]
  rfl

/-- An artifact directory can be opened if its path resolves to it and it is there. -/
theorem openDirectory_eq_ok_iff {p : Path} :
    openDirectory t p = .ok directory ↔
      t.resolve p = .ok directory ∧ t.isDirectory (.ofTop directory) = .ok true := by
  rw [openDirectory]
  constructor
  · intro h
    obtain ⟨place, hplace, h⟩ := bind_eq_ok_iff.1 h
    obtain ⟨there, -, h⟩ := bind_eq_ok_iff.1 h
    split at h
    · cases h
    · obtain ⟨isThere, hdirectory, h⟩ := bind_eq_ok_iff.1 h
      split at h
      · cases h
      · rename_i hyes
        obtain rfl := Except.ok.inj h
        obtain rfl : isThere = true := by simpa using hyes
        exact ⟨liftM_eq_ok_iff.1 hplace, liftM_eq_ok_iff.1 hdirectory⟩
  · rintro ⟨hplace, hdirectory⟩
    rw [hplace, liftM_ok, ok_bind]
    dsimp only
    rw [FileTree.holds_of_isDirectory hdirectory, liftM_ok, ok_bind, hdirectory]
    rfl

/-- The steps to the build-info document of a contract. -/
theorem buildInfo_eq_ok_iff {τ : Type} [DecidableEq τ] [IsText τ] {contract : String}
    {document : Json τ} :
    buildInfo t directory contract = .ok document ↔
      ∃ (id : ContractName) (v : Json Utf16) (reference : Utf16) (path : Path) (place : Location),
        ContractName.parse contract = .ok id ∧
        t.readJson (debugPath directory id) = .ok v ∧ reference? v = some reference ∧
        referencePath reference = .ok path ∧
        t.resolve ((debugPath directory id).parent.join path) = .ok place ∧
        t.readJson (.ofTop place) = .ok document ∧ document.isObj = true := by
  rw [buildInfo]
  constructor
  · intro h
    obtain ⟨id, hid, h⟩ := bind_eq_ok_iff.1 h
    obtain ⟨v, hread, h⟩ := bind_eq_ok_iff.1 h
    split at h
    · cases h
    · rename_i reference hreference
      obtain ⟨path, hpath, h⟩ := bind_eq_ok_iff.1 h
      obtain ⟨place, hplace, h⟩ := bind_eq_ok_iff.1 h
      obtain ⟨found, hfound, h⟩ := bind_eq_ok_iff.1 h
      split at h
      · rename_i hobject
        obtain rfl := Except.ok.inj h
        exact ⟨id, v, reference, path, place, hid, hread, hreference, liftM_eq_ok_iff.1 hpath,
          liftM_eq_ok_iff.1 hplace, hfound, hobject⟩
      · cases h
  · rintro ⟨id, v, reference, path, place, hid, hread, hreference, hpath, hplace, hfound, hobject⟩
    have hread' : t.readJson (Path.ofTop directory / id.source /
        ContractName.debugFile id.name) = .ok v := hread
    have hplace' : t.resolve ((Path.ofTop directory / id.source /
        ContractName.debugFile id.name).parent.join path) = .ok place := hplace
    rw [hid, ok_bind]
    dsimp only
    rw [hread', ok_bind, hreference]
    dsimp only
    rw [hpath, liftM_ok, ok_bind, hplace', liftM_ok, ok_bind, hfound, ok_bind, if_pos hobject]

theorem bounded_output {contract : String} {v : Json} (h : output t directory contract = .ok v) :
    Bounded 986 v := by
  obtain ⟨id, -, h⟩ := bind_eq_ok_iff.1 h
  obtain ⟨document, hdocument, h⟩ := bind_eq_ok_iff.1 h
  obtain ⟨-, -, -, -, place, -, -, -, -, -, hread, -⟩ := buildInfo_eq_ok_iff.1 hdocument
  obtain ⟨text, -, htext⟩ := FileTree.readJson_eq_ok_iff.1 hread
  obtain ⟨hstandard, hdepth⟩ := Json.standard_of_read htext
  exact BuildInfo.bounded_output hstandard hdepth h

/-! ### The directory in a changed tree -/

/-- A tree that has come from another one, with an artifact directory that is reached under its own
path in both. All that was read for the documentation is read as before, and no other file that is
looked at is new or changed, unless it names no contract. -/
structure Reread (t t' : FileTree) (directory : Location) : Prop where
  sound : t.Sound
  tidy : t'.Tidy
  links : ∀ place target, t'.at? place = some (.link target) → t.at? place = some (.link target)
  opened : landing t directory = directory
  reopened : landing t' directory = directory
  sources : ∀ p text, Source t directory p → t.readText p = .ok text → t'.readText p = .ok text
  references : ∀ (p : Path) (place : Location) (v : Json), Refers t directory p →
    t.resolve p = .ok place → t.readJson (.ofTop place) = .ok v → t'.resolve p = .ok place
  others : ∀ relative content, t'.at? (directory ++ relative) = some (.file content) →
    IsOpen relative → t.at? (directory ++ relative) = some (.file content) ∨
      Dotless (directory ++ relative) ∧ Nameable (directory ++ relative) ∧
        ∃ v, t'.readJson (.ofTop (directory ++ relative)) = .ok v ∧ contractOf? v = none

namespace Reread

variable (h : Reread t t' directory)
include h

/-- A source has the value that it had. -/
theorem readJson {τ : Type} [DecidableEq τ] [IsText τ] {p : Path} {v : Json τ}
    (hp : Source t directory p) (hread : t.readJson p = .ok v) : t'.readJson p = .ok v := by
  obtain ⟨text, htext, hvalue⟩ := FileTree.readJson_eq_ok_iff.1 hread
  exact FileTree.readJson_eq_ok_iff.2 ⟨text, h.sources p text hp htext, hvalue⟩

/-- An artifact that names a contract is still looked at. -/
theorem mem_files {relative : Location} {c : ContractName} {v : Json}
    (hmem : relative ∈ files t directory) (hcontract : contractAt? t directory relative = some c)
    (hread : t.readJson (.ofTop (directory ++ relative)) = .ok v) :
    relative ∈ files t' directory ∧ t'.readJson (.ofTop (directory ++ relative)) = .ok v := by
  obtain ⟨⟨content, hat⟩, hopen, hfits⟩ := (Artifacts.mem_files h.sound).1 hmem
  rw [h.opened] at hat
  have hread' := h.readJson (.artifact hmem hcontract) hread
  obtain ⟨place, content', hlocate⟩ := FileTree.exists_locate_of_readJson hread'
  have hplain' : t'.Plain (directory ++ relative) := fun upper hupper target hlink =>
    h.sound.plain hat (by simp) upper hupper target (h.links _ _ hlink)
  have hat' : t'.at? (directory ++ relative) = some (.file content') := by
    rcases FileTree.locate_of_plain true hplain' (h.sound.dotless hat) with
      ⟨reason, hstop, -⟩ | hreach
    · cases hstop.symm.trans hlocate
    · exact (Prod.mk.inj (Except.ok.inj (hreach.symm.trans hlocate))).2
  refine ⟨mem_unlinked.2 ⟨(mem_candidates h.tidy).2 ⟨⟨.file content', ?_, by simp⟩, hopen,
    hfits.dropLast⟩, ?_⟩, hread'⟩
  · rwa [h.reopened]
  · exact isLink_of_nameable h.tidy (h.sound.dotless hat) (nameable_of_fits h.sound hat hfits) hat'

section

variable (hseen : ∀ relative ∈ candidates t directory, Seen t (.ofTop (directory ++ relative)))
include hseen

/-- What is looked at now is a link, or was looked at before and is read as it was, or names no
contract. -/
theorem of_mem_candidates {relative : Location} (hmem : relative ∈ candidates t' directory) :
    t'.isLink (.ofTop (directory ++ relative)) = .ok true ∨
      t'.isLink (.ofTop (directory ++ relative)) = .ok false ∧
        ∃ v, t'.readJson (.ofTop (directory ++ relative)) = .ok v ∧
          (contractOf? v = none ∨
            relative ∈ files t directory ∧ contractAt? t directory relative = contractOf? v) := by
  obtain ⟨⟨entry, hat', hentry⟩, hopen, hupper⟩ := (mem_candidates h.tidy).1 hmem
  rw [h.reopened] at hat'
  -- Whatever was there before was met by the walk before.
  have hbefore (hat : t.at? (directory ++ relative) = some entry) :
      relative ∈ candidates t directory ∧ Fits (directory ++ relative) ∧
        t'.isLink (.ofTop (directory ++ relative)) = .ok entry.isLink := by
    have hcandidate := (mem_candidates h.sound.tidy).2
      ⟨⟨entry, h.opened.symm ▸ hat, hentry⟩, hopen, hupper⟩
    have hfits := (hseen relative hcandidate).fits
    exact ⟨hcandidate, hfits, isLink_of_nameable h.tidy (h.sound.dotless hat)
      (nameable_of_fits h.sound hat hfits) hat'⟩
  cases entry with
  | directory => exact absurd rfl hentry
  | link target => exact .inl (hbefore (h.links _ _ hat')).2.2
  | file content =>
      rcases h.others relative content hat' hopen with hat | ⟨hdotless, hname, v, hread, hnone⟩
      · obtain ⟨hcandidate, hfits, hlink⟩ := hbefore hat
        have hfile : relative ∈ files t directory :=
          (Artifacts.mem_files h.sound).2 ⟨⟨content, h.opened.symm ▸ hat⟩, hopen, hfits⟩
        obtain ⟨v, hread⟩ := (hseen relative hcandidate).exists_readJson (mem_unlinked.1 hfile).2
        obtain ⟨text, htext, hvalue⟩ := FileTree.readJson_eq_ok_iff.1 hread
        have htext' := FileTree.readText_of_at? h.sound h.tidy hat hat' htext
        exact .inr ⟨hlink, v, FileTree.readJson_eq_ok_iff.2 ⟨text, htext', hvalue⟩,
          .inr ⟨hfile, contractAt?_of_readJson hread⟩⟩
      · exact .inr ⟨isLink_of_nameable h.tidy hdotless hname hat', v, hread, .inl hnone⟩

/-- The artifacts that name contracts are the same. -/
theorem names_iff {relative : Location} {c : ContractName} :
    relative ∈ files t' directory ∧ contractAt? t' directory relative = some c ↔
      relative ∈ files t directory ∧ contractAt? t directory relative = some c := by
  constructor
  · rintro ⟨hmem, hcontract⟩
    obtain ⟨hcandidate, hlink⟩ := mem_unlinked.1 hmem
    rcases h.of_mem_candidates hseen hcandidate with hlink' | ⟨-, v, hread, hcase⟩
    · cases hlink.symm.trans hlink'
    · rw [contractAt?_of_readJson hread] at hcontract
      rcases hcase with hnone | ⟨hbefore, hsame⟩
      · cases hnone.symm.trans hcontract
      · exact ⟨hbefore, hsame.trans hcontract⟩
  · rintro ⟨hmem, hcontract⟩
    obtain ⟨hcandidate, hlink⟩ := mem_unlinked.1 hmem
    obtain ⟨v, hread⟩ := (hseen relative hcandidate).exists_readJson hlink
    obtain ⟨hmem', hread'⟩ := h.mem_files hmem hcontract hread
    rw [contractAt?_of_readJson hread] at hcontract
    exact ⟨hmem', (contractAt?_of_readJson hread').trans hcontract⟩

theorem artifacts_perm :
    ((artifactsAt t' directory (files t' directory)).map fun a => a.id).Perm
      ((artifactsAt t directory (files t directory)).map fun a => a.id) := by
  simp only [map_artifactsAt]
  exact perm_filterMap (nodup_files h.tidy) (nodup_files h.sound.tidy) fun relative c =>
    h.names_iff hseen

end

/-- The same contracts are listed. -/
theorem exists_listing {listed : Listing} (hlisting : listing t directory = .ok listed) :
    ∃ warnings, listing t' directory = .ok ⟨listed.names, warnings⟩ := by
  obtain ⟨hseen, rfl⟩ := listing_eq_ok_iff.1 hlisting
  refine ⟨warningsAt t' directory (files t' directory),
    listing_eq_ok_iff.2 ⟨fun relative hrelative => ?_, ?_⟩⟩
  · rcases h.of_mem_candidates hseen hrelative with hlink | ⟨hlink, v, hread, -⟩
    · exact .inl hlink
    · exact .inr ⟨hlink, v, hread⟩
  · have hnames := (h.artifacts_perm hseen).map ContractName.qualified
    rw [List.map_map, List.map_map] at hnames
    exact congrArg (Listing.mk · _) (mergeSort_congr hnames).symm

/-- The contracts that are listed give the same outputs. -/
theorem output_eq {listed : Listing} (hlisting : listing t directory = .ok listed)
    {name : String} (hname : name ∈ listed.names) {v : Json}
    (houtput : output t directory name = .ok v) : output t' directory name = .ok v := by
  obtain ⟨c, hc, rfl⟩ := exists_names_of_mem hlisting hname
  obtain ⟨id, hid, houtput⟩ := bind_eq_ok_iff.1 houtput
  obtain ⟨document, hdocument, houtput⟩ := bind_eq_ok_iff.1 houtput
  obtain ⟨id', v', reference, path, place, hid', hdebug, hreference, hpath, hplace, hread,
    hobject⟩ := buildInfo_eq_ok_iff.1 hdocument
  obtain rfl := Except.ok.inj (hid'.symm.trans hid)
  have hrefers : Refers t directory ((debugPath directory id').parent.join path) :=
    ⟨c, id', v', reference, path, hc, hid, hdebug, hreference, hpath, rfl⟩
  have hdebug' := h.readJson (.debug hc hid) hdebug
  have hread' := h.readJson (.document hrefers hplace) hread
  have hplace' := h.references _ place document hrefers hplace hread
  have hdocument' := buildInfo_eq_ok_iff.2
    ⟨id', v', reference, path, place, hid, hdebug', hreference, hpath, hplace', hread', hobject⟩
  rw [output, hid, ok_bind, hdocument', ok_bind, houtput]

end Reread

end Artifacts

end NatSpec
