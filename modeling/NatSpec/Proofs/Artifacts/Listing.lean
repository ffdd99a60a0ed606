import NatSpec.Proofs.Artifacts.Walk
import NatSpec.Proofs.Except
import NatSpec.Proofs.FileTree.Listing
import NatSpec.Proofs.Text.Sorting

/-!
What is read in an artifact directory does not depend on the order in which directories list their
entries. The walk meets the same files in another order. It succeeds if each of them can be read,
whichever is met first, and then finds the same artifacts and warns of the same files; sorting
gives them one order.
-/

namespace NatSpec

namespace FileTree

variable {t t' : FileTree} {p : Path}

/-- A file that is where it was, as it was, has the text that it had. -/
theorem readText_of_locate (h : t'.locate true p = t.locate true p) :
    t'.readText p = t.readText p := by
  unfold readText readBytes status
  rw [h]

/-- A text is that of a file. -/
theorem exists_locate_of_readText {text : String} (h : t.readText p = .ok text) :
    ∃ place content, t.locate true p = .ok (place, some (.file content)) := by
  obtain ⟨content, hbytes, -⟩ := bind_eq_ok_iff.1 h
  obtain ⟨place, hlocate⟩ := exists_locate_of_readBytes hbytes
  exact ⟨place, content, hlocate⟩

section

variable {τ : Type} [DecidableEq τ] [IsText τ] {v : Json τ}

/-- The value of a file is that of its text. -/
theorem readJson_eq_ok_iff :
    t.readJson p = .ok v ↔ ∃ text, t.readText p = .ok text ∧ Json.read text = .ok v := by
  constructor
  · intro h
    have hvalue : t.readValue p = .ok v := by
      unfold readJson at h
      split at h
      · rename_i hvalue
        rw [hvalue, Except.ok.inj h]
      all_goals cases h
    obtain ⟨text, htext, hread⟩ := bind_eq_ok_iff.1 hvalue
    refine ⟨text, htext, ?_⟩
    split at hread
    · rename_i hread'
      rw [hread', Except.ok.inj hread]
    · cases hread
  · rintro ⟨text, htext, hread⟩
    have hvalue : t.readValue p = .ok v := by rw [readValue, htext, ok_bind, hread]
    rw [readJson, hvalue]

theorem exists_locate_of_readJson (h : t.readJson p = .ok v) :
    ∃ place content, t.locate true p = .ok (place, some (.file content)) := by
  obtain ⟨text, htext, -⟩ := readJson_eq_ok_iff.1 h
  exact exists_locate_of_readText htext

end

end FileTree

namespace Artifacts

open FileTree (Alike)

variable {t t' : FileTree} {directory : Location}

theorem referencePath_ofString (s : String) : referencePath s = .ok (.ofString s) := by
  rw [referencePath, Utf16.toString?_eq_some_iff.2 rfl]

theorem noDot_referencePath {reference : Utf16} {path : Path}
    (h : referencePath reference = .ok path) : "." ∉ path.parts := by
  unfold referencePath at h
  split at h
  · exact Except.ok.inj h ▸ Path.noDot_ofString _
  · split at h
    · rw [← Except.ok.inj h]
      exact fun hmem => absurd (List.mem_filter.1 hmem).2 (by decide)
    · cases h

/-! ### Findings -/

/-- The contract that the artifact at a place names, if the file there is one. -/
def contractAt? (t : FileTree) (directory relative : Location) : Option ContractName :=
  match t.readJson (.ofTop (directory ++ relative)) with
  | .ok v => contractOf? v
  | .error _ => none

theorem contractAt?_of_readJson {relative : Location} {v : Json}
    (h : t.readJson (.ofTop (directory ++ relative)) = .ok v) :
    contractAt? t directory relative = contractOf? v := by
  rw [contractAt?, h]

theorem fits_of_readJson {place : Location} {v : Json} (h : t.readJson (.ofTop place) = .ok v) :
    Fits place := by
  obtain ⟨found, content, hlocate⟩ := FileTree.exists_locate_of_readJson h
  unfold FileTree.locate at hlocate
  split at hlocate
  · cases hlocate
  · exact Nat.le_of_not_lt ‹_›

/-- The artifacts among the files at some places, in the order of the places. -/
def artifactsAt (t : FileTree) (directory : Location) (places : List Location) : List Artifact :=
  places.filterMap fun relative =>
    (contractAt? t directory relative).map fun id => ⟨.ofTop (directory ++ relative), id⟩

/-- The warnings about the other files. -/
def warningsAt (t : FileTree) (directory : Location) (places : List Location) : List String :=
  (places.filter fun relative => (contractAt? t directory relative).isNone).map skipWarning

/-- A reader gets past a candidate: it is a link, or a file that is read. -/
def Seen (t : FileTree) (p : Path) : Prop :=
  t.isLink p = .ok true ∨ t.isLink p = .ok false ∧ ∃ v : Json, t.readJson p = .ok v

theorem Seen.fits {place : Location} (h : Seen t (.ofTop place)) : Fits place := by
  rcases h with hlink | ⟨-, v, hread⟩
  · by_contra hlong
    unfold FileTree.isLink FileTree.locate at hlink
    split at hlink
    · cases hlink
    · rw [if_pos (Nat.lt_of_not_le hlong)] at hlink
      cases hlink
  · exact fits_of_readJson hread

theorem Seen.exists_readJson {p : Path} (h : Seen t p) (hfile : t.isLink p = .ok false) :
    ∃ v : Json, t.readJson p = .ok v := by
  rcases h with hlink | ⟨-, hread⟩
  · cases hlink.symm.trans hfile
  · exact hread

/-- A reader that gets past all that it meets collects the artifacts and notes the other files. -/
theorem visit_of_seen {reader : Reader} {found : List Artifact} {places : List Location}
    (h : ∀ relative ∈ places, Seen t (.ofTop (reader.directory ++ relative))) :
    reader.visit t found places =
      (.ok ((found ++ artifactsAt t reader.directory (unlinked t reader.directory places)).mergeSort
        fun a b => a.id.qualified ≤ b.id.qualified),
        ⟨reader.directory,
          reader.warnings ++ warningsAt t reader.directory (unlinked t reader.directory places)⟩) := by
  -- The artifacts so far are in `found`, and the warnings so far are those of the reader.
  induction places generalizing found reader with
  | nil => simp [Reader.visit, unlinked, artifactsAt, warningsAt]
  | cons relative places ih =>
      obtain ⟨hfirst, hrest⟩ := List.forall_mem_cons.1 h
      rw [Reader.visit]
      rcases hfirst with hlink | ⟨hfile, v, hread⟩
      · have hsame : unlinked t reader.directory (relative :: places) =
            unlinked t reader.directory places := by
          simp [unlinked, hlink]
        rw [hlink, hsame]
        exact ih hrest
      · have hnext : unlinked t reader.directory (relative :: places) =
            relative :: unlinked t reader.directory places := by
          simp [unlinked, hfile]
        have hcontract := contractAt?_of_readJson hread
        rw [hfile, hread, hnext]
        dsimp only
        cases hid : contractOf? v with
        | some id =>
            rw [hid] at hcontract
            simp [ih hrest, artifactsAt, warningsAt, hcontract]
        | none =>
            rw [hid] at hcontract
            have hnoted := @ih { reader with warnings := reader.warnings ++ [skipWarning relative] }
              found hrest
            simp [hnoted, artifactsAt, warningsAt, hcontract]

theorem seen_of_visit {reader last : Reader} {found artifacts : List Artifact}
    {places : List Location} (h : reader.visit t found places = (.ok artifacts, last)) :
    ∀ relative ∈ places, Seen t (.ofTop (reader.directory ++ relative)) := by
  induction places generalizing found reader with
  | nil => exact List.forall_mem_nil _
  | cons relative places ih =>
      rw [Reader.visit] at h
      cases hlink : t.isLink (.ofTop (reader.directory ++ relative)) with
      | error fault =>
          rw [hlink] at h
          cases h
      | ok isLink =>
          rw [hlink] at h
          cases isLink with
          | true => exact List.forall_mem_cons.2 ⟨.inl hlink, ih h⟩
          | false =>
              cases hread : (t.readJson (.ofTop (reader.directory ++ relative)) :
                  Except Failure Json) with
              | error e =>
                  rw [hread] at h
                  cases h
              | ok v =>
                  rw [hread] at h
                  dsimp only at h
                  refine List.forall_mem_cons.2 ⟨.inr ⟨hlink, v, hread⟩, ?_⟩
                  split at h
                  · exact ih h
                  · exact @ih ⟨reader.directory, reader.warnings ++ [skipWarning relative]⟩ _ h

/-- A walk of a reader succeeds if it gets past all candidates, and finds what is at their places,
whatever the reader has noted before. -/
theorem findArtifacts_eq_ok_iff {reader last : Reader} {artifacts : List Artifact} :
    reader.findArtifacts t = (.ok artifacts, last) ↔
      (∀ relative ∈ candidates t reader.directory,
        Seen t (.ofTop (reader.directory ++ relative))) ∧
      artifacts = (artifactsAt t reader.directory (files t reader.directory)).mergeSort
        (fun a b => a.id.qualified ≤ b.id.qualified) ∧
      last = ⟨reader.directory, warningsAt t reader.directory (files t reader.directory)⟩ := by
  have hvisit (h : ∀ relative ∈ candidates t reader.directory,
      Seen t (.ofTop (reader.directory ++ relative))) :=
    @visit_of_seen t { reader with warnings := [] } [] (candidates t reader.directory) h
  rw [Reader.findArtifacts]
  constructor
  · intro h
    have hseen := seen_of_visit h
    obtain ⟨hartifacts, hlast⟩ := Prod.mk.inj (h.symm.trans (hvisit hseen))
    exact ⟨hseen, Except.ok.inj hartifacts, hlast⟩
  · rintro ⟨hseen, rfl, rfl⟩
    exact hvisit hseen

theorem find_eq_ok_iff {found : Findings} :
    find t directory = .ok found ↔
      (∀ relative ∈ candidates t directory, Seen t (.ofTop (directory ++ relative))) ∧
      found = ⟨(artifactsAt t directory (files t directory)).mergeSort
          fun a b => a.id.qualified ≤ b.id.qualified,
        warningsAt t directory (files t directory)⟩ := by
  have hwalk (last : Reader) (artifacts : List Artifact) :=
    @findArtifacts_eq_ok_iff t ⟨directory, []⟩ last artifacts
  rw [find]
  constructor
  · intro h
    generalize Reader.findArtifacts t ⟨directory, []⟩ = outcome at h hwalk
    obtain ⟨result, last⟩ := outcome
    obtain ⟨artifacts, hartifacts, h⟩ := bind_eq_ok_iff.1 h
    obtain rfl := Except.ok.inj h
    obtain ⟨hseen, rfl, rfl⟩ := (hwalk last artifacts).1 (Prod.ext hartifacts rfl)
    exact ⟨hseen, rfl⟩
  · rintro ⟨hseen, rfl⟩
    rw [(hwalk _ _).2 ⟨hseen, rfl, rfl⟩]
    rfl

/-- A listing holds the sorted names of what has been found. -/
theorem listing_eq_ok_iff {listed : Listing} :
    listing t directory = .ok listed ↔
      (∀ relative ∈ candidates t directory, Seen t (.ofTop (directory ++ relative))) ∧
      listed = ⟨((artifactsAt t directory (files t directory)).map fun a =>
          a.id.qualified).mergeSort fun a b => a ≤ b,
        warningsAt t directory (files t directory)⟩ := by
  have hsorted := map_mergeSort_eq (fun a : Artifact => a.id.qualified)
    (List.Perm.refl ((artifactsAt t directory (files t directory)).map fun a => a.id.qualified))
  rw [listing, ← hsorted]
  constructor
  · intro h
    obtain ⟨found, hfind, h⟩ := bind_eq_ok_iff.1 h
    obtain rfl := Except.ok.inj h
    obtain ⟨hseen, rfl⟩ := find_eq_ok_iff.1 hfind
    exact ⟨hseen, rfl⟩
  · rintro ⟨hseen, rfl⟩
    rw [find_eq_ok_iff.2 ⟨hseen, rfl⟩]
    rfl

theorem map_artifactsAt (places : List Location) :
    (artifactsAt t directory places).map (fun a => a.id) =
      places.filterMap (contractAt? t directory) := by
  rw [artifactsAt, List.map_filterMap]
  refine List.filterMap_congr fun relative _ => ?_
  cases contractAt? t directory relative with
  | none => rfl
  | some id => rfl

/-- Where functions are defined on the same items, with the same values, so are lists of all of
these. -/
theorem perm_filterMap {α β : Type} {f g : α → Option β} {items others : List α}
    (hitems : items.Nodup) (hothers : others.Nodup)
    (h : ∀ a b, a ∈ items ∧ f a = some b ↔ a ∈ others ∧ g a = some b) :
    (items.filterMap f).Perm (others.filterMap g) := by
  have hsnd (f : α → Option β) (items : List α) :
      (items.filterMap fun a => (f a).map (a, ·)).map Prod.snd = items.filterMap f := by
    rw [List.map_filterMap]
    simp
  have hnodup (f : α → Option β) {items : List α} (hitems : items.Nodup) :
      (items.filterMap fun a => (f a).map (a, ·)).Nodup := by
    refine hitems.filterMap fun a a' pair ha ha' => ?_
    obtain ⟨b, -, rfl⟩ := Option.map_eq_some_iff.1 ha
    obtain ⟨b', -, heq⟩ := Option.map_eq_some_iff.1 ha'
    exact (congrArg Prod.fst heq).symm
  rw [← hsnd f, ← hsnd g]
  refine List.Perm.map _ ((List.perm_ext_iff_of_nodup (hnodup f hitems) (hnodup g hothers)).2 ?_)
  rintro ⟨a, b⟩
  have hmem (f : α → Option β) (items : List α) :
      (a, b) ∈ items.filterMap (fun a => (f a).map (a, ·)) ↔ a ∈ items ∧ f a = some b := by
    simp [List.mem_filterMap]
  rw [hmem, hmem, h]

end Artifacts

/-! ### Orders of listing -/

namespace FileTree.Alike

open Artifacts

variable {t t' : FileTree} {directory : Location} (h : Alike t t')
include h

theorem readJson {τ : Type} [DecidableEq τ] [IsText τ] (p : Path) :
    (t.readJson p : Except Failure (Json τ)) = t'.readJson p := by
  unfold FileTree.readJson
  rw [h.readValue]

theorem isLink (p : Path) : t.isLink p = t'.isLink p := by
  unfold FileTree.isLink
  rw [h.locate]

theorem landing (directory : Location) : landing t directory = landing t' directory := by
  unfold Artifacts.landing
  rw [h.locate]

theorem candidates_perm (directory : Location) :
    (candidates t directory).Perm (candidates t' directory) := by
  rw [List.perm_ext_iff_of_nodup (nodup_candidates h.tidy) (nodup_candidates h.tidy')]
  intro relative
  rw [mem_candidates h.tidy, mem_candidates h.tidy', h.landing, h.same]

theorem files_perm (directory : Location) : (files t directory).Perm (files t' directory) := by
  have hsame : files t directory = unlinked t' directory (candidates t directory) := by
    simp only [files, unlinked, h.isLink]
  rw [hsame]
  exact (h.candidates_perm directory).filter _

theorem contractAt? (relative : Location) :
    contractAt? t directory relative = contractAt? t' directory relative := by
  unfold Artifacts.contractAt?
  rw [h.readJson]

/-- If one walk succeeds then so does the other, with the same names and with the same warnings in
another order. -/
theorem exists_listing {listed : Listing} (hlisted : Artifacts.listing t directory = .ok listed) :
    ∃ warnings, Artifacts.listing t' directory = .ok ⟨listed.names, warnings⟩ ∧
      listed.warnings.Perm warnings := by
  obtain ⟨hseen, rfl⟩ := listing_eq_ok_iff.1 hlisted
  have hfiles := h.files_perm directory
  refine ⟨warningsAt t' directory (files t' directory),
    listing_eq_ok_iff.2 ⟨fun relative hrelative => ?_, ?_⟩, ?_⟩
  · have hrelative' := (h.candidates_perm directory).mem_iff.2 hrelative
    unfold Seen
    rw [← h.readJson, ← h.isLink]
    exact hseen relative hrelative'
  · have hartifacts : (artifactsAt t directory (files t directory)).Perm
        (artifactsAt t' directory (files t' directory)) := by
      simp only [artifactsAt, h.contractAt?]
      exact hfiles.filterMap _
    rw [mergeSort_congr (hartifacts.map fun a => a.id.qualified)]
  · simp only [warningsAt, h.contractAt?]
    exact (hfiles.filter _).map _

theorem output {τ : Type} [DecidableEq τ] [IsText τ] (contract : String) :
    (Artifacts.output t directory contract : Except Failure (Json τ)) =
      Artifacts.output t' directory contract := by
  unfold Artifacts.output buildInfo
  simp only [h.readJson, h.resolve]

theorem openDirectory (p : Path) : openDirectory t p = openDirectory t' p := by
  unfold Artifacts.openDirectory
  simp only [h.resolve, h.holds, h.isDirectory]

end FileTree.Alike

end NatSpec
