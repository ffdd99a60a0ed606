import NatSpec.Artifacts
import NatSpec.Proofs.FileTree.Read
import NatSpec.Proofs.FileTree.Walk

/-!
What the walk through an artifact directory meets: each candidate once, whatever the order in which
the directories list their entries. A step meets the candidates of one directory; what it meets
further down is what the steps for the directories in it meet. The candidates that are read are
those that are no links.
-/

namespace NatSpec

namespace Artifacts

open FileTree (Dotless maxName maxPath)

variable {t : FileTree} {directory top relative : Location}

/-- The path of a place is within the limit of the file system. -/
def Fits (place : Location) : Prop :=
  (Path.ofTop place).toString.utf8ByteSize ≤ maxPath

instance (place : Location) : Decidable (Fits place) :=
  inferInstanceAs (Decidable (_ ≤ _))

theorem Fits.of_append {upper rest : Location} (h : Fits (upper ++ rest)) : Fits upper :=
  (Path.size_ofTop_le upper rest).trans h

theorem Fits.dropLast (h : Fits (directory ++ relative)) : Fits (directory ++ relative.dropLast) := by
  obtain ⟨rest, hrest⟩ := List.dropLast_prefix relative
  rw [← hrest, ← List.append_assoc] at h
  exact h.of_append

/-! ### The walk -/

theorem mem_listed (htidy : t.Tidy) {child : String × Entry} :
    child ∈ listed t directory top relative ↔ Fits (directory ++ relative) ∧
      t.at? (top ++ relative ++ [child.1]) = some child.2 := by
  unfold listed
  split
  · rename_i hlong
    exact ⟨fun h => absurd h List.not_mem_nil, fun h => absurd hlong (Nat.not_lt.2 h.1)⟩
  · rename_i hshort
    rw [FileTree.mem_children htidy]
    exact ⟨fun h => ⟨Nat.le_of_not_lt hshort, h⟩, And.right⟩

theorem nodup_listed (htidy : t.Tidy) (directory top relative : Location) :
    (listed t directory top relative).Pairwise fun child other => child.1 ≠ other.1 := by
  unfold listed
  split
  · exact .nil
  · exact FileTree.nodup_children htidy _

/-- What a step of the walk meets: the candidates of its directory, and what the steps for the
directories in it meet. -/
theorem mem_walk_succ (htidy : t.Tidy) {depth : Nat} {place : Location} :
    place ∈ walk t directory top (depth + 1) relative ↔ Fits (directory ++ relative) ∧
      ((∃ name entry, t.at? (top ++ relative ++ [name]) = some entry ∧
        entry ≠ .directory ∧ isCandidate name = true ∧ place = relative ++ [name]) ∨
      ∃ name, t.at? (top ++ relative ++ [name]) = some .directory ∧
        ¬(relative = [] ∧ name = buildInfoDirectory) ∧
        place ∈ walk t directory top depth (relative ++ [name])) := by
  rw [walk, List.mem_append, List.mem_map, List.mem_flatMap, and_or_left]
  refine or_congr ⟨?_, ?_⟩ ⟨?_, ?_⟩
  · rintro ⟨⟨name, entry⟩, hmem, rfl⟩
    obtain ⟨hchild, hfile⟩ := List.mem_filter.1 hmem
    obtain ⟨hfits, hat⟩ := (mem_listed htidy).1 hchild
    obtain ⟨hentry, hname⟩ : entry ≠ .directory ∧ isCandidate name = true := by simpa using hfile
    exact ⟨hfits, name, entry, hat, hentry, hname, rfl⟩
  · rintro ⟨hfits, name, entry, hat, hentry, hname, rfl⟩
    exact ⟨(name, entry), List.mem_filter.2
      ⟨(mem_listed htidy).2 ⟨hfits, hat⟩, by simpa using ⟨hentry, hname⟩⟩, rfl⟩
  · rintro ⟨⟨name, entry⟩, hmem, hplace⟩
    obtain ⟨hchild, hinner⟩ := List.mem_filter.1 hmem
    obtain ⟨hfits, hat⟩ := (mem_listed htidy).1 hchild
    obtain ⟨rfl, hkept⟩ : entry = .directory ∧ ¬(relative = [] ∧ name = buildInfoDirectory) := by
      simpa [imp_iff_not_or] using hinner
    exact ⟨hfits, name, hat, hkept, hplace⟩
  · rintro ⟨hfits, name, hat, hkept, hplace⟩
    exact ⟨(name, .directory), List.mem_filter.2
      ⟨(mem_listed htidy).2 ⟨hfits, hat⟩, by simpa [imp_iff_not_or] using hkept⟩, hplace⟩

/-- What the walk meets from a directory: the candidates below it, as deep as it goes and as far as
paths go, except those in the directory of build-info documents at the top. -/
theorem mem_walk (htidy : t.Tidy) {depth : Nat} {place : Location} :
    place ∈ walk t directory top depth relative ↔ ∃ below name entry,
      place = relative ++ below ++ [name] ∧ below.length < depth ∧
      Fits (directory ++ (relative ++ below)) ∧
      t.at? (top ++ place) = some entry ∧ entry ≠ .directory ∧
      isCandidate name = true ∧ ¬(relative = [] ∧ below.head? = some buildInfoDirectory) := by
  induction depth generalizing relative with
  | zero => simp [walk]
  | succ depth ih =>
      rw [mem_walk_succ htidy]
      constructor
      · rintro ⟨hfits, ⟨name, entry, hat, hentry, hname, rfl⟩ | ⟨inner, hat, hkept, hplace⟩⟩
        · exact ⟨[], name, entry, by simp, by simp, by simpa using hfits, by simpa using hat, hentry,
            hname, by simp⟩
        · obtain ⟨below, name, entry, rfl, hdepth, hbelow, hfile, hentry, hname, -⟩ := ih.1 hplace
          exact ⟨inner :: below, name, entry, by simp, by simpa using hdepth, by simpa using hbelow,
            hfile, hentry, hname, by simpa using hkept⟩
      · rintro ⟨below, name, entry, rfl, hdepth, hfits, hat, hentry, hname, hkept⟩
        refine ⟨@Fits.of_append (directory ++ relative) below (by simpa using hfits), ?_⟩
        cases below with
        | nil => exact .inl ⟨name, entry, by simpa using hat, hentry, hname, by simp⟩
        | cons inner below =>
            refine .inr ⟨inner, ?_, by simpa using hkept, ih.2 ?_⟩
            · have hbelow : t.at? (top ++ relative ++ [inner] ++
                  (below ++ [name])) = some entry := by simpa using hat
              exact htidy.directory_of_append hbelow (by simp)
            · exact ⟨below, name, entry, by simp, by simpa using hdepth, by simpa using hfits, hat,
                hentry, hname, by simp⟩

theorem nodup_walk (htidy : t.Tidy) (depth : Nat) (relative : Location) :
    (walk t directory top depth relative).Nodup := by
  induction depth generalizing relative with
  | zero => exact List.nodup_nil
  | succ depth ih =>
      rw [walk]
      have hlisted := nodup_listed htidy directory top relative
      refine List.Nodup.append ?_ (List.nodup_flatMap.2 ⟨fun child _ => ih _, ?_⟩) ?_
      · refine List.pairwise_map.2 ((hlisted.filter _).imp fun hne heq => hne ?_)
        simpa using heq
      · refine (hlisted.filter _).imp fun {child other} hne place hplace hplace' => hne ?_
        obtain ⟨below, name, -, rfl, -⟩ := (mem_walk htidy).1 hplace
        obtain ⟨below', name', -, heq, -⟩ := (mem_walk htidy).1 hplace'
        simp only [List.append_assoc, List.append_cancel_left_eq, List.cons_append,
          List.nil_append, List.cons.injEq] at heq
        exact heq.1
      · intro place hfile hinner
        obtain ⟨child, -, rfl⟩ := List.mem_map.1 hfile
        obtain ⟨other, -, hplace⟩ := List.mem_flatMap.1 hinner
        obtain ⟨below, name, -, heq, -⟩ := (mem_walk htidy).1 hplace
        simp at heq

/-- A place in an artifact directory where a file may be an artifact: the name fits, and the place
is not in the directory of build-info documents. -/
structure IsOpen (relative : Location) : Prop where
  named : relative.getLast?.any isCandidate = true
  elsewhere : relative.dropLast.head? ≠ some buildInfoDirectory

theorem IsOpen.ne_nil (h : IsOpen relative) : relative ≠ [] := by
  rintro rfl
  cases h.named

theorem mem_candidates (htidy : t.Tidy) :
    relative ∈ candidates t directory ↔
      (∃ entry, t.at? (landing t directory ++ relative) = some entry ∧ entry ≠ .directory) ∧
        IsOpen relative ∧ Fits (directory ++ relative.dropLast) := by
  rw [candidates, mem_walk htidy]
  constructor
  · rintro ⟨below, name, entry, rfl, -, hfits, hat, hentry, hname, hkept⟩
    exact ⟨⟨entry, hat, hentry⟩, ⟨by simpa using hname, by simpa using hkept⟩, by simpa using hfits⟩
  · rintro ⟨⟨entry, hat, hentry⟩, ⟨hlast, hkept⟩, hfits⟩
    induction relative using List.reverseRecOn with
    | nil => cases hlast
    | append_singleton below name =>
        have hdepth := htidy.length_le hat
        simp only [List.length_append, List.length_singleton] at hdepth
        exact ⟨below, name, entry, rfl, by omega, by simpa using hfits, hat, hentry,
          by simpa using hlast, by simpa using hkept⟩

theorem nodup_candidates (htidy : t.Tidy) : (candidates t directory).Nodup :=
  nodup_walk htidy _ _

/-! ### Files and links -/

/-- The places of some candidates that are no links. -/
def unlinked (t : FileTree) (directory : Location) (places : List Location) : List Location :=
  places.filter fun relative => t.isLink (.ofTop (directory ++ relative)) matches .ok false

theorem mem_unlinked {places : List Location} : relative ∈ unlinked t directory places ↔
    relative ∈ places ∧ t.isLink (.ofTop (directory ++ relative)) = .ok false := by
  rw [unlinked, List.mem_filter]
  refine and_congr_right fun _ => ?_
  split
  · rename_i hlink
    simp [hlink]
  · rename_i hlink
    exact ⟨nofun, fun h => absurd h hlink⟩

/-- The candidates that are no links, in the order in which the walk meets them. -/
def files (t : FileTree) (directory : Location) : List Location :=
  unlinked t directory (candidates t directory)

theorem nodup_files (htidy : t.Tidy) : (files t directory).Nodup :=
  (nodup_candidates htidy).filter _

theorem isLink_of_locate {p : Path} {place : Location} {entry : Entry}
    (hnull : FileTree.holdsNull p = false) (h : t.locate false p = .ok (place, some entry)) :
    t.isLink p = .ok entry.isLink := by
  rw [FileTree.isLink, if_neg (by simpa using hnull), h]
  rfl

/-- A place below where the path of a directory leads is where its own path leads. -/
theorem locate_below
    (htop : t.locate true (.ofTop directory) = .ok (top, some .directory)) (htidy : t.Tidy)
    {entry : Entry} (hat : t.at? (top ++ relative) = some entry) (hne : relative ≠ [])
    (hdotless : Dotless relative) (hshort : ∀ name ∈ relative, name.utf8ByteSize ≤ maxName)
    (hfits : Fits (directory ++ relative)) :
    t.locate false (.ofTop (directory ++ relative)) = .ok (top ++ relative, some entry) := by
  have hwalk : t.walk true FileTree.maxLinks [] directory = .ok (top, some .directory) :=
    FileTree.walk_of_locate htop
  obtain ⟨found, left, hfound, hrest⟩ | ⟨hnone, -⟩ :=
    FileTree.walk_append t FileTree.maxLinks [] directory
  · obtain ⟨rfl, -⟩ := Prod.mk.inj (Except.ok.inj (hfound.symm.trans hwalk))
    have hbelow : t.walk false left found relative = .ok (found ++ relative,
        if relative = [] then some .directory else t.at? (found ++ relative)) :=
      FileTree.walk_false_of_directories hdotless hshort fun upper hupper hother => by
        obtain ⟨rest, rfl⟩ := hupper
        rw [← List.append_assoc] at hat
        exact htidy.directory_of_append hat (by simpa using hother)
    rw [if_neg hne, hat] at hbelow
    rw [FileTree.locate, if_neg (Nat.not_lt.2 hfits)]
    exact (hrest false relative hne).trans hbelow
  · exact absurd hwalk (hnone top)

/-- If something is in an artifact directory then the path of the directory leads there. -/
theorem locate_landing (hsound : t.Sound) {entry : Entry}
    (hat : t.at? (landing t directory ++ relative) = some entry) (hne : relative ≠ [])
    (hfits : Fits directory) :
    t.locate true (.ofTop directory) = .ok (landing t directory, some .directory) := by
  have hlanding := hsound.tidy.directory_of_append hat hne
  cases hlocate : t.locate true (.ofTop directory) with
  | error reason =>
      have hsame : landing t directory = directory := by rw [landing, hlocate]
      rw [hsame] at hlanding
      have hreach := hsound.locate_eq true hlanding nofun
      rw [if_neg (Nat.not_lt.2 hfits), hlocate] at hreach
      cases hreach
  | ok found =>
      obtain ⟨place, stands⟩ := found
      have hsame : landing t directory = place := by rw [landing, hlocate]
      rw [hsame] at hlanding ⊢
      rcases FileTree.locate_eq_ok hlocate with rfl | ⟨-, hstands, -⟩
      · rfl
      · rw [← hstands, hlanding]

section

variable (hsound : t.Sound) {entry : Entry}
  (hat : t.at? (landing t directory ++ relative) = some entry) (hne : relative ≠ [])
include hsound hat hne

/-- Whether something in an artifact directory is a link is seen under its path if the file system
takes that. -/
theorem isLink_eq (hfits : Fits (directory ++ relative)) :
    t.isLink (.ofTop (directory ++ relative)) = .ok entry.isLink := by
  have hname (name : String) (hmem : name ∈ relative) :=
    hsound.isName_of_mem hat (List.mem_append_right _ hmem)
  have hdotless : Dotless relative :=
    ⟨fun hdot => (hname _ hdot).ne_dot rfl, fun hdots => (hname _ hdots).ne_dots rfl⟩
  have htop := locate_landing hsound hat hne hfits.of_append
  have hlocate := locate_below htop hsound.tidy hat hne hdotless
    (fun name hmem => (hname name hmem).short) hfits
  exact isLink_of_locate (hsound.holdsNull_of_locate hlocate) hlocate

theorem isLink_of_not_fits (hdirectory : Fits directory) (hlong : ¬Fits (directory ++ relative)) :
    t.isLink (.ofTop (directory ++ relative)) =
      .error (.refused .nameTooLong (Path.ofTop (directory ++ relative)).toString) := by
  have hnull : FileTree.holdsNull (.ofTop (directory ++ relative)) = false := by
    have htop := hsound.holdsNull_of_locate (locate_landing hsound hat hne hdirectory)
    rw [FileTree.holdsNull, List.any_eq_false] at htop ⊢
    refine List.forall_mem_append.2 ⟨htop, fun name hmem => ?_⟩
    simpa using (hsound.isName_of_mem hat (List.mem_append_right _ hmem)).noNull
  rw [FileTree.isLink, if_neg (by simpa using hnull), FileTree.locate,
    if_pos (Nat.lt_of_not_le hlong)]

end

/-- The files that are read are the regular files where artifacts are looked for whose paths the
file system takes. -/
theorem mem_files (hsound : t.Sound) :
    relative ∈ files t directory ↔
      (∃ content, t.at? (landing t directory ++ relative) = some (.file content)) ∧
        IsOpen relative ∧ Fits (directory ++ relative) := by
  rw [files, mem_unlinked, mem_candidates hsound.tidy]
  constructor
  · rintro ⟨⟨⟨entry, hat, hentry⟩, hopen, hupper⟩, hlink⟩
    have hfits : Fits (directory ++ relative) := by
      by_contra hlong
      rw [isLink_of_not_fits hsound hat hopen.ne_nil hupper.of_append hlong] at hlink
      cases hlink
    rw [isLink_eq hsound hat hopen.ne_nil hfits] at hlink
    cases entry with
    | file content => exact ⟨⟨content, hat⟩, hopen, hfits⟩
    | link target => cases hlink
    | directory => exact absurd rfl hentry
  · rintro ⟨⟨content, hat⟩, hopen, hfits⟩
    exact ⟨⟨⟨_, hat, by simp⟩, hopen, hfits.dropLast⟩, isLink_eq hsound hat hopen.ne_nil hfits⟩

end Artifacts

end NatSpec
