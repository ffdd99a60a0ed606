import NatSpec.Proofs.FileTree.Laid

/-!
Where a text can be written. A place without links on the way has room for a text if a path can name
it, nothing but directories stands above it, and nothing but a file stands in it. Exactly there a
text is written with the directories above it, and what is written in one place leaves room in
another one unless one of the two is above the other.
-/

namespace NatSpec.FileTree

variable {t t' t'' : FileTree} {place other : Location} {text : String}

/-- Above a place there is nothing but directories, as far as they are there. -/
def Unblocked (t : FileTree) (place : Location) : Prop :=
  ∀ upper, upper <+: place → upper ≠ place → t.at? upper = none ∨ t.at? upper = some .directory

/-- A text can be written in a place, with the directories above it. -/
structure Room (t : FileTree) (place : Location) : Prop where
  nameable : Nameable place
  above : t.Unblocked place
  here : t.at? place = none ∨ ∃ content, t.at? place = some (.file content)

theorem Founded.unblocked (h : t.Founded place) : t.Unblocked place :=
  fun upper hupper hne => .inr (h upper hupper hne)

/-- Everywhere in an empty directory there is room. -/
theorem room_of_empty (htidy : t.Tidy) {root : Location} (hroot : t.at? root = some .directory)
    (hempty : ∀ below, root <+: below → below ≠ root → t.at? below = none) (hname : Nameable place)
    (hbelow : root <+: place) (hne : place ≠ root) : t.Room place := by
  refine ⟨hname, fun upper hupper _ => ?_, .inl (hempty place hbelow hne)⟩
  by_cases hsame : upper = root
  · exact .inr (hsame ▸ hroot)
  · rcases List.prefix_or_prefix_of_prefix hupper hbelow with habove | hin
    · exact .inr (htidy.founded hroot upper habove hsame)
    · exact .inl (hempty upper hin hsame)

theorem Unblocked.plain (h : t.Unblocked place)
    (hplace : ∀ target, t.at? place ≠ some (.link target)) : t.Plain place := by
  intro upper hupper target hlink
  by_cases hne : upper = place
  · exact hplace target (hne ▸ hlink)
  · rcases h upper hupper hne with hnone | hdirectory
    · cases hnone.symm.trans hlink
    · cases hdirectory.symm.trans hlink

theorem Room.plain (h : t.Room place) : t.Plain place := by
  refine h.above.plain fun target hlink => ?_
  rcases h.here with hnone | ⟨content, hfile⟩
  · cases hnone.symm.trans hlink
  · cases hfile.symm.trans hlink

theorem Room.ne_top (h : t.Room place) : place ≠ [] := by
  rintro rfl
  rcases h.here with hnone | ⟨content, hfile⟩
  · cases hnone
  · cases hfile

/-- A place that can be named is in directories that can be named. -/
theorem Nameable.of_prefix (h : Nameable place) {upper : Location} (hupper : upper <+: place) :
    Nameable upper where
  noNull := h.noNull_of_prefix hupper
  names name hname := h.names name (hupper.subset hname)
  short := by
    obtain ⟨rest, rfl⟩ := hupper
    exact (Path.size_ofTop_le upper rest).trans h.short

/-! ### A single entry -/

theorem Laid.at?_self {entry : Entry} (h : Laid [(place, entry)] t t') :
    t'.at? place = some entry :=
  h.item place entry (Table.get?_set_self [] place entry)

theorem Laid.at?_of_not_prefix {entry : Entry} (h : Laid [(place, entry)] t t')
    (hother : ¬other <+: place) : t'.at? other = t.at? other := by
  refine h.rest other fun i hi => ?_
  obtain rfl := List.mem_singleton.1 hi
  exact hother

/-! ### Directories that can be made -/

/-- A walk that nothing blocks gets to its end, or to where something is missing. -/
theorem walk_of_unblocked (follow : Bool) (links : Nat) {parts : List String}
    (hparts : Dotless parts) (hnames : ∀ name ∈ parts, name.utf8ByteSize ≤ maxName)
    (habove : t.Unblocked (place ++ parts))
    (hlink : ∀ target, t.at? (place ++ parts) ≠ some (.link target)) :
    (∃ found, t.walk follow links place parts = .ok found) ∨
      t.walk follow links place parts = .error .notFound := by
  induction parts generalizing place with
  | nil => exact .inl ⟨_, by rw [walk]⟩
  | cons name rest ih =>
      obtain ⟨hdot, hdots, hrest⟩ := hparts.of_cons
      have happend : place ++ name :: rest = (place ++ [name]) ++ rest := by simp
      rw [happend] at habove hlink
      have hshort : ¬maxName < name.utf8ByteSize :=
        Nat.not_lt.2 (hnames name List.mem_cons_self)
      -- An entry other than a directory can only stand at the end, where nothing else follows.
      have hon (hne : rest ≠ []) := habove (place ++ [name]) (List.prefix_append _ _) (by simpa)
      rcases hentry : t.at? (place ++ [name]) with _ | (content | target | _)
      · rw [walk_missing hdot hdots hshort hentry]
        split
        · exact .inl ⟨_, rfl⟩
        · exact .inr rfl
      · rw [walk_file hdot hdots hshort hentry]
        split
        · exact .inl ⟨_, rfl⟩
        · rename_i hne
          simp [hentry] at hon
          simp [hon] at hne
      · by_cases hne : rest = []
        · subst hne
          exact absurd (by simpa using hentry) (hlink target)
        · simp [hentry] at hon
          exact absurd hon hne
      · rw [walk_directory hdot hdots hshort hentry]
        exact ih hrest (fun other hother => hnames other (List.mem_cons_of_mem _ hother)) habove
          hlink

theorem locate_of_unblocked (follow : Bool) (hdotless : Dotless place) (hname : Nameable place)
    (habove : t.Unblocked place) (hlink : ∀ target, t.at? place ≠ some (.link target)) :
    t.locate follow (.ofTop place) = .ok (place, t.at? place) ∨
      t.locate follow (.ofTop place) = .error .notFound := by
  have hwalk : (∃ found, t.locate follow (.ofTop place) = .ok found) ∨
      t.locate follow (.ofTop place) = .error .notFound := by
    unfold locate
    rw [if_neg (Nat.not_lt.2 hname.short)]
    exact @walk_of_unblocked t [] follow maxLinks place hdotless hname.names habove hlink
  refine hwalk.imp_left ?_
  rintro ⟨found, hfound⟩
  rcases locate_of_plain follow (habove.plain hlink) hdotless with ⟨reason, hstop, -⟩ | hreach
  · cases hstop.symm.trans hfound
  · exact hreach

/-- What is made where no link is on the way is the directory of that place. -/
theorem laid_of_makeDirectories (htidy : t.Tidy) (hplain : t.Plain place)
    (hdotless : Dotless place) (h : makeDirectories (.ofTop place) t = (.ok (), t')) :
    t'.Tidy ∧ Laid [(place, .directory)] t t' := by
  obtain ⟨dest, hdest, hsettles⟩ := settles_makeDirectories htidy hdotless h
  rcases locate_of_plain true (hsettles.laid.grows.plain hplain) hdotless with
    ⟨reason, hstop, -⟩ | hreach
  · cases hstop.symm.trans hdest
  · obtain ⟨rfl, -⟩ := Prod.mk.inj (Except.ok.inj (hreach.symm.trans hdest))
    exact ⟨hsettles.tidy, hsettles.laid⟩

/-- A directory is made after the one above it if its path led nowhere. -/
theorem makeDirectories_concat {upper : Location} {name : String}
    (hnull : holdsNull (.ofTop (upper ++ [name])) = false)
    (hmissing : t.locate false (.ofTop (upper ++ [name])) = .error .notFound)
    (hparent : makeDirectories (.ofTop upper) t = (.ok (), t'))
    (hreach : t'.locate false (.ofTop (upper ++ [name])) = .ok (place, none)) :
    makeDirectories (.ofTop (upper ++ [name])) t = (.ok (), t'.put place .directory) := by
  have hfirst : ensureDirectory (.ofTop (upper ++ [name])) t =
      (.error (.refused .notFound (Path.ofTop (upper ++ [name])).toString), t) := by
    rw [ensureDirectory_apply, if_neg (by simp [hnull]), hmissing]
  have hlast : ensureDirectory (.ofTop (upper ++ [name])) t' =
      (.ok (), t'.put place .directory) := by
    rw [ensureDirectory_apply, if_neg (by simp [hnull]), hreach]
  have hpath : (Path.ofTop (upper ++ [name])).parent = .ofTop upper := by
    simp [Path.parent, Path.ofTop]
  have hcount : (Path.ofTop (upper ++ [name])).parts.length = upper.length + 1 := by
    simp [Path.ofTop]
  rw [makeDirectories, hcount, ensureDirectories, tryCatch_apply_of_error _ hfirst]
  dsimp only
  rw [hpath]
  exact (bind_apply_of_ok _ hparent).trans hlast

/-- The directories of a place are made if there is nothing but directories at and above it. -/
theorem exists_makeDirectories (htidy : t.Tidy) (hdotless : Dotless place) (hname : Nameable place)
    (habove : ∀ upper, upper <+: place → t.at? upper = none ∨ t.at? upper = some .directory) :
    ∃ t', makeDirectories (.ofTop place) t = (.ok (), t') := by
  induction place using List.reverseRecOn with
  | nil =>
      refine ⟨t, makeDirectories_of_founded hdotless hname (fun upper hupper hne => ?_) rfl⟩
      exact absurd (List.prefix_nil.1 hupper) hne
  | append_singleton upper name ih =>
      have hup : upper <+: upper ++ [name] := List.prefix_append _ _
      have hunblocked : t.Unblocked (upper ++ [name]) := fun other hother _ => habove other hother
      rcases habove _ List.prefix_rfl with hnone | hdirectory
      · have hlink (target : String) : t.at? (upper ++ [name]) ≠ some (.link target) := by
          simp [hnone]
        rcases locate_of_unblocked false hdotless hname hunblocked hlink with hreach | hmissing
        · rw [hnone] at hreach
          exact ⟨_, makeDirectories_of_missing hname.noNull hreach⟩
        · -- The directory above it is missing as well, and is made first.
          obtain ⟨t₁, hparent⟩ := ih (hdotless.of_prefix hup) (hname.of_prefix hup)
            fun other hother => habove other (hother.trans hup)
          have hplain : t.Plain upper := Plain.of_prefix (hunblocked.plain hlink) hup
          obtain ⟨htidy₁, hlaid⟩ :=
            laid_of_makeDirectories htidy hplain (hdotless.of_prefix hup) hparent
          have hat : t₁.at? upper = some .directory := hlaid.at?_self
          have hnone₁ : t₁.at? (upper ++ [name]) = none := by
            rw [hlaid.at?_of_not_prefix fun hprefix => absurd hprefix.length_le (by simp), hnone]
          have hreach := hname.locate_eq (t := t₁) false
            (hlaid.grows.plain (hunblocked.plain hlink)) hdotless (htidy₁.founded_concat hat name)
          rw [hnone₁] at hreach
          exact ⟨_, makeDirectories_concat hname.noNull hmissing hparent hreach⟩
      · exact ⟨t, makeDirectories_of_founded hdotless hname (htidy.founded hdirectory) hdirectory⟩

/-! ### Texts that can be written -/

/-- What became nothing or a directory was nothing or a directory. -/
theorem Becomes.vacant {P : String → Prop} {before after : Option Entry}
    (h : Becomes P before after) (hafter : after = none ∨ after = some .directory) :
    before = none ∨ before = some .directory := by
  cases h with
  | same => exact hafter
  | made => exact .inl rfl
  | new => exact .inl rfl
  | written => simp at hafter

/-- What became nothing or a file was nothing or a file. -/
theorem Becomes.writable {P : String → Prop} {before after : Option Entry}
    (h : Becomes P before after) (hafter : after = none ∨ ∃ content, after = some (.file content)) :
    before = none ∨ ∃ content, before = some (.file content) := by
  cases h with
  | same => exact hafter
  | made => exact .inl rfl
  | new => exact .inl rfl
  | written => exact .inr ⟨_, rfl⟩

/-- Growing makes no room. -/
theorem Grows.room {P : String → Prop} (h : Grows P t t') (hroom : t'.Room place) :
    t.Room place where
  nameable := hroom.nameable
  above upper hupper hne := (h.becomes upper).vacant (hroom.above upper hupper hne)
  here := (h.becomes place).writable hroom.here

section

variable (htidy : t.Tidy) (hdotless : Dotless place)
include htidy hdotless

/-- A text that was written where no link is on the way had room, and was laid down there. -/
theorem room_of_writeText (hplain : t.Plain place)
    (hmake : makeDirectories (.ofTop place.dropLast) t = (.ok (), t'))
    (hwrite : writeText (.ofTop place) text t' = (.ok (), t'')) :
    t.Room place ∧ t''.Tidy ∧ Laid [(place, .file text.toUTF8)] t t'' := by
  obtain ⟨dest, hdest, hsettles⟩ := settles_writeText htidy hdotless hmake hwrite
  have hplain' := hsettles.laid.grows.plain hplain
  rcases locate_of_plain true hplain' hdotless with ⟨reason, hstop, -⟩ | hreach
  · cases hstop.symm.trans hdest
  obtain ⟨rfl, hat⟩ := Prod.mk.inj (Except.ok.inj (hreach.symm.trans hdest))
  obtain ⟨⟨hshort, hnames⟩, hfounded⟩ := (locate_eq_iff true hplain' hdotless).1 hreach
  obtain ⟨htidy', -⟩ := laid_of_makeDirectories htidy hplain.dropLast
    (hdotless.of_prefix place.dropLast_prefix) hmake
  obtain ⟨-, -, hnull, -⟩ := exists_of_writeText htidy' hwrite
  refine ⟨hsettles.laid.grows.room ⟨⟨hnull, hshort, hnames⟩, hfounded.unblocked, ?_⟩,
    hsettles.tidy, hsettles.laid⟩
  exact .inr ⟨_, hat⟩

/-- Where there is room a text is written. -/
theorem exists_writeText (h : t.Room place) (text : String) :
    ∃ t' t'', makeDirectories (.ofTop place.dropLast) t = (.ok (), t') ∧
      writeText (.ofTop place) text t' = (.ok (), t'') := by
  obtain ⟨upper, name, rfl⟩ : ∃ upper name, place = upper ++ [name] :=
    ⟨_, _, (List.dropLast_append_getLast h.ne_top).symm⟩
  have hup : upper <+: upper ++ [name] := List.prefix_append _ _
  have hup' : upper ≠ upper ++ [name] := by simp
  rw [List.dropLast_concat]
  obtain ⟨t', hmake⟩ := exists_makeDirectories htidy (hdotless.of_prefix hup)
    (h.nameable.of_prefix hup) fun other hother => h.above other (hother.trans hup) fun heq =>
      hup' (hup.eq_of_length_le (heq ▸ hother.length_le))
  obtain ⟨htidy', hlaid⟩ :=
    laid_of_makeDirectories htidy (h.plain.of_prefix hup) (hdotless.of_prefix hup) hmake
  have hsame : t'.at? (upper ++ [name]) = t.at? (upper ++ [name]) :=
    hlaid.at?_of_not_prefix fun hprefix => absurd hprefix.length_le (by simp)
  refine ⟨t', _, hmake, writeText_of_founded hdotless h.nameable
    (htidy'.founded_concat hlaid.at?_self name) (hlaid.grows.plain h.plain) ?_ text⟩
  rw [hsame]
  rcases h.here with hnone | ⟨content, hfile⟩
  · simp [hnone]
  · simp [hfile]

end

/-! ### Room in several places -/

/-- Neither of two places is above the other. -/
def Unnested (place other : Location) : Prop :=
  (place <+: other → place = other) ∧ (other <+: place → other = place)

theorem Unnested.symm (h : Unnested place other) : Unnested other place :=
  ⟨h.2, h.1⟩

/-- A text that was laid down leaves room wherever there was room, but above and below it. -/
theorem Laid.room_iff (h : Laid [(place, .file text.toUTF8)] t t') :
    t'.Room other ↔ t.Room other ∧ Unnested place other := by
  have hat := h.at?_self
  have habove (upper : Location) (hupper : upper <+: place) (hne : upper ≠ place) :
      t'.at? upper = some .directory := h.above _ List.mem_cons_self upper hupper hne
  constructor
  · intro hroom
    refine ⟨h.grows.room hroom, fun hup => ?_, fun hup => ?_⟩
    · by_contra hne
      have hbelow := hroom.above place hup hne
      simp [hat] at hbelow
    · by_contra hne
      have hhere := hroom.here
      simp [habove other hup hne] at hhere
  · rintro ⟨hroom, hunnested⟩
    refine ⟨hroom.nameable, fun upper hupper hne => ?_, ?_⟩
    · by_cases hup : upper <+: place
      · refine .inr (habove upper hup ?_)
        rintro rfl
        exact hne (hunnested.1 hupper)
      · rw [h.at?_of_not_prefix hup]
        exact hroom.above upper hupper hne
    · by_cases heq : other = place
      · exact .inr ⟨_, heq ▸ hat⟩
      · rw [h.at?_of_not_prefix fun hup => heq (hunnested.2 hup)]
        exact hroom.here

end NatSpec.FileTree
