import NatSpec.Proofs.FileTree.Alike
import NatSpec.Proofs.FileTree.Read

/-!
What making directories and writing texts does. Making the directories of a path leaves them all as
they are if the last one is there, and else makes those that are missing, with nothing in them
(`Ensured`). A text is written where its path leads. Without links on the way, a path that the file
system takes leads to its own place if all above it are directories.
-/

namespace NatSpec.FileTree

variable {t t' t'' s : FileTree} {place target dest : Location}

/-! ### Places that a path can name -/

/-- The path of a place has no null character and is not too long, and nor are its components. -/
structure Nameable (place : Location) : Prop where
  noNull : holdsNull (.ofTop place) = false
  short : (Path.ofTop place).toString.utf8ByteSize ≤ maxPath
  names : ∀ name ∈ place, name.utf8ByteSize ≤ maxName

theorem Nameable.noNull_of_prefix (h : Nameable place) {upper : Location} (hupper : upper <+: place) :
    holdsNull (.ofTop upper) = false := by
  have hnull := h.noNull
  rw [holdsNull, List.any_eq_false] at hnull ⊢
  exact fun name hname => hnull name (hupper.subset hname)

instance (place : Location) : Decidable (Nameable place) :=
  decidable_of_iff (holdsNull (.ofTop place) = false ∧
      (Path.ofTop place).toString.utf8ByteSize ≤ maxPath ∧
      ∀ name ∈ place, name.utf8ByteSize ≤ maxName)
    ⟨fun ⟨a, b, c⟩ => ⟨a, b, c⟩, fun ⟨a, b, c⟩ => ⟨a, b, c⟩⟩

instance (place : Location) : Decidable (Dotless place) :=
  decidable_of_iff ("." ∉ place ∧ ".." ∉ place) ⟨fun ⟨a, b⟩ => ⟨a, b⟩, fun ⟨a, b⟩ => ⟨a, b⟩⟩

theorem Founded.grows {P : String → Prop} (h : t.Founded place) (hgrows : Grows P t t') :
    t'.Founded place := by
  intro upper hupper hne
  have hbecomes := hgrows.becomes upper
  rw [h upper hupper hne] at hbecomes
  generalize t'.at? upper = entry at hbecomes
  cases hbecomes with
  | same => rfl

theorem Founded.plain (h : t.Founded place) (hplace : ∀ target, t.at? place ≠ some (.link target)) :
    t.Plain place := by
  intro upper hupper target hlink
  by_cases hne : upper = place
  · exact hplace target (hne ▸ hlink)
  · rw [h upper hupper hne] at hlink
    cases hlink

/-- An entry that is not on the way does not matter. -/
theorem Founded.put (h : t.Founded place) {other : Location} (hother : other ≠ [])
    (hoff : ¬other <+: place) (entry : Entry) : (t.put other entry).Founded place := by
  intro upper hupper hne
  rw [at?_put hother, if_neg, h upper hupper hne]
  rintro rfl
  exact hoff hupper

/-- A walk without links gets to its end where the names are not too long and all that is on the way
are directories. -/
theorem exists_walk_eq_ok_iff (follow : Bool) (links : Nat) {parts : List String}
    (hplain : t.Plain (place ++ parts)) (hparts : Dotless parts) :
    (∃ found, t.walk follow links place parts = .ok found) ↔
      (∀ name ∈ parts, name.utf8ByteSize ≤ maxName) ∧
        ∀ upper, upper <+: parts → upper ≠ [] → upper ≠ parts →
          t.at? (place ++ upper) = some .directory := by
  induction parts generalizing place with
  | nil =>
      rw [walk]
      simp
  | cons name rest ih =>
      obtain ⟨hdot, hdots, hrest⟩ := hparts.of_cons
      have happend (upper : List String) : place ++ name :: upper = (place ++ [name]) ++ upper := by
        simp
      rw [happend] at hplain
      rw [List.forall_mem_cons]
      by_cases hshort : maxName < name.utf8ByteSize
      · rw [walk_long hdot hdots hshort]
        constructor
        · rintro ⟨_, ⟨⟩⟩
        · rintro ⟨⟨hname, -⟩, -⟩
          omega
      -- What is no directory ends the way, so it must be the last of the components.
      have hlast (hentry : t.at? (place ++ [name]) ≠ some .directory) :
          rest = [] ↔ ((name.utf8ByteSize ≤ maxName ∧ ∀ other ∈ rest, other.utf8ByteSize ≤ maxName) ∧
            ∀ upper, upper <+: name :: rest → upper ≠ [] → upper ≠ name :: rest →
              t.at? (place ++ upper) = some .directory) := by
        constructor
        · rintro rfl
          refine ⟨⟨Nat.le_of_not_lt hshort, by simp⟩, fun upper hupper hne hother => ?_⟩
          rcases List.prefix_cons_iff.1 hupper with rfl | ⟨below, rfl, hbelow⟩
          · exact absurd rfl hne
          · exact absurd (by rw [List.prefix_nil.1 hbelow]) hother
        · rintro ⟨-, habove⟩
          by_contra hne
          exact hentry (habove [name] (by simp) (by simp) (by simpa using Ne.symm hne))
      rcases hentry : t.at? (place ++ [name]) with _ | (content | target | _)
      · rw [walk_missing hdot hdots hshort hentry, ← hlast (by simp [hentry])]
        cases rest <;> simp
      · rw [walk_file hdot hdots hshort hentry, ← hlast (by simp [hentry])]
        cases rest <;> simp
      · exact absurd hentry (hplain _ (List.prefix_append ..) target)
      · rw [walk_directory hdot hdots hshort hentry, ih hplain hrest]
        refine and_congr (by simp [Nat.le_of_not_lt hshort]) ?_
        constructor
        · intro habove upper hupper hne hother
          rcases List.prefix_cons_iff.1 hupper with rfl | ⟨below, rfl, hbelow⟩
          · exact absurd rfl hne
          by_cases hnil : below = []
          · rwa [hnil]
          · rw [happend]
            exact habove below hbelow hnil fun heq => hother (heq ▸ rfl)
        · intro habove upper hupper hne hother
          have hcons := habove (name :: upper) (by simpa using hupper) (by simp) (by simpa using hother)
          rwa [happend] at hcons

/-- The path of a place without links on the way leads there if it can name the place and the place
is founded. -/
theorem locate_eq_iff (follow : Bool) (hplain : t.Plain place) (hdotless : Dotless place) :
    t.locate follow (.ofTop place) = .ok (place, t.at? place) ↔
      ((Path.ofTop place).toString.utf8ByteSize ≤ maxPath ∧
        ∀ name ∈ place, name.utf8ByteSize ≤ maxName) ∧ t.Founded place := by
  have hplain' : t.Plain ([] ++ place) := hplain
  have hwalk := exists_walk_eq_ok_iff follow maxLinks hplain' hdotless
  have hway : (∀ upper, upper <+: place → upper ≠ [] → upper ≠ place →
      t.at? ([] ++ upper) = some .directory) ↔ t.Founded place := by
    constructor
    · intro habove upper hupper hne
      by_cases hnil : upper = []
      · rw [hnil, at?_top]
      · exact habove upper hupper hnil hne
    · exact fun habove upper hupper _ hne => habove upper hupper hne
  rw [hway] at hwalk
  by_cases hlong : maxPath < (Path.ofTop place).toString.utf8ByteSize
  · unfold locate
    rw [if_pos hlong]
    constructor
    · rintro ⟨⟩
    · rintro ⟨⟨hshort, -⟩, -⟩
      omega
  · rw [and_assoc, and_iff_right (Nat.le_of_not_lt hlong), ← hwalk]
    rcases locate_of_plain follow hplain hdotless with ⟨reason, hstop, -⟩ | hreach
    · rw [hstop]
      unfold locate at hstop
      rw [if_neg hlong] at hstop
      change t.walk follow maxLinks [] place = _ at hstop
      rw [hstop]
      simp
    · rw [hreach]
      unfold locate at hreach
      rw [if_neg hlong] at hreach
      change t.walk follow maxLinks [] place = _ at hreach
      rw [hreach]
      simp

theorem Nameable.locate_eq (h : Nameable place) (follow : Bool) (hplain : t.Plain place)
    (hdotless : Dotless place) (hfounded : t.Founded place) :
    t.locate follow (.ofTop place) = .ok (place, t.at? place) :=
  (locate_eq_iff follow hplain hdotless).2 ⟨⟨h.short, h.names⟩, hfounded⟩

/-! ### Making the directories of a path -/

theorem isDirectory_eq_true_iff {p : Path} :
    t.isDirectory p = .ok true ↔
      holdsNull p = false ∧ ∃ dest, t.locate true p = .ok (dest, some .directory) := by
  rw [isDirectory, lookup, status]
  cases holdsNull p with
  | true => simp [bind, Except.bind]
  | false =>
      rcases t.locate true p with reason | ⟨dest, _ | (content | link | _)⟩
      · cases reason <;> simp [bind, Except.bind]
      all_goals simp [bind, Except.bind]

/-- The reason for which a directory cannot be made where a path leads. -/
def reasonAgainst : Except Refused (Location × Option Entry) → Refused
  | .error reason => reason
  | .ok _ => .alreadyExists

theorem ensureDirectory_apply (p : Path) (t : FileTree) :
    ensureDirectory p t =
      if holdsNull p then (.error .badValue, t)
      else
        match t.locate false p with
        | .ok (place, none) => (.ok (), t.put place .directory)
        | .error .notFound => (.error (.refused .notFound p.toString), t)
        | found =>
          match t.isDirectory p with
          | .ok true => (.ok (), t)
          | .ok false => (.error (.refused (reasonAgainst found) p.toString), t)
          | .error f => (.error f, t) := by
  have hmake := makeDirectory_apply p t
  cases hnull : holdsNull p with
  | true =>
      rw [hnull, if_pos rfl] at hmake
      rw [ensureDirectory, tryCatch_apply_of_error _ hmake]
      rfl
  | false =>
      rw [hnull, if_neg Bool.false_ne_true] at hmake
      rw [if_neg Bool.false_ne_true, ensureDirectory]
      have hasked (reason : Refused) :
          (get >>= fun s => liftM (s.isDirectory p) >>= fun there =>
            if there = true then pure () else throw (.refused reason p.toString) : Filing Unit) t =
          match t.isDirectory p with
          | .ok true => (.ok (), t)
          | .ok false => (.error (.refused reason p.toString), t)
          | .error f => (.error f, t) := by
        rw [bind_apply_of_ok _ get_apply]
        rcases t.isDirectory p with f | (_ | _) <;> rfl
      rcases hlocate : t.locate false p with reason | ⟨place, _ | entry⟩
      · rw [hlocate] at hmake
        rw [tryCatch_apply_of_error _ hmake]
        cases reason with
        | notFound => rfl
        | _ => exact hasked _
      · rw [hlocate] at hmake
        exact tryCatch_apply_of_ok _ hmake
      · rw [hlocate] at hmake
        rw [tryCatch_apply_of_error _ hmake]
        exact hasked _

/-- A directory that could be ensured was there, or was made. -/
theorem ensureDirectory_cases {p : Path} (h : ensureDirectory p t = (.ok (), t')) :
    holdsNull p = false ∧ (t.isDirectory p = .ok true ∧ t' = t ∨
      ∃ dest, t.locate false p = .ok (dest, none) ∧ t' = t.put dest .directory) := by
  rw [ensureDirectory_apply] at h
  split at h
  · cases h
  rename_i hnull
  refine ⟨by simpa using hnull, ?_⟩
  split at h
  · rename_i dest hlocate
    exact .inr ⟨dest, hlocate, (Prod.mk.inj h).2.symm⟩
  · cases h
  · split at h
    · rename_i hdirectory
      exact .inl ⟨hdirectory, (Prod.mk.inj h).2.symm⟩
    · cases h
    · cases h

/-- If a directory could not be ensured for want of one above it, its path leads nowhere. -/
theorem ensureDirectory_of_notFound {p : Path} {path : String}
    (h : ensureDirectory p t = (.error (.refused .notFound path), t')) :
    t.locate false p = .error .notFound ∧ t' = t := by
  rw [ensureDirectory_apply] at h
  split at h
  · cases h
  split at h
  · cases h
  · rename_i hlocate
    exact ⟨hlocate, (Prod.mk.inj h).2.symm⟩
  · rename_i hmissing hnone
    split at h
    · cases h
    · rename_i hdirectory
      rcases hlocate : t.locate false p with reason | found
      · rw [hlocate] at h
        obtain ⟨rfl, -⟩ := Fault.refused.inj (Except.error.inj (Prod.mk.inj h).1)
        exact absurd hlocate hnone
      · rw [hlocate] at h
        cases h
    · rename_i f hasked
      obtain rfl := Except.error.inj (Prod.mk.inj h).1
      rw [isDirectory, lookup] at hasked
      split at hasked
      · cases hasked
      · split at hasked <;> cases hasked

theorem holds_of_isDirectory {p : Path} (h : t.isDirectory p = .ok true) :
    t.holds p = .ok true := by
  obtain ⟨hnull, dest, hlocate⟩ := isDirectory_eq_true_iff.1 h
  rw [holds, lookup_of_noNull hnull, status, hlocate]
  rfl

/-- A directory was made where nothing was, with those above it that were missing. -/
structure Made (dest : Location) (t t' : FileTree) : Prop where
  missing : t.at? dest = none
  at? : ∀ place, t'.at? place = if place <+: dest then some .directory else t.at? place

theorem Made.put (htidy : t.Tidy) {follow : Bool}
    (h : t.locate follow (.ofTop target) = .ok (dest, none)) :
    Made dest t (t.put dest .directory) ∧
      (t.put dest .directory).locate follow (.ofTop target) = .ok (dest, some .directory) := by
  obtain ⟨hnone, hfounded⟩ := founded_of_locate htidy h
  have hne : dest ≠ [] := by
    rintro rfl
    cases hnone
  refine ⟨⟨hnone, fun place => ?_⟩, ?_⟩
  · rw [at?_put hne]
    by_cases heq : dest = place
    · rw [if_pos heq, if_pos (heq ▸ List.prefix_rfl)]
    · rw [if_neg heq]
      split
      · rename_i hup
        exact hfounded place hup (Ne.symm heq)
      · rfl
  · have hkeeps : Keeps t (t.put dest .directory) := by
      refine .of_subset fun place stands hat => ?_
      rw [at?_put hne, if_neg, hat]
      rintro rfl
      rw [hnone] at hat
      cases hat
    have htidy' : (t.put dest .directory).Tidy := htidy.put hne hfounded fun _ => rfl
    have hdest : (t.put dest .directory).at? dest = some .directory := by
      rw [at?_put hne, if_pos rfl]
    rw [hkeeps.locate htidy' h fun _ _ link hlink => (by cases hdest.symm.trans hlink), hdest]

/-- A walk of one more step. -/
theorem walk_single {links : Nat} {name : String} (hdot : name ≠ ".") (hdots : name ≠ "..") :
    t.walk false links place [name] =
      if maxName < name.utf8ByteSize then .error .nameTooLong
      else .ok (place ++ [name], t.at? (place ++ [name])) := by
  split
  · rename_i hlong
    exact walk_long hdot hdots hlong
  · rename_i hshort
    rcases hat : t.at? (place ++ [name]) with _ | (content | link | _)
    · exact walk_missing hdot hdots hshort hat
    · exact walk_file hdot hdots hshort hat
    · rw [walk, if_neg hdot, if_neg hdots, if_neg hshort]
      simp [hat]
    · rw [walk_directory hdot hdots hshort hat, walk]

/-- The path of what stands in a directory leads to it, without following it if it is a link. -/
theorem locate_concat {name : String} (hdot : name ≠ ".") (hdots : name ≠ "..")
    (h : t.locate true (.ofTop target) = .ok (dest, some .directory)) :
    t.locate false (.ofTop (target ++ [name])) = .error .nameTooLong ∨
      t.locate false (.ofTop (target ++ [name])) =
        .ok (dest ++ [name], t.at? (dest ++ [name])) := by
  rcases walk_append t maxLinks [] target with ⟨found, left, hfound, hrest⟩ | ⟨hnone, -⟩
  · obtain ⟨rfl, -⟩ := Prod.mk.inj (Except.ok.inj (hfound.symm.trans (walk_of_locate h)))
    unfold locate
    split
    · exact .inl rfl
    · change t.walk false maxLinks [] (target ++ [name]) = _ ∨
        t.walk false maxLinks [] (target ++ [name]) = _
      rw [hrest false [name] (by simp), walk_single hdot hdots]
      split
      · exact .inl rfl
      · exact .inr rfl
  · exact absurd (walk_of_locate h) (hnone dest)

/-- A path that is not followed at its end leads to a place of its last name. -/
theorem exists_concat_of_locate {upper : Location} {name : String} {entry : Option Entry}
    (hdot : name ≠ ".") (hdots : name ≠ "..")
    (h : t.locate false (.ofTop (upper ++ [name])) = .ok (dest, entry)) :
    ∃ above, dest = above ++ [name] := by
  have hwalk := walk_of_locate h
  rcases walk_append t maxLinks [] upper with ⟨found, left, -, hrest⟩ | ⟨-, hrest⟩
  · rw [hrest false [name] (by simp), walk_single hdot hdots] at hwalk
    split at hwalk
    · cases hwalk
    · exact ⟨found, (Prod.mk.inj (Except.ok.inj hwalk)).1.symm⟩
  · obtain ⟨reason, hfails⟩ := hrest false [name] (by simp)
    cases hfails.symm.trans hwalk

/-- The directory of a path was there, or it was made where the path had led to nothing. Then the
path gets as far as the place of the directory when this alone is taken away again. -/
structure Ensured (target : Location) (t t' : FileTree) : Prop where
  noNull : holdsNull (.ofTop target) = false
  cases : t.isDirectory (.ofTop target) = .ok true ∧ t' = t ∨
    t.status (.ofTop target) = .error .notFound ∧ ∃ dest, Made dest t t' ∧
      t'.locate false (.ofTop target) = .ok (dest, some .directory)
  before : ∀ dest, t.at? dest = none →
    t'.locate false (.ofTop target) = .ok (dest, some .directory) →
    (t'.remove dest).locate false (.ofTop target) = .ok (dest, none)

/-- A directory that was made last is the last to be missing. -/
theorem locate_remove_put (htidy : t.Tidy)
    (h : t.locate false (.ofTop target) = .ok (dest, none)) :
    ((t.put dest .directory).remove dest).locate false (.ofTop target) = .ok (dest, none) := by
  obtain ⟨hnone, hfounded⟩ := founded_of_locate htidy h
  have hne : dest ≠ [] := by
    rintro rfl
    cases hnone
  have htidy' : (t.put dest .directory).Tidy := htidy.put hne hfounded fun _ => rfl
  have halike : Alike t ((t.put dest .directory).remove dest) := by
    refine ⟨htidy, htidy'.remove dest, rfl, fun other => ?_⟩
    rw [at?_remove hne, at?_put hne]
    split
    · rename_i hbelow
      exact htidy.none_of_prefix hbelow hnone
    · rename_i hoff
      rw [if_neg]
      rintro rfl
      exact hoff List.prefix_rfl
  rw [← halike.locate, h]

theorem ensured_of_ensureDirectory (htidy : t.Tidy)
    (h : ensureDirectory (.ofTop target) t = (.ok (), t')) : Ensured target t t' := by
  obtain ⟨hnull, ⟨hthere, rfl⟩ | ⟨dest, hlocate, rfl⟩⟩ := ensureDirectory_cases h
  · refine ⟨hnull, .inl ⟨hthere, rfl⟩, fun dest hnone hlocate => ?_⟩
    cases hnone.symm.trans (founded_of_locate htidy hlocate).1
  · have hmade := Made.put htidy hlocate
    refine ⟨hnull, .inr ⟨?_, dest, hmade⟩, fun dest' _ hlocate' => ?_⟩
    · rw [status, locate_true_of_false hlocate (by simp)]
    · obtain ⟨rfl, -⟩ := Prod.mk.inj (Except.ok.inj (hmade.2.symm.trans hlocate'))
      exact locate_remove_put htidy hlocate

/-- In a directory that was made there is nothing yet. -/
theorem Made.locate_concat {upper : Location} {name : String} (hmade : Made dest t t')
    (htidy : t.Tidy) (hdot : name ≠ ".") (hdots : name ≠ "..")
    (h : t'.locate true (.ofTop upper) = .ok (dest, some .directory)) :
    t'.locate false (.ofTop (upper ++ [name])) = .error .nameTooLong ∨
      t'.locate false (.ofTop (upper ++ [name])) = .ok (dest ++ [name], none) := by
  have hoff : ¬dest ++ [name] <+: dest := fun hup => absurd hup.length_le (by simp)
  have hreach := FileTree.locate_concat hdot hdots h
  rwa [hmade.at?, if_neg hoff,
    htidy.none_of_prefix (List.prefix_append ..) hmade.missing] at hreach

/-- With the directory above it made, the last directory of a path is made as well. -/
theorem ensured_of_parent {name : String} (htidy : t.Tidy) (htidy' : t'.Tidy) (hdot : name ≠ ".")
    (hdots : name ≠ "..") (hlocate : t.locate false (.ofTop (target ++ [name])) = .error .notFound)
    (hparent : Ensured target t t')
    (h : ensureDirectory (.ofTop (target ++ [name])) t' = (.ok (), t'')) :
    Ensured (target ++ [name]) t t'' := by
  obtain ⟨-, ⟨hthere, rfl⟩ | ⟨-, dest, hmade, hupper⟩⟩ := hparent
  · -- With the directory above it there already, the path would have led somewhere.
    obtain ⟨-, dest, hdest⟩ := isDirectory_eq_true_iff.1 hthere
    rcases locate_concat hdot hdots hdest with hlong | hreach
    · cases hlong.symm.trans hlocate
    · cases hreach.symm.trans hlocate
  · have hreach := hmade.locate_concat htidy hdot hdots
      (locate_true_of_false hupper (by simp))
    obtain ⟨hnull, ⟨hthere, -⟩ | ⟨dest', hdest', rfl⟩⟩ := ensureDirectory_cases h
    · obtain ⟨-, dest', hdest'⟩ := isDirectory_eq_true_iff.1 hthere
      rcases hreach with hlong | hreach
      · cases (locate_true_of_false hlong (by simp)).symm.trans hdest'
      · cases (locate_true_of_false hreach (by simp)).symm.trans hdest'
    · rcases hreach with hlong | hreach
      · cases hlong.symm.trans hdest'
      · obtain ⟨rfl, -⟩ := Prod.mk.inj (Except.ok.inj (hreach.symm.trans hdest'))
        obtain ⟨hmade', hafter⟩ := Made.put htidy' hdest'
        refine ⟨hnull, .inr ⟨?_, dest ++ [name], ⟨?_, fun place => ?_⟩, hafter⟩,
          fun other _ hother => ?_⟩
        · rw [status, locate_true_of_false hlocate (by simp)]
        · exact htidy.none_of_prefix (List.prefix_append ..) hmade.missing
        · rw [hmade'.at?, hmade.at?]
          by_cases hup : place <+: dest
          · simp only [if_pos hup, if_pos (hup.trans (List.prefix_append dest [name]))]
          · rw [if_neg hup]
        · obtain ⟨rfl, -⟩ := Prod.mk.inj (Except.ok.inj (hafter.symm.trans hother))
          exact locate_remove_put htidy' hdest'

theorem ensured_of_ensureDirectories (htidy : t.Tidy) (hdotless : Dotless target) {count : Nat}
    (h : ensureDirectories (.ofTop target) count t = (.ok (), t')) : Ensured target t t' := by
  induction count generalizing target t t' with
  | zero => exact ensured_of_ensureDirectory htidy h
  | succ count ih =>
      unfold ensureDirectories at h
      obtain ⟨result, t₁, hfirst⟩ : ∃ result t₁,
          ensureDirectory (.ofTop target) t = (result, t₁) := ⟨_, _, rfl⟩
      cases result with
      | ok a =>
          rw [tryCatch_apply_of_ok _ hfirst] at h
          exact ensured_of_ensureDirectory htidy (hfirst.trans h)
      | error fault =>
          rw [tryCatch_apply_of_error _ hfirst] at h
          split at h
          · obtain ⟨hlocate, rfl⟩ := ensureDirectory_of_notFound hfirst
            obtain ⟨_, t₂, hparents, h⟩ := exists_of_bind_apply h
            have hne : target ≠ [] := by
              rintro rfl
              cases locate_nil.symm.trans hlocate
            obtain ⟨upper, name, rfl⟩ : ∃ upper name, target = upper ++ [name] :=
              ⟨_, _, (List.dropLast_append_getLast hne).symm⟩
            have hparent : (Path.ofTop (upper ++ [name])).parent = .ofTop upper := by
              rw [Path.parent, Path.ofTop, List.dropLast_concat]
              rfl
            rw [hparent] at hparents
            have htidy₂ : t₂.Tidy := by
              have hkept := (respects_ensureDirectories upper count).tidy htidy
              rwa [hparents] at hkept
            exact ensured_of_parent htidy htidy₂ (fun heq => hdotless.noDot (by simp [heq]))
              (fun heq => hdotless.noDots (by simp [heq])) hlocate
              (ih htidy (hdotless.of_prefix (List.prefix_append ..)) hparents) h
          · cases h

theorem ensured_of_makeDirectories (htidy : t.Tidy) (hdotless : Dotless target)
    (h : makeDirectories (.ofTop target) t = (.ok (), t')) : Ensured target t t' :=
  ensured_of_ensureDirectories htidy hdotless h

/-- The path of a directory that was ensured leads to it. -/
theorem Ensured.exists_locate (h : Ensured target t t') :
    ∃ dest, t'.locate true (.ofTop target) = .ok (dest, some .directory) := by
  obtain ⟨-, ⟨hthere, rfl⟩ | ⟨-, dest, -, hlocate⟩⟩ := h
  · exact (isDirectory_eq_true_iff.1 hthere).2
  · exact ⟨dest, locate_true_of_false hlocate fun _ _ => nofun⟩

/-- What was made with a directory is on the way to all that a path through it leads to. -/
theorem Ensured.at?_eq {upper : Location} {name : String} {entry : Option Entry}
    (h : Ensured upper t t') (htidy : t.Tidy) (hdot : name ≠ ".") (hdots : name ≠ "..")
    (hlocate : t'.locate true (.ofTop (upper ++ [name])) = .ok (dest, entry)) {other : Location}
    (hother : ¬other <+: dest) : t'.at? other = t.at? other := by
  rcases h.cases with ⟨-, rfl⟩ | ⟨-, made, hmade, hupper⟩
  · rfl
  · rw [hmade.at?, if_neg]
    intro hup
    rcases hmade.locate_concat htidy hdot hdots
      (locate_true_of_false hupper fun _ _ => nofun) with hlong | hreach
    · cases (locate_true_of_false hlong fun _ _ => nofun).symm.trans hlocate
    · have hsame := (locate_true_of_false hreach fun _ _ => nofun).symm.trans hlocate
      obtain ⟨rfl, -⟩ := Prod.mk.inj (Except.ok.inj hsame)
      exact hother (hup.trans (List.prefix_append ..))

/-- What the path of a place that is there leads to stands in every tree that keeps it. -/
theorem Keeps.exists_locate_false (hkeeps : Keeps t s) (hs : s.Tidy) (htidy : t.Tidy)
    (h : t.isDirectory (.ofTop target) = .ok true) :
    ∃ dest stands, s.locate false (.ofTop target) = .ok (dest, some stands) := by
  obtain ⟨-, dest, hdest⟩ := isDirectory_eq_true_iff.1 h
  have hsome {found : Location} {entry : Option Entry}
      (hfound : t.locate false (.ofTop target) = .ok (found, entry)) : ∃ stands, s.at? found = some stands := by
    obtain ⟨hat, -⟩ := founded_of_locate htidy hfound
    rcases entry with _ | (content | link | _)
    · cases (locate_true_of_false hfound fun _ _ => nofun).symm.trans hdest
    · obtain ⟨content', hcontent⟩ := hkeeps.file found content hat
      exact ⟨_, hcontent⟩
    · exact ⟨_, hkeeps.link found link hat⟩
    · exact ⟨_, hkeeps.directory found hat⟩
  rcases hfalse : t.locate false (.ofTop target) with reason | ⟨found, entry⟩
  · cases (locate_true_of_false hfalse fun _ _ => nofun).symm.trans hdest
  · obtain ⟨stands, hstands⟩ := hsome hfalse
    refine ⟨found, stands, ?_⟩
    rw [hkeeps.locate hs hfalse fun _ => nofun, hstands]

/-- Once ensured, a directory is found to be there whatever is written further on. -/
theorem Ensured.again (h : Ensured target t t') (htidy : t'.Tidy) (hkeeps : Keeps t' s)
    (hs : s.Tidy) : makeDirectories (.ofTop target) s = (.ok (), s) := by
  obtain ⟨dest, hdest⟩ := h.exists_locate
  obtain ⟨hat, -⟩ := founded_of_locate htidy hdest
  have hthere : t'.isDirectory (.ofTop target) = .ok true :=
    isDirectory_eq_true_iff.2 ⟨h.noNull, dest, hdest⟩
  have hthere' : s.isDirectory (.ofTop target) = .ok true := by
    refine isDirectory_eq_true_iff.2 ⟨h.noNull, dest, ?_⟩
    rw [hkeeps.locate hs hdest nofun, hkeeps.directory dest hat]
  obtain ⟨found, stands, hfound⟩ := hkeeps.exists_locate_false hs htidy hthere
  exact makeDirectories_of_directory h.noNull hfound hthere'

/-! ### Writing a text -/

/-- A text was written where its path leads, over a file or where nothing was. -/
theorem exists_of_writeText (htidy : t.Tidy) {text : String}
    (h : writeText (.ofTop target) text t = (.ok (), t')) :
    ∃ dest entry, holdsNull (.ofTop target) = false ∧ dest ≠ [] ∧
      t.locate true (.ofTop target) = .ok (dest, entry) ∧ t.Founded dest ∧ t.at? dest = entry ∧
      entry ≠ some .directory ∧ t' = t.put dest (.file text.toUTF8) := by
  rw [writeText, writeBytes_apply] at h
  split at h
  · cases h
  rename_i hnull
  split at h
  · cases h
  · rename_i dest entry hdirectory hlocate
    obtain ⟨hat, hfounded⟩ := founded_of_locate htidy hlocate
    refine ⟨dest, entry, by simpa using hnull, ?_, hlocate, hfounded, hat, hdirectory,
      (Prod.mk.inj h).2.symm⟩
    rintro rfl
    exact hdirectory hat.symm
  · cases h

theorem writeText_of_locate {content : ByteArray} (hnull : holdsNull (.ofTop target) = false)
    (h : t.locate true (.ofTop target) = .ok (dest, some (.file content))) (text : String) :
    writeText (.ofTop target) text t = (.ok (), t.put dest (.file text.toUTF8)) := by
  rw [writeText]
  simp only [writeBytes_apply, hnull, h, Bool.false_eq_true, if_false]

/-! ### Places with directories above them -/

section

variable (hdotless : Dotless place) (hname : Nameable place) (hfounded : t.Founded place)
include hdotless hname hfounded

theorem isDirectory_of_founded (hat : t.at? place = some .directory) :
    t.isDirectory (.ofTop place) = .ok true := by
  have hplain : t.Plain place := hfounded.plain (by simp [hat])
  refine isDirectory_eq_true_iff.2 ⟨hname.noNull, place, ?_⟩
  rw [hname.locate_eq true hplain hdotless hfounded, hat]

/-- Nothing is made where the directories are there. -/
theorem makeDirectories_of_founded (hat : t.at? place = some .directory) :
    makeDirectories (.ofTop place) t = (.ok (), t) := by
  have hplain : t.Plain place := hfounded.plain (by simp [hat])
  have hreach := hname.locate_eq false hplain hdotless hfounded
  rw [hat] at hreach
  exact makeDirectories_of_directory hname.noNull hreach
    (isDirectory_of_founded hdotless hname hfounded hat)

theorem writeText_of_founded (hplain : t.Plain place) (hat : t.at? place ≠ some .directory)
    (text : String) :
    writeText (.ofTop place) text t = (.ok (), t.put place (.file text.toUTF8)) := by
  rw [writeText]
  simp only [writeBytes_apply, hname.noNull, hname.locate_eq true hplain hdotless hfounded,
    Bool.false_eq_true, if_false]

end

end NatSpec.FileTree
