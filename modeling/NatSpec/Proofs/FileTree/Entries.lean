import Mathlib.Data.List.Induction
import Mathlib.Data.List.Infix
import NatSpec.FileTree.Resolve
import NatSpec.Proofs.Table.Lookup

/-!
What stands where in a file tree, and which trees a file system can hold: every entry stands in a
directory and has a name of its own there. A place is plain if no link stands on the way to it.
-/

namespace NatSpec.FileTree

variable {t : FileTree}

/-! ### Entries of a changed tree -/

@[simp] theorem at?_top : t.at? [] = some .directory := rfl

theorem at?_of_ne {place : Location} (h : place ≠ []) : t.at? place = t.entries.get? place :=
  if_neg h

theorem at?_put {place : Location} (h : place ≠ []) (entry : Entry) (other : Location) :
    (t.put place entry).at? other = if place = other then some entry else t.at? other := by
  by_cases hother : other = []
  · subst hother
    simp [h]
  · rw [at?_of_ne hother, at?_of_ne hother, put, Table.get?_set]
    simp

theorem at?_clearBelow (place other : Location) :
    (t.clearBelow place).at? other =
      if place <+: other ∧ other ≠ place then none else t.at? other := by
  by_cases hother : other = []
  · subst hother
    have hnot : ¬(place <+: [] ∧ [] ≠ place) := by
      rintro ⟨habove, hne⟩
      exact hne (List.prefix_nil.1 habove).symm
    rw [if_neg hnot, at?_top, at?_top]
  · rw [at?_of_ne hother, at?_of_ne hother, clearBelow,
      Table.get?_filter fun key => !(place.isPrefixOf key && key != place)]
    by_cases h : place <+: other ∧ other ≠ place
    · have hbelow : (place.isPrefixOf other && other != place) = true := by simpa using h
      simp [h, hbelow]
    · have hbelow : (place.isPrefixOf other && other != place) = false := by
        rw [Bool.eq_false_iff]
        simpa using h
      simp [h, hbelow]

theorem at?_remove {place : Location} (h : place ≠ []) (other : Location) :
    (t.remove place).at? other = if place <+: other then none else t.at? other := by
  by_cases hother : other = []
  · subst hother
    rw [if_neg (by simpa using h), at?_top, at?_top]
  · rw [at?_of_ne hother, at?_of_ne hother, remove,
      Table.get?_filter fun key => !place.isPrefixOf key]
    by_cases h : place <+: other
    · have hat : place.isPrefixOf other = true := List.isPrefixOf_iff_prefix.2 h
      simp [h, hat]
    · have hat : place.isPrefixOf other = false := by
        rw [Bool.eq_false_iff]
        simpa using h
      simp [h, hat]

/-! ### Trees of a file system -/

/-- A name that a file system gives to an entry. -/
structure IsName (name : String) : Prop where
  nonempty : name ≠ ""
  ne_dot : name ≠ "."
  ne_dots : name ≠ ".."
  noSlash : '/' ∉ name.toList
  noNull : '\x00' ∉ name.toList
  short : name.utf8ByteSize ≤ maxName

instance (name : String) : Decidable (IsName name) :=
  decidable_of_iff (name ≠ "" ∧ name ≠ "." ∧ name ≠ ".." ∧ '/' ∉ name.toList ∧
      '\x00' ∉ name.toList ∧ name.utf8ByteSize ≤ maxName)
    ⟨fun ⟨a, b, c, d, e, f⟩ => ⟨a, b, c, d, e, f⟩, fun ⟨a, b, c, d, e, f⟩ => ⟨a, b, c, d, e, f⟩⟩

/-- A location that no dot can lead away from. -/
structure Dotless (place : Location) : Prop where
  noDot : "." ∉ place
  noDots : ".." ∉ place

/-- The entries have proper names and stand in directories, at most one in each place, and the
working directory is there. -/
structure Sound (t : FileTree) : Prop where
  distinct : (Table.keys t.entries).Nodup
  named : ∀ place ∈ Table.keys t.entries, ∀ name ∈ place, IsName name
  rooted : ∀ place ∈ Table.keys t.entries, place ≠ [] ∧ t.at? place.dropLast = some .directory
  here : t.at? t.here = some .directory

instance (t : FileTree) : Decidable t.Sound :=
  decidable_of_iff ((Table.keys t.entries).Nodup ∧
      (∀ place ∈ Table.keys t.entries, ∀ name ∈ place, IsName name) ∧
      (∀ place ∈ Table.keys t.entries, place ≠ [] ∧ t.at? place.dropLast = some .directory) ∧
      t.at? t.here = some .directory)
    ⟨fun ⟨a, b, c, d⟩ => ⟨a, b, c, d⟩, fun ⟨a, b, c, d⟩ => ⟨a, b, c, d⟩⟩

theorem Dotless.of_prefix {place upper : Location} (h : Dotless place) (habove : upper <+: place) :
    Dotless upper :=
  ⟨fun hmem => h.noDot (habove.subset hmem), fun hmem => h.noDots (habove.subset hmem)⟩

theorem mem_entries_of_at? {place : Location} {entry : Entry} (h : t.at? place = some entry)
    (hplace : place ≠ []) : (place, entry) ∈ t.entries := by
  rw [at?_of_ne hplace] at h
  exact Table.mem_of_get? h

theorem mem_keys_of_at? {place : Location} {entry : Entry} (h : t.at? place = some entry)
    (hplace : place ≠ []) : place ∈ Table.keys t.entries :=
  Table.mem_keys_of_mem (mem_entries_of_at? h hplace)

/-- The entries stand in directories, at most one in each place. -/
structure Tidy (t : FileTree) : Prop where
  distinct : (Table.keys t.entries).Nodup
  rooted : ∀ place ∈ Table.keys t.entries, place ≠ [] ∧ t.at? place.dropLast = some .directory

theorem Sound.tidy (hsound : t.Sound) : t.Tidy :=
  ⟨hsound.distinct, hsound.rooted⟩

/-- Above a place there are directories only. -/
def Founded (t : FileTree) (place : Location) : Prop :=
  ∀ upper, upper <+: place → upper ≠ place → t.at? upper = some .directory

instance (t : FileTree) (place : Location) : Decidable (t.Founded place) :=
  decidable_of_iff (∀ upper ∈ place.inits, upper ≠ place → t.at? upper = some .directory)
    (forall_congr' fun upper => imp_congr_left (List.mem_inits upper place))

theorem Founded.of_prefix {place upper : Location} (h : t.Founded place)
    (hupper : upper <+: place) : t.Founded upper := by
  intro other hother hne
  refine h other (hother.trans hupper) ?_
  rintro rfl
  exact hne (hother.eq_of_length_le hupper.length_le)

namespace Tidy

theorem directory_of_append (h : t.Tidy) {place rest : Location} {entry : Entry}
    (hentry : t.at? (place ++ rest) = some entry) (hrest : rest ≠ []) :
    t.at? place = some .directory := by
  induction rest using List.reverseRecOn generalizing entry with
  | nil => exact absurd rfl hrest
  | append_singleton rest name ih =>
      rw [← List.append_assoc] at hentry
      have hparent := (h.rooted _ (mem_keys_of_at? hentry (by simp))).2
      rw [List.dropLast_concat] at hparent
      by_cases hnil : rest = []
      · rwa [hnil, List.append_nil] at hparent
      · exact ih hparent hnil

theorem founded (h : t.Tidy) {place : Location} {entry : Entry}
    (hentry : t.at? place = some entry) : t.Founded place := by
  rintro upper ⟨rest, rfl⟩ hne
  refine h.directory_of_append hentry ?_
  rintro rfl
  exact hne (List.append_nil upper).symm

/-- Below what is missing there is nothing. -/
theorem none_of_prefix (h : t.Tidy) {place upper : Location} (hupper : upper <+: place)
    (hmissing : t.at? upper = none) : t.at? place = none := by
  by_contra hne
  obtain ⟨entry, hentry⟩ := Option.ne_none_iff_exists'.1 hne
  by_cases heq : upper = place
  · rw [heq, hentry] at hmissing
    cases hmissing
  · rw [h.founded hentry upper hupper heq] at hmissing
    cases hmissing

end Tidy

namespace Sound

theorem isName_of_mem (hsound : t.Sound) {place : Location} {entry : Entry}
    (h : t.at? place = some entry) {name : String} (hname : name ∈ place) : IsName name := by
  have hplace : place ≠ [] := List.ne_nil_of_mem hname
  exact hsound.named place (mem_keys_of_at? h hplace) name hname

theorem dotless (hsound : t.Sound) {place : Location} {entry : Entry}
    (h : t.at? place = some entry) : Dotless place :=
  ⟨fun hmem => (hsound.isName_of_mem h hmem).ne_dot rfl,
    fun hmem => (hsound.isName_of_mem h hmem).ne_dots rfl⟩

/-- Above an entry there are directories only. -/
theorem directory_of_append (hsound : t.Sound) {place rest : Location} {entry : Entry}
    (h : t.at? (place ++ rest) = some entry) (hrest : rest ≠ []) :
    t.at? place = some .directory :=
  hsound.tidy.directory_of_append h hrest

end Sound

/-! ### What a directory lists -/

theorem child_eq_some_iff {key place : Location} {entry : Entry} {child : String × Entry} :
    (match key.getLast? with
      | some name => if key.dropLast = place then some (name, entry) else none
      | none => none) = some child ↔ key = place ++ [child.1] ∧ entry = child.2 := by
  constructor
  · intro h
    split at h
    · rename_i name hname
      split at h
      · rename_i hparent
        obtain rfl := Option.some.inj h
        exact ⟨by rw [← hparent, List.dropLast_append_getLast? name hname], rfl⟩
      · cases h
    · cases h
  · rintro ⟨rfl, rfl⟩
    simp

theorem mem_children (htidy : t.Tidy) {place : Location} {child : String × Entry} :
    child ∈ t.children place ↔ t.at? (place ++ [child.1]) = some child.2 := by
  rw [children, List.mem_filterMap]
  constructor
  · rintro ⟨⟨key, entry⟩, hmem, h⟩
    obtain ⟨rfl, rfl⟩ := child_eq_some_iff.1 h
    rw [at?_of_ne (by simp)]
    exact Table.get?_of_mem htidy.distinct hmem
  · intro hat
    exact ⟨_, mem_entries_of_at? hat (by simp), child_eq_some_iff.2 ⟨rfl, rfl⟩⟩

/-- A directory lists each name once. -/
theorem nodup_children (htidy : t.Tidy) (place : Location) :
    (t.children place).Pairwise fun child other => child.1 ≠ other.1 := by
  refine (List.pairwise_map.1 htidy.distinct).filterMap _ ?_
  rintro ⟨key, entry⟩ ⟨key', entry'⟩ hne child h child' h' hname
  obtain ⟨rfl, -⟩ := child_eq_some_iff.1 h
  obtain ⟨rfl, -⟩ := child_eq_some_iff.1 h'
  exact hne (by rw [hname])

/-- A place that holds something is no deeper than the tree has entries, since each place above it
holds a directory. -/
theorem Tidy.length_le (htidy : t.Tidy) {place : Location} {entry : Entry}
    (hat : t.at? place = some entry) : place.length ≤ t.entries.length := by
  have hkeys : (List.range place.length).map (fun i => place.take (i + 1)) ⊆
      Table.keys t.entries := by
    intro upper hupper
    obtain ⟨i, hi, rfl⟩ := List.mem_map.1 hupper
    have hi := List.mem_range.1 hi
    have hne : place.take (i + 1) ≠ [] := by simp [← List.length_pos_iff]; omega
    by_cases hall : place.take (i + 1) = place
    · exact mem_keys_of_at? (hall.symm ▸ hat) hne
    · exact mem_keys_of_at? (htidy.founded hat _ (List.take_prefix ..) hall) hne
  have hnodup : ((List.range place.length).map fun i => place.take (i + 1)).Nodup := by
    refine List.Nodup.map_on (fun i hi j hj heq => ?_) List.nodup_range
    have hlength := congrArg List.length heq
    rw [List.mem_range] at hi hj
    simp only [List.length_take] at hlength
    omega
  simpa [Table.keys] using (List.subperm_of_subset hnodup hkeys).length_le

/-! ### Places without links on the way -/

/-- No link stands on the way to a place or in it. -/
def Plain (t : FileTree) (place : Location) : Prop :=
  ∀ upper, upper <+: place → ∀ target, t.at? upper ≠ some (.link target)

theorem plain_nil : t.Plain [] := by
  intro upper hupper target h
  rw [List.prefix_nil.1 hupper, at?_top] at h
  cases h

theorem Plain.of_prefix {place upper : Location} (h : t.Plain place) (habove : upper <+: place) :
    t.Plain upper :=
  fun _ hother => h _ (hother.trans habove)

theorem Plain.dropLast {place : Location} (h : t.Plain place) : t.Plain place.dropLast :=
  h.of_prefix place.dropLast_prefix

theorem Plain.concat {place : Location} {name : String} (h : t.Plain place)
    (hname : ∀ target, t.at? (place ++ [name]) ≠ some (.link target)) :
    t.Plain (place ++ [name]) := by
  intro upper hupper
  rcases List.prefix_concat_iff.1 hupper with rfl | hupper
  · exact hname
  · exact h upper hupper

/-- A directory or file is reached without links. -/
theorem Sound.plain (hsound : t.Sound) {place : Location} {entry : Entry}
    (h : t.at? place = some entry) (hentry : ∀ target, entry ≠ .link target) : t.Plain place := by
  rintro upper ⟨rest, rfl⟩ target htarget
  by_cases hrest : rest = []
  · subst hrest
    rw [List.append_nil, htarget] at h
    exact hentry target (Option.some.inj h).symm
  · rw [hsound.directory_of_append h hrest] at htarget
    cases htarget

end NatSpec.FileTree
