import NatSpec.Proofs.FileTree.Alike

/-!
The order in which directories list their entries. A tree whose directories list the same entries in
another order holds the same in each place, and each choice of orders is that of some tree.
-/

namespace NatSpec

namespace FileTree

/-- The same tree, whose directories list their entries in another order. -/
structure Relisted (t t' : FileTree) : Prop where
  here : t.here = t'.here
  entries : t.entries.Perm t'.entries

namespace Relisted

variable {t t' : FileTree}

theorem alike (h : Relisted t t') (htidy : t.Tidy) : Alike t t' := by
  have hkeys := h.entries.map Prod.fst
  have hdistinct' : (Table.keys t'.entries).Nodup := hkeys.nodup_iff.1 htidy.distinct
  have hsame (place : Location) : t.at? place = t'.at? place := by
    by_cases hplace : place = []
    · rw [hplace, at?_top, at?_top]
    · rw [at?_of_ne hplace, at?_of_ne hplace,
        (Table.perm_iff htidy.distinct hdistinct').1 h.entries]
  refine ⟨htidy, ⟨hdistinct', fun place hplace => ?_⟩, h.here, hsame⟩
  obtain ⟨hne, hparent⟩ := htidy.rooted place (hkeys.mem_iff.2 hplace)
  exact ⟨hne, hsame _ ▸ hparent⟩

/-- A directory lists the same entries. -/
theorem children_perm (h : Relisted t t') (place : Location) :
    (t.children place).Perm (t'.children place) :=
  h.entries.filterMap _

end Relisted

def directories (t : FileTree) : List Location :=
  [] :: (t.entries.filter fun e => e.2 = .directory).map Prod.fst

variable {t : FileTree}

theorem mem_directories (htidy : t.Tidy) {place : Location} :
    place ∈ t.directories ↔ t.at? place = some .directory := by
  rw [directories, List.mem_cons, List.mem_map]
  constructor
  · rintro (rfl | ⟨⟨_, entry⟩, hmem, rfl⟩)
    · rfl
    · obtain ⟨hmem, hentry⟩ := List.mem_filter.1 hmem
      obtain rfl : entry = .directory := by simpa using hentry
      rw [at?_of_ne (htidy.rooted _ (Table.mem_keys_of_mem hmem)).1]
      exact Table.get?_of_mem htidy.distinct hmem
  · intro hat
    by_cases hplace : place = []
    · exact .inl hplace
    · exact .inr ⟨_, List.mem_filter.2 ⟨mem_entries_of_at? hat hplace, by simp⟩, rfl⟩

theorem nodup_directories (htidy : t.Tidy) : t.directories.Nodup := by
  have hkeys := List.filter_sublist (p := fun e : Location × Entry => e.2 = .directory)
    (l := t.entries) |>.map Prod.fst
  refine List.nodup_cons.2 ⟨fun hmem => ?_, htidy.distinct.sublist hkeys⟩
  exact (htidy.rooted [] (hkeys.subset hmem)).1 rfl

/-- The tree whose directories list their entries in given orders. -/
def relist (t : FileTree) (order : Location → List (String × Entry)) : FileTree :=
  { t with
    entries := t.directories.flatMap fun place =>
      (order place).map fun child => (place ++ [child.1], child.2) }

section

variable {order : Location → List (String × Entry)}

theorem children_relist (htidy : t.Tidy) (horder : ∀ place, (order place).Perm (t.children place))
    (place : Location) : (t.relist order).children place = order place := by
  -- Of what one directory lists, another lists nothing.
  have hone (other : Location) :
      (FileTree.mk t.here
        ((order other).map fun child => (other ++ [child.1], child.2))).children place =
        if other = place then order place else [] := by
    split
    · rename_i heq
      subst heq
      simp [children, List.filterMap_map]
    · rename_i hne
      simp [children, List.filterMap_map, hne]
  have hall : ∀ places : List Location, places.Nodup →
      (places.flatMap fun other => if other = place then order place else []) =
        if place ∈ places then order place else [] := by
    intro places hnodup
    induction places with
    | nil => simp
    | cons other places ih =>
        obtain ⟨hother, hnodup⟩ := List.nodup_cons.1 hnodup
        rw [List.flatMap_cons, ih hnodup]
        by_cases heq : other = place
        · subst heq
          simp [hother]
        · simp [heq, Ne.symm heq]
  have hsplit : (t.relist order).children place = t.directories.flatMap fun other =>
      (FileTree.mk t.here
        ((order other).map fun child => (other ++ [child.1], child.2))).children place :=
    List.filterMap_flatMap
  simp only [hsplit, hone]
  rw [hall _ (nodup_directories htidy)]
  split
  · rfl
  · rename_i hplace
    have hempty : t.children place = [] := by
      refine List.eq_nil_iff_forall_not_mem.2 fun child hchild => hplace ?_
      have hat := (mem_children htidy).1 hchild
      exact (mem_directories htidy).2 (htidy.directory_of_append hat (by simp))
    exact (List.perm_nil.1 (hempty ▸ horder place)).symm

/-- Whatever order is chosen for each directory, there is a tree that lists its entries so. -/
theorem relisted_relist (htidy : t.Tidy)
    (horder : ∀ place, (order place).Perm (t.children place)) : Relisted t (t.relist order) := by
  refine ⟨rfl, ?_⟩
  have hnodup : (t.relist order).entries.Nodup := by
    refine List.nodup_flatMap.2 ⟨fun place _ => ?_, ?_⟩
    · have hchildren := (nodup_children htidy place).perm (horder place).symm Ne.symm
      refine List.pairwise_map.2 (hchildren.imp fun hne heq => hne ?_)
      simpa using congrArg Prod.fst heq
    · refine (nodup_directories htidy).imp fun {place place'} hne e hmem hmem' => hne ?_
      obtain ⟨child, -, rfl⟩ := List.mem_map.1 hmem
      obtain ⟨child', -, heq⟩ := List.mem_map.1 hmem'
      exact (List.append_inj' (congrArg Prod.fst heq) rfl).1.symm
  rw [List.perm_ext_iff_of_nodup htidy.distinct.of_map hnodup]
  rintro ⟨key, entry⟩
  constructor
  · intro hmem
    have hkey := (htidy.rooted key (Table.mem_keys_of_mem hmem)).1
    have hat : t.at? key = some entry := by
      rw [at?_of_ne hkey]
      exact Table.get?_of_mem htidy.distinct hmem
    obtain ⟨place, name, rfl⟩ : ∃ place name, key = place ++ [name] :=
      ⟨_, _, (List.dropLast_append_getLast hkey).symm⟩
    refine List.mem_flatMap.2 ⟨place, (mem_directories htidy).2 ?_, List.mem_map.2 ?_⟩
    · exact htidy.directory_of_append hat (by simp)
    · exact ⟨(name, entry), (horder place).mem_iff.2 ((mem_children htidy).2 hat), rfl⟩
  · intro hmem
    obtain ⟨place, -, hmem⟩ := List.mem_flatMap.1 hmem
    obtain ⟨child, hchild, heq⟩ := List.mem_map.1 hmem
    obtain ⟨rfl, rfl⟩ := Prod.mk.inj heq
    exact mem_entries_of_at? ((mem_children htidy).1 ((horder place).mem_iff.1 hchild)) (by simp)

end

end FileTree

end NatSpec
