import NatSpec.Proofs.FileTree.Update
import NatSpec.Proofs.Table.Overlay

/-!
Walks that succeed. A walk that gets to its end has passed directories only, its path leads there,
and it gets there in every tree that holds what it has met. A walk along a longer path goes on from
where the walk along the first part ended, or fails if that did.
-/

namespace NatSpec.FileTree

variable {t s : FileTree} {follow : Bool} {links : Nat} {place found : Location}
  {parts : List String} {entry : Option Entry}

/-! ### Tidy trees -/

namespace Tidy

theorem put (h : t.Tidy) (hplace : place ≠ []) (hfounded : t.Founded place)
    {new : Entry} (hnew : t.at? place = some .directory → new = .directory) :
    (t.put place new).Tidy where
  distinct := Table.nodup_keys_set place new h.distinct
  rooted other hmem := by
    obtain ⟨value, hvalue⟩ := Table.exists_get?_of_mem_keys hmem
    have hne : other ≠ [] := by
      rintro rfl
      rw [FileTree.put, Table.get?_set, if_neg (by simpa using hplace)] at hvalue
      exact (h.rooted [] (Table.mem_keys_of_mem (Table.mem_of_get? hvalue))).1 rfl
    have hup : other.dropLast ≠ other := by
      intro heq
      have hlength := congrArg List.length heq
      rw [List.length_dropLast] at hlength
      have hpos := List.length_pos_iff.2 hne
      omega
    refine ⟨hne, ?_⟩
    rw [← at?_of_ne hne, at?_put hplace] at hvalue
    rw [at?_put hplace]
    by_cases heq : place = other
    · subst heq
      rw [if_neg (Ne.symm hup)]
      exact hfounded _ place.dropLast_prefix hup
    · rw [if_neg heq] at hvalue
      have hparent := h.founded hvalue _ other.dropLast_prefix hup
      split
      · rename_i hroot
        rw [hnew (hroot ▸ hparent)]
      · exact hparent

/-- What is kept together with all that is above it is tidy again. -/
theorem filter (h : t.Tidy) (keep : Location → Bool)
    (hkeep : ∀ other, keep other = true → keep other.dropLast = true) :
    (⟨t.here, t.entries.filter fun e => keep e.1⟩ : FileTree).Tidy where
  distinct := h.distinct.sublist (List.filter_sublist.map _)
  rooted other hmem := by
    obtain ⟨value, hvalue⟩ := Table.exists_get?_of_mem_keys hmem
    rw [Table.get?_filter] at hvalue
    split at hvalue
    · rename_i hkept
      obtain ⟨hne, hparent⟩ := h.rooted other (Table.mem_keys_of_mem (Table.mem_of_get? hvalue))
      refine ⟨hne, ?_⟩
      by_cases htop : other.dropLast = []
      · rw [htop, at?_top]
      · rw [at?_of_ne htop] at hparent ⊢
        rw [Table.get?_filter, if_pos (hkeep other hkept), hparent]
    · cases hvalue

theorem clearBelow (h : t.Tidy) (place : Location) : (t.clearBelow place).Tidy := by
  refine h.filter (fun other => !(place.isPrefixOf other && other != place)) fun other hkept => ?_
  by_contra hgone
  have hbelow : place <+: other.dropLast ∧ other.dropLast ≠ place := by simpa using hgone
  have hother : ¬(place <+: other ∧ other ≠ place) := by
    rintro ⟨hup, hne⟩
    simp [List.isPrefixOf_iff_prefix.2 hup, hne] at hkept
  refine hother ⟨hbelow.1.trans other.dropLast_prefix, ?_⟩
  rintro rfl
  exact hbelow.2 (other.dropLast_prefix.eq_of_length_le hbelow.1.length_le)

theorem remove (h : t.Tidy) (place : Location) : (t.remove place).Tidy := by
  refine h.filter (fun other => !place.isPrefixOf other) fun other hkept => ?_
  by_contra hgone
  have hbelow : place <+: other.dropLast := by simpa using hgone
  simp [List.isPrefixOf_iff_prefix.2 (hbelow.trans other.dropLast_prefix)] at hkept

theorem directory_dropLast (h : t.Tidy) (hplace : t.at? place = some .directory) :
    t.at? place.dropLast = some .directory := by
  by_cases heq : place.dropLast = place
  · rwa [heq]
  · exact h.founded hplace _ place.dropLast_prefix heq

theorem founded_concat (h : t.Tidy) (hplace : t.at? place = some .directory) (name : String) :
    t.Founded (place ++ [name]) := by
  intro above habove hne
  rcases List.prefix_concat_iff.1 habove with rfl | habove
  · exact absurd rfl hne
  · by_cases heq : above = place
    · rwa [heq]
    · exact h.founded hplace above habove heq

/-- A place without links on the way is one at or above which no link stands. -/
theorem plain (h : t.Tidy) {stands : Entry} (hat : t.at? place = some stands)
    (hlink : ∀ target, stands ≠ .link target) : t.Plain place := by
  intro upper hupper target htarget
  by_cases heq : upper = place
  · rw [heq, hat] at htarget
    exact hlink target (Option.some.inj htarget)
  · rw [h.founded hat upper hupper heq] at htarget
    cases htarget

end Tidy

theorem directory_targetStart (hplace : t.at? place = some .directory) (target : String) :
    t.at? (targetStart place target) = some .directory := by
  unfold targetStart
  split
  · exact hplace
  · exact at?_top

/-! ### What a walk passes -/

/-- A walk from a directory ends at what stands where it ends, and has passed directories only. -/
theorem founded_of_walk (htidy : t.Tidy) (hplace : t.at? place = some .directory)
    (h : t.walk follow links place parts = .ok (found, entry)) :
    t.at? found = entry ∧ t.Founded found := by
  fun_induction walk t follow links place parts with
  | case1 =>
      obtain ⟨rfl, rfl⟩ := Prod.mk.inj (Except.ok.inj h)
      exact ⟨hplace, htidy.founded hplace⟩
  | case2 _ _ _ ih => exact ih hplace h
  | case3 _ _ _ _ ih => exact ih (htidy.directory_dropLast hplace) h
  | case4 => cases h
  | case5 _ _ _ _ _ _ _ next hnone =>
      obtain ⟨rfl, rfl⟩ := Prod.mk.inj (Except.ok.inj h)
      exact ⟨hnone, htidy.founded_concat hplace _⟩
  | case6 => cases h
  | case7 _ _ _ _ _ _ _ next hdirectory ih => exact ih hdirectory h
  | case8 _ _ _ _ _ _ _ next content hfile =>
      obtain ⟨rfl, rfl⟩ := Prod.mk.inj (Except.ok.inj h)
      exact ⟨hfile, htidy.founded_concat hplace _⟩
  | case9 => cases h
  | case10 _ _ _ _ _ _ _ next target hlink =>
      obtain ⟨rfl, rfl⟩ := Prod.mk.inj (Except.ok.inj h)
      exact ⟨hlink, htidy.founded_concat hplace _⟩
  | case11 => cases h
  | case12 _ _ _ _ _ _ _ target _ _ _ ih => exact ih (directory_targetStart hplace target) h

theorem filter_targetParts (target : String) :
    (targetParts target).filter (· ≠ ".") = Path.components target.toList := by
  have hcomponents : (Path.components target.toList).filter (· ≠ ".") =
      Path.components target.toList := by
    rw [List.filter_eq_self]
    intro name hname
    simpa using fun heq : name = "." => Path.noDot_components target.toList (heq ▸ hname)
  rw [targetParts, List.filter_append, hcomponents]
  split <;> simp

/-- Components lead to where the first of them lead, and on from there. -/
theorem Leads.exists_of_append {depth : Nat} {rest : List String}
    (h : t.Leads depth place (parts ++ rest) found) :
    ∃ mid, t.Leads depth place parts mid ∧ t.Leads depth mid rest found := by
  induction parts generalizing place with
  | nil => exact ⟨place, .done, h⟩
  | cons name parts ih =>
      cases h with
      | up h =>
          obtain ⟨mid, hmid, hrest⟩ := ih h
          exact ⟨mid, .up hmid, hrest⟩
      | step hname hplain h =>
          obtain ⟨mid, hmid, hrest⟩ := ih h
          exact ⟨mid, .step hname hplain hmid, hrest⟩
      | link hname hlink htarget h =>
          obtain ⟨mid, hmid, hrest⟩ := ih h
          exact ⟨mid, .link hname hlink htarget hmid, hrest⟩

/-- A walk that ends at no link gets to where its components lead. -/
theorem leads_of_walk (h : t.walk follow links place parts = .ok (found, entry))
    (hentry : ∀ target, entry ≠ some (.link target)) :
    ∃ depth, t.Leads depth place (parts.filter (· ≠ ".")) found := by
  have hcons {name : String} (hname : name ≠ ".") (rest : List String) :
      (name :: rest).filter (· ≠ ".") = name :: rest.filter (· ≠ ".") :=
    List.filter_cons_of_pos (by simpa using hname)
  fun_induction walk t follow links place parts with
  | case1 =>
      obtain ⟨rfl, -⟩ := Prod.mk.inj (Except.ok.inj h)
      exact ⟨0, .done⟩
  | case2 _ _ _ ih =>
      rw [List.filter_cons_of_neg (by simp)]
      exact ih h
  | case3 _ _ _ hdot ih =>
      obtain ⟨depth, hleads⟩ := ih h
      rw [hcons hdot]
      exact ⟨depth, .up hleads⟩
  | case4 => cases h
  | case5 _ _ name rest hdot hdots _ next hnone hlast =>
      obtain ⟨rfl, -⟩ := Prod.mk.inj (Except.ok.inj h)
      obtain rfl := List.isEmpty_iff.1 hlast
      rw [hcons hdot]
      exact ⟨0, .step hdots (fun _ hlink => by cases hnone.symm.trans hlink) .done⟩
  | case6 => cases h
  | case7 _ _ _ _ hdot hdots _ next hdirectory ih =>
      obtain ⟨depth, hleads⟩ := ih h
      rw [hcons hdot]
      exact ⟨depth, .step hdots (fun _ hlink => by cases hdirectory.symm.trans hlink) hleads⟩
  | case8 _ _ _ rest hdot hdots _ next content hfile hlast =>
      obtain ⟨rfl, -⟩ := Prod.mk.inj (Except.ok.inj h)
      obtain rfl := List.isEmpty_iff.1 hlast
      rw [hcons hdot]
      exact ⟨0, .step hdots (fun _ hlink => by cases hfile.symm.trans hlink) .done⟩
  | case9 => cases h
  | case10 _ _ _ _ _ _ _ next target hlink =>
      obtain ⟨-, rfl⟩ := Prod.mk.inj (Except.ok.inj h)
      exact absurd rfl (hentry target)
  | case11 => cases h
  | case12 _ _ _ hdot hdots _ next target hlink _ _ ih =>
      obtain ⟨depth, hleads⟩ := ih h
      rw [List.filter_append, filter_targetParts] at hleads
      obtain ⟨mid, htarget, hrest⟩ := hleads.exists_of_append
      rw [hcons hdot]
      exact ⟨depth + 1, .link hdots hlink htarget (hrest.mono (Nat.le_succ depth))⟩

/-! ### Walks in other trees -/

/-- A tree that holds what another one holds, but perhaps other contents of files. -/
structure Keeps (t s : FileTree) : Prop where
  directory : ∀ place, t.at? place = some .directory → s.at? place = some .directory
  link : ∀ place target, t.at? place = some (.link target) → s.at? place = some (.link target)
  file : ∀ place content, t.at? place = some (.file content) →
    ∃ content', s.at? place = some (.file content')

theorem Grows.keeps {P : String → Prop} (h : Grows P t s) : Keeps t s where
  directory place hplace := by
    have hbecomes := h.becomes place
    rw [hplace] at hbecomes
    generalize s.at? place = now at hbecomes
    cases hbecomes with
    | same => rfl
  link place target hplace := ((h.becomes place).link_iff target).2 hplace
  file place content hplace := by
    have hbecomes := h.becomes place
    rw [hplace] at hbecomes
    generalize s.at? place = now at hbecomes
    cases hbecomes with
    | same => exact ⟨content, rfl⟩
    | written => exact ⟨_, rfl⟩

theorem Keeps.of_subset (h : ∀ place stands, t.at? place = some stands → s.at? place = some stands) :
    Keeps t s :=
  ⟨fun place => h place _, fun place _ => h place _, fun place content hplace =>
    ⟨content, h place _ hplace⟩⟩

/-- A walk gets to its end in every tree that holds what it has met, unless it is to follow a link
that stands there instead of nothing. -/
theorem Keeps.walk (hkeeps : Keeps t s) (hs : s.Tidy) (hplace : s.at? place = some .directory)
    (h : t.walk follow links place parts = .ok (found, entry))
    (hnew : entry = none → follow = true → ∀ target, s.at? found ≠ some (.link target)) :
    s.walk follow links place parts = .ok (found, s.at? found) := by
  fun_induction FileTree.walk t follow links place parts with
  | case1 =>
      obtain ⟨rfl, -⟩ := Prod.mk.inj (Except.ok.inj h)
      rw [FileTree.walk, hplace]
  | case2 _ _ _ ih => rw [FileTree.walk, if_pos rfl, ih hplace h]
  | case3 _ _ _ hdot ih =>
      rw [FileTree.walk, if_neg hdot, if_pos rfl, ih (hs.directory_dropLast hplace) h]
  | case4 => cases h
  | case5 links upper name rest hdot hdots hshort next hnone hlast =>
      obtain ⟨rfl, rfl⟩ := Prod.mk.inj (Except.ok.inj h)
      obtain rfl := List.isEmpty_iff.1 hlast
      rcases hat : s.at? next with _ | (content | target | _)
      · rw [walk_missing hdot hdots hshort hat]
        rfl
      · rw [walk_file hdot hdots hshort hat]
        rfl
      · have hstop : (([] : List String).isEmpty && !follow) = true := by
          cases follow with
          | false => rfl
          | true => exact absurd hat (hnew rfl rfl target)
        rw [FileTree.walk, if_neg hdot, if_neg hdots, if_neg hshort]
        simp only [next] at hat
        simp only [hat]
        rw [if_pos hstop]
      · rw [walk_directory hdot hdots hshort hat, FileTree.walk]
  | case6 => cases h
  | case7 _ _ _ _ hdot hdots hshort next hdirectory ih =>
      have hat := hkeeps.directory next hdirectory
      rw [walk_directory hdot hdots hshort hat, ih hat h]
  | case8 _ _ _ rest hdot hdots hshort next content hfile hlast =>
      obtain ⟨rfl, -⟩ := Prod.mk.inj (Except.ok.inj h)
      obtain ⟨content', hat⟩ := hkeeps.file next content hfile
      rw [walk_file hdot hdots hshort hat, if_pos hlast, hat]
  | case9 => cases h
  | case10 _ _ _ _ hdot hdots hshort next target hlink hstop =>
      obtain ⟨rfl, -⟩ := Prod.mk.inj (Except.ok.inj h)
      have hat := hkeeps.link next target hlink
      rw [FileTree.walk, if_neg hdot, if_neg hdots, if_neg hshort]
      simp only [next] at hat
      simp only [hat]
      rw [if_pos hstop, hat]
  | case11 => cases h
  | case12 _ _ rest hdot hdots hshort next target hlink hgoes links ih =>
      have hfollow : rest ≠ [] ∨ follow = true := by simpa [imp_iff_not_or] using hgoes
      rw [walk_link hdot hdots hshort (hkeeps.link next target hlink) hfollow,
        ih (directory_targetStart hplace target) h]

/-- A walk to a file gets to its end in every tree that holds what it has met. -/
theorem Keeps.walk_file (hkeeps : Keeps t s) {content : ByteArray}
    (h : t.walk follow links place parts = .ok (found, some (.file content))) :
    s.walk follow links place parts = .ok (found, s.at? found) := by
  fun_induction FileTree.walk t follow links place parts with
  | case1 => simp at h
  | case2 _ _ _ ih => rw [FileTree.walk, if_pos rfl, ih h]
  | case3 _ _ _ hdot ih => rw [FileTree.walk, if_neg hdot, if_pos rfl, ih h]
  | case4 => cases h
  | case5 => simp at h
  | case6 => cases h
  | case7 _ _ _ _ hdot hdots hshort next hdirectory ih =>
      rw [walk_directory hdot hdots hshort (hkeeps.directory next hdirectory), ih h]
  | case8 _ _ _ _ hdot hdots hshort next content hfile hlast =>
      obtain ⟨rfl, -⟩ := Prod.mk.inj (Except.ok.inj h)
      obtain ⟨content', hat⟩ := hkeeps.file next content hfile
      rw [walk_file hdot hdots hshort hat, if_pos hlast, hat]
  | case9 => cases h
  | case10 => simp at h
  | case11 => cases h
  | case12 _ _ rest hdot hdots hshort next target hlink hgoes links ih =>
      have hfollow : rest ≠ [] ∨ follow = true := by simpa [imp_iff_not_or] using hgoes
      rw [walk_link hdot hdots hshort (hkeeps.link next target hlink) hfollow, ih h]

theorem keeps_put_file {old new : ByteArray} (hplace : place ≠ [])
    (h : t.at? place = some (.file old)) :
    Keeps t (t.put place (.file new)) := by
  have hother {entry : Entry} {other : Location} (hat : t.at? other = some entry)
      (hentry : entry ≠ .file old) : (t.put place (.file new)).at? other = some entry := by
    rw [at?_put hplace, if_neg, hat]
    rintro rfl
    exact hentry (Option.some.inj (hat.symm.trans h))
  refine ⟨fun other hat => hother hat (by simp), fun other target hat => hother hat (by simp),
    fun other content hat => ?_⟩
  rw [at?_put hplace]
  split
  · exact ⟨new, rfl⟩
  · exact ⟨content, hat⟩

/-! ### Walks in parts -/

/-- A longer walk goes on from the directory to which the first components lead, with the links that
are left, or fails if they lead to none. -/
def Continues (t : FileTree) (links : Nat) (place : Location) (parts : List String) : Prop :=
  (∃ found left, t.walk true links place parts = .ok (found, some .directory) ∧
    ∀ follow rest, rest ≠ [] →
      t.walk follow links place (parts ++ rest) = t.walk follow left found rest) ∨
  ((∀ found, t.walk true links place parts ≠ .ok (found, some .directory)) ∧
    ∀ follow rest, rest ≠ [] →
      ∃ reason, t.walk follow links place (parts ++ rest) = .error reason)

theorem Continues.of_step {links' : Nat} {place' : Location} {parts' : List String}
    (h : Continues t links' place' parts')
    (hstep : ∀ follow rest, (follow = true ∨ rest ≠ []) →
      t.walk follow links place (parts ++ rest) = t.walk follow links' place' (parts' ++ rest)) :
    Continues t links place parts := by
  have hhere : t.walk true links place parts = t.walk true links' place' parts' := by
    simpa using hstep true [] (.inl rfl)
  unfold Continues
  rw [hhere]
  refine h.imp ?_ ?_
  · rintro ⟨found, left, hfound, hrest⟩
    exact ⟨found, left, hfound, fun follow rest hne => by
      rw [hstep follow rest (.inr hne), hrest follow rest hne]⟩
  · rintro ⟨hnone, hrest⟩
    exact ⟨hnone, fun follow rest hne => by
      rw [hstep follow rest (.inr hne)]
      exact hrest follow rest hne⟩

theorem walk_append (t : FileTree) (links : Nat) (place : Location) (parts : List String) :
    Continues t links place parts := by
  generalize htrue : true = follow
  fun_induction walk t follow links place parts with
  | case1 links place => exact .inl ⟨place, links, by rw [walk], fun _ _ _ => rfl⟩
  | case2 links place rest ih =>
      refine ih.of_step fun follow more _ => ?_
      rw [List.cons_append, walk, if_pos rfl]
  | case3 links place rest hdot ih =>
      refine ih.of_step fun follow more _ => ?_
      rw [List.cons_append, walk, if_neg hdot, if_pos rfl]
  | case4 links place name rest hdot hdots hlong =>
      refine .inr ⟨fun found => ?_, fun follow more _ => ⟨.nameTooLong, ?_⟩⟩
      · rw [walk_long hdot hdots hlong]
        simp
      · rw [List.cons_append, walk_long hdot hdots hlong]
  | case5 links place name rest hdot hdots hshort next hnone hlast =>
      refine .inr ⟨fun found => ?_, fun follow more hne => ⟨.notFound, ?_⟩⟩
      · rw [walk_missing hdot hdots hshort hnone, if_pos hlast]
        simp
      · rw [List.cons_append, walk_missing hdot hdots hshort hnone, if_neg (by simp [hne])]
  | case6 links place name rest hdot hdots hshort next hnone hlast =>
      refine .inr ⟨fun found => ?_, fun follow more hne => ⟨.notFound, ?_⟩⟩
      · rw [walk_missing hdot hdots hshort hnone, if_neg hlast]
        simp
      · rw [List.cons_append, walk_missing hdot hdots hshort hnone, if_neg (by simp [hne])]
  | case7 links place name rest hdot hdots hshort next hdirectory ih =>
      refine ih.of_step fun follow more _ => ?_
      rw [List.cons_append, walk_directory hdot hdots hshort hdirectory]
  | case8 links place name rest hdot hdots hshort next content hfile hlast =>
      refine .inr ⟨fun found => ?_, fun follow more hne => ⟨.notDirectory, ?_⟩⟩
      · rw [walk_file hdot hdots hshort hfile, if_pos hlast]
        simp
      · rw [List.cons_append, walk_file hdot hdots hshort hfile, if_neg (by simp [hne])]
  | case9 links place name rest hdot hdots hshort next content hfile hlast =>
      refine .inr ⟨fun found => ?_, fun follow more hne => ⟨.notDirectory, ?_⟩⟩
      · rw [walk_file hdot hdots hshort hfile, if_neg hlast]
        simp
      · rw [List.cons_append, walk_file hdot hdots hshort hfile, if_neg (by simp [hne])]
  | case10 links place name rest hdot hdots hshort next target hlink hstop =>
      simp [← htrue] at hstop
  | case11 place name rest hdot hdots hshort next target hlink hgoes =>
      have hfails (follow : Bool) (more : List String) (hmore : follow = true ∨ more ≠ []) :
          t.walk follow 0 place (name :: (rest ++ more)) = .error .tooManyLinks := by
        have hon : ((rest ++ more).isEmpty && !follow) = false := by
          rcases hmore with rfl | hne
          · simp
          · simp [hne]
        rw [walk, if_neg hdot, if_neg hdots, if_neg hshort]
        simp only [next] at hlink
        simp only [hlink, hon, Bool.false_eq_true, if_false]
      refine .inr ⟨fun found => ?_, fun follow more hne => ⟨.tooManyLinks, ?_⟩⟩
      · have hhere := hfails true [] (.inl rfl)
        rw [List.append_nil] at hhere
        rw [hhere]
        simp
      · exact hfails follow more (.inr hne)
  | case12 place name rest hdot hdots hshort next target hlink hgoes links ih =>
      refine ih.of_step fun follow more hmore => ?_
      have hfollow : rest ++ more ≠ [] ∨ follow = true := by
        rcases hmore with rfl | hne
        · exact .inr rfl
        · exact .inl (by simp [hne])
      rw [List.cons_append, walk_link hdot hdots hshort hlink hfollow, List.append_assoc]

/-- Whether a link at its end is followed makes a difference to a walk only if there is one. -/
theorem walk_true_of_false {result : Except Refused (Location × Option Entry)}
    (h : t.walk false links place parts = result)
    (hlink : ∀ found target, result ≠ .ok (found, some (.link target))) :
    t.walk true links place parts = result := by
  subst h
  generalize hfalse : false = follow at hlink ⊢
  fun_induction walk t follow links place parts with
  | case1 => rw [walk]
  | case2 _ _ _ ih => rw [walk, if_pos rfl, ih hlink]
  | case3 _ _ _ hdot ih => rw [walk, if_neg hdot, if_pos rfl, ih hlink]
  | case4 _ _ _ _ hdot hdots hlong => rw [walk_long hdot hdots hlong]
  | case5 _ _ _ _ hdot hdots hshort next hnone hlast =>
      rw [walk_missing hdot hdots hshort hnone, if_pos hlast]
  | case6 _ _ _ _ hdot hdots hshort next hnone hlast =>
      rw [walk_missing hdot hdots hshort hnone, if_neg hlast]
  | case7 _ _ _ _ hdot hdots hshort next hdirectory ih =>
      rw [walk_directory hdot hdots hshort hdirectory, ih hlink]
  | case8 _ _ _ _ hdot hdots hshort next content hfile hlast =>
      rw [walk_file hdot hdots hshort hfile, if_pos hlast]
  | case9 _ _ _ _ hdot hdots hshort next content hfile hlast =>
      rw [walk_file hdot hdots hshort hfile, if_neg hlast]
  | case10 _ _ _ _ _ _ _ next target => exact absurd rfl (hlink next target)
  | case11 place name rest hdot hdots hshort next target hlink' hgoes =>
      rw [walk, if_neg hdot, if_neg hdots, if_neg hshort]
      simp only [next] at hlink'
      simp [hlink']
  | case12 place name rest hdot hdots hshort next target hlink' hgoes links ih =>
      rw [walk_link hdot hdots hshort hlink' (.inr rfl), ih hlink]

/-! ### Paths from the top -/

variable {target : Location}

theorem walk_of_locate {result : Location × Option Entry}
    (h : t.locate follow (.ofTop target) = .ok result) :
    t.walk follow maxLinks [] target = .ok result := by
  unfold locate at h
  split at h
  · cases h
  · exact h

theorem locate_nil : t.locate follow (.ofTop []) = .ok ([], some .directory) := by
  rw [locate, if_neg (by decide), Path.ofTop, walk]
  rfl

theorem founded_of_locate (htidy : t.Tidy)
    (h : t.locate follow (.ofTop target) = .ok (found, entry)) :
    t.at? found = entry ∧ t.Founded found :=
  founded_of_walk htidy at?_top (walk_of_locate h)

/-- A path that gets to its end at no link leads there. -/
theorem leads_of_locate (hdot : "." ∉ target)
    (h : t.locate follow (.ofTop target) = .ok (found, entry))
    (hentry : ∀ link, entry ≠ some (.link link)) : ∃ depth, t.Leads depth [] target found := by
  obtain ⟨depth, hleads⟩ := leads_of_walk (walk_of_locate h) hentry
  rw [List.filter_eq_self.2 fun name hname => by
    simpa using fun heq : name = "." => hdot (heq ▸ hname)] at hleads
  exact ⟨depth, hleads⟩

theorem Keeps.locate_path (hkeeps : Keeps t s) (hs : s.Tidy) {p : Path} (hp : p.start ≠ .here)
    (h : t.locate follow p = .ok (found, entry))
    (hnew : entry = none → follow = true → ∀ link, s.at? found ≠ some (.link link)) :
    s.locate follow p = .ok (found, s.at? found) := by
  have hstart (u : FileTree) : u.startOf p = [] := if_neg hp
  unfold FileTree.locate at h ⊢
  split at h
  · cases h
  · rename_i hshort
    rw [hstart] at h
    rw [if_neg hshort, hstart]
    exact hkeeps.walk hs at?_top h hnew

theorem Keeps.locate (hkeeps : Keeps t s) (hs : s.Tidy)
    (h : t.locate follow (.ofTop target) = .ok (found, entry))
    (hnew : entry = none → follow = true → ∀ link, s.at? found ≠ some (.link link)) :
    s.locate follow (.ofTop target) = .ok (found, s.at? found) :=
  hkeeps.locate_path hs (p := .ofTop target) nofun h hnew

/-- A directory that is there is found to be there in a grown tree. -/
theorem Grows.locate_directory {P : String → Prop} (h : Grows P t s) (ht : t.Tidy) (hs : s.Tidy)
    (hfound : t.locate true (.ofTop target) = .ok (found, some .directory)) :
    s.locate true (.ofTop target) = .ok (found, some .directory) := by
  obtain ⟨hat, -⟩ := founded_of_locate ht hfound
  rw [h.keeps.locate hs hfound nofun, h.keeps.directory found hat]

theorem locate_true_of_false {p : Path} {result : Except Refused (Location × Option Entry)}
    (h : t.locate false p = result) (hlink : ∀ found link, result ≠ .ok (found, some (.link link))) :
    t.locate true p = result := by
  unfold locate at h ⊢
  split
  · rename_i hlong
    rwa [if_pos hlong] at h
  · rename_i hshort
    rw [if_neg hshort] at h
    exact walk_true_of_false h hlink

/-- A path to a file leads to the same place after the file was written over. -/
theorem locate_put_file {p : Path} {old : ByteArray} (new : ByteArray)
    (h : t.locate true p = .ok (found, some (.file old))) :
    (t.put found (.file new)).locate true p = .ok (found, some (.file new)) := by
  unfold locate at h ⊢
  split at h
  · cases h
  · rename_i hshort
    obtain hdirectory | ⟨hfound, hat, -⟩ := walk_eq_ok h
    · cases hdirectory
    · have hself : (t.put found (.file new)).at? found = some (.file new) := by
        rw [at?_put hfound, if_pos rfl]
      rw [if_neg hshort, ← hself]
      exact (keeps_put_file hfound hat).walk_file h

theorem put_put (t : FileTree) (place : Location) (entry : Entry) :
    (t.put place entry).put place entry = t.put place entry :=
  congrArg (FileTree.mk t.here) (Table.set_set t.entries place entry)

end NatSpec.FileTree
