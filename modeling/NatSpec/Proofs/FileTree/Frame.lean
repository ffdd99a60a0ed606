import NatSpec.Proofs.FileTree.Walk

/-!
What happens within a directory. A change at a place without links on the way happens at that place.
So where the directory and what is below it are reached without links, making directories and
writing texts there leaves everything else alone, save directories that are made on the way to the
directory itself; and deleting the directory removes that directory with all below it and nothing
else.
-/

namespace NatSpec.FileTree

/-- The same trees but for what is at or below a directory, and for directories made where nothing
was on the way to it. -/
structure Within (out : Location) (t t' : FileTree) : Prop where
  here : t'.here = t.here
  outside : ∀ place, ¬out <+: place → t'.at? place = t.at? place ∨
    place <+: out ∧ t.at? place = none ∧ t'.at? place = some .directory

variable {t : FileTree} {out place target : Location}

namespace Within

theorem refl : Within out t t := ⟨rfl, fun _ _ => .inl rfl⟩

instance : IsPreorder FileTree (Within out) where
  refl _ := refl
  trans a b c hab hbc := by
    refine ⟨hbc.here.trans hab.here, fun place hplace => ?_⟩
    rcases hab.outside place hplace with hsame | ⟨hup, hnone, hmade⟩
    · rw [← hsame]
      exact hbc.outside place hplace
    · rcases hbc.outside place hplace with hsame | ⟨-, hnone', -⟩
      · exact .inr ⟨hup, hnone, hsame.trans hmade⟩
      · rw [hmade] at hnone'
        cases hnone'

theorem put_directory (hplace : place ≠ []) (hnone : t.at? place = none)
    (hon : place <+: out ∨ out <+: place) : Within out t (t.put place .directory) where
  here := rfl
  outside other hother := by
    rw [at?_put hplace]
    split
    · rename_i heq
      obtain rfl := heq
      exact .inr ⟨hon.resolve_right hother, hnone, rfl⟩
    · exact .inl rfl

theorem put (hplace : place ≠ []) (hin : out <+: place) (entry : Entry) :
    Within out t (t.put place entry) where
  here := rfl
  outside other hother := by
    rw [at?_put hplace, if_neg]
    · exact .inl rfl
    · rintro rfl
      exact hother hin

theorem remove (hout : out ≠ []) : Within out t (t.remove out) where
  here := rfl
  outside other hother := by
    rw [at?_remove hout, if_neg hother]
    exact .inl rfl

end Within

/-! ### Making and writing -/

/-- Making a directory on the way to a place within `out` stays within `out`. -/
theorem makeDirectory_within (hplain : t.Plain target) (hdotless : Dotless target)
    (hout : out <+: target) (hplace : place <+: target) :
    Within out t (makeDirectory (.ofTop place) t).2 := by
  rw [makeDirectory_apply]
  split
  · exact .refl
  · rcases locate_of_plain false (hplain.of_prefix hplace) (hdotless.of_prefix hplace) with
      ⟨reason, hstop, -⟩ | hreach
    · rw [hstop]
      exact .refl
    · rw [hreach]
      cases hat : t.at? place with
      | none =>
          have hne : place ≠ [] := by
            rintro rfl
            cases hat
          exact .put_directory hne hat (List.prefix_or_prefix_of_prefix hplace hout)
      | some entry => exact .refl

/-- Making the directories of a path within `out` stays within `out`. -/
theorem makeDirectories_within (hdotless : Dotless target) (hout : out <+: target)
    (hplace : place <+: target) (t : FileTree) :
    Keeping (Plain · target) (Within out) t (makeDirectories (.ofTop place) t).2 := by
  refine related_ensureDirectories (P := fun p => ∃ upper, upper <+: target ∧ p = .ofTop upper)
    ?_ ?_ ⟨place, hplace, rfl⟩ _ t
  · rintro p ⟨upper, hupper, rfl⟩
    exact ⟨upper.dropLast, upper.dropLast_prefix.trans hupper, rfl⟩
  · rintro p t ⟨upper, hupper, rfl⟩ hplain
    exact ⟨(makeDirectory_grows (P := fun _ => True) _ t).plain hplain,
      makeDirectory_within hplain hdotless hout hupper⟩

theorem writeText_within (hplain : t.Plain target) (hdotless : Dotless target)
    (hout : out <+: target) (text : String) :
    Within out t (writeText (.ofTop target) text t).2 := by
  rw [writeText, writeBytes_apply]
  split
  · exact .refl
  · rcases locate_of_plain true hplain hdotless with ⟨reason, hstop, -⟩ | hreach
    · rw [hstop]
      exact .refl
    · rw [hreach]
      by_cases htop : target = []
      · subst htop
        exact .refl
      · rcases hat : t.at? target with _ | (_ | _ | _)
        · exact .put htop hout _
        · exact .put htop hout _
        · exact .put htop hout _
        · exact .refl

/-! ### Deleting -/

theorem remove_clearBelow (t : FileTree) (place : Location) :
    (t.clearBelow place).remove place = t.remove place := by
  unfold remove clearBelow
  rw [List.filter_filter]
  congr 2
  funext entry
  cases place.isPrefixOf entry.1 <;> simp

/-- A directory to which a path still leads when it was emptied is removed with all below it. -/
theorem deleteTree_of_locate {target : Location} (htarget : target ≠ []) (hdotless : Dotless target)
    (h : t.locate false (.ofTop target) = .ok (place, some .directory))
    (h' : (t.clearBelow place).locate false (.ofTop target) = .ok (place, some .directory)) :
    deleteTree (.ofTop target) t = (.ok (), t.remove place) := by
  have hlast : (Path.ofTop target).parts.getLast? = some (target.getLast htarget) :=
    List.getLast?_eq_some_getLast htarget
  have hdots : target.getLast htarget ≠ ".." := by
    intro heq
    exact hdotless.noDots (heq ▸ List.getLast_mem htarget)
  rw [deleteTree_apply, h]
  dsimp only
  rw [removeDirectory_apply, h', hlast]
  dsimp only
  rw [if_neg hdots, remove_clearBelow]

/-- What was deleted is a directory to which the path still led when it was emptied. -/
theorem exists_of_deleteTree {target : Location} (htidy : t.Tidy)
    (h : deleteTree (.ofTop target) t = (.ok (), t')) :
    ∃ place, t.locate false (.ofTop target) = .ok (place, some .directory) ∧
      (t.clearBelow place).locate false (.ofTop target) = .ok (place, some .directory) ∧
      t' = t.remove place := by
  rw [deleteTree_apply] at h
  split at h
  · cases h
  · cases h
  · cases h
  · cases h
  · rename_i place hlocate
    refine ⟨place, hlocate, ?_⟩
    rw [removeDirectory_apply] at h
    split at h
    · cases h
    · rename_i left entry last hleft hlast
      have hkeeps : Keeps (t.clearBelow place) t := by
        refine .of_subset fun other stands hother => ?_
        rw [at?_clearBelow] at hother
        split at hother
        · cases hother
        · exact hother
      obtain ⟨rfl, -⟩ := Prod.mk.inj (Except.ok.inj
        ((hkeeps.locate htidy hleft fun _ => nofun).symm.trans hlocate))
      have hat : (t.clearBelow left).at? left = some .directory := by
        rw [at?_clearBelow, if_neg fun hbelow => hbelow.2 rfl, (founded_of_locate htidy hlocate).1]
      obtain rfl : entry = some .directory :=
        (founded_of_locate (htidy.clearBelow left) hleft).1.symm.trans hat
      split at h
      · cases h
      · exact ⟨hleft, by rw [← remove_clearBelow, (Prod.mk.inj h).2]⟩
    · cases h

section

variable (hplain : t.Plain place) (hdotless : Dotless place)
include hplain hdotless

/-- A directory that is reached without links is removed with all below it. -/
theorem deleteTree_of_directory (hplace : place ≠ []) {follow : Bool}
    (h : t.locate follow (.ofTop place) = .ok (place, some .directory)) :
    deleteTree (.ofTop place) t = (.ok (), t.remove place) := by
  have hreach : t.locate false (.ofTop place) = .ok (place, some .directory) :=
    (locate_congr follow false hplain hdotless fun _ _ => rfl).trans h
  -- The emptied directory is still there when it is removed under its own name.
  have habove (upper : Location) (hupper : upper <+: place) :
      (t.clearBelow place).at? upper = t.at? upper := by
    rw [at?_clearBelow, if_neg]
    rintro ⟨hbelow, hne⟩
    exact hne (hupper.eq_of_length_le hbelow.length_le)
  exact deleteTree_of_locate hplace hdotless hreach
    ((locate_congr false false hplain hdotless habove).trans hreach)

/-- What is no directory is not deleted. -/
theorem deleteTree_of_ne_directory (hat : t.at? place ≠ some .directory) :
    ∃ f, deleteTree (.ofTop place) t = (.error f, t) := by
  rw [deleteTree_apply]
  rcases locate_of_plain false hplain hdotless with ⟨reason, hstop, -⟩ | hreach
  · rw [hstop]
    exact ⟨_, rfl⟩
  · rw [hreach]
    rcases hentry : t.at? place with _ | (_ | _ | _)
    · exact ⟨_, rfl⟩
    · exact ⟨_, rfl⟩
    · exact ⟨_, rfl⟩
    · exact absurd hentry hat

end

end NatSpec.FileTree
