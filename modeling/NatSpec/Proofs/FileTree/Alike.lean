import NatSpec.Proofs.FileTree.Walk

/-!
Trees that hold the same. What stands in each place is all that matters of a file tree: from trees
with the same entries, in whatever order they are kept, computations on trees give the same results
and leave trees with the same entries again. Where a path leads depends on the links only.
-/

namespace NatSpec

namespace FileTree

variable {t t' : FileTree}

/-- The same working directory, and the same in each place. -/
structure Alike (t t' : FileTree) : Prop where
  tidy : t.Tidy
  tidy' : t'.Tidy
  here : t.here = t'.here
  same : ∀ place, t.at? place = t'.at? place

namespace Alike

theorem refl (h : t.Tidy) : Alike t t := ⟨h, h, rfl, fun _ => rfl⟩

theorem symm (h : Alike t t') : Alike t' t :=
  ⟨h.tidy', h.tidy, h.here.symm, fun place => (h.same place).symm⟩

theorem put (h : Alike t t') {place : Location} (hplace : place ≠ []) (hfounded : t.Founded place)
    {new : Entry} (hnew : t.at? place = some .directory → new = .directory) :
    Alike (t.put place new) (t'.put place new) where
  tidy := h.tidy.put hplace hfounded hnew
  tidy' := by
    refine h.tidy'.put hplace (fun upper hupper hne => ?_) (h.same place ▸ hnew)
    rw [← h.same]
    exact hfounded upper hupper hne
  here := h.here
  same other := by rw [at?_put hplace, at?_put hplace, h.same]

theorem get? (h : Alike t t') (place : Location) :
    t.entries.get? place = t'.entries.get? place := by
  by_cases hplace : place = []
  · subst hplace
    rw [Table.get?_eq_none_iff.2 fun hmem => (h.tidy.rooted [] hmem).1 rfl,
      Table.get?_eq_none_iff.2 fun hmem => (h.tidy'.rooted [] hmem).1 rfl]
  · rw [← at?_of_ne hplace, ← at?_of_ne hplace, h.same]

theorem clearBelow (h : Alike t t') (place : Location) :
    Alike (t.clearBelow place) (t'.clearBelow place) where
  tidy := h.tidy.clearBelow place
  tidy' := h.tidy'.clearBelow place
  here := h.here
  same other := by rw [at?_clearBelow, at?_clearBelow, h.same]

theorem remove (h : Alike t t') (place : Location) : Alike (t.remove place) (t'.remove place) where
  tidy := h.tidy.remove place
  tidy' := h.tidy'.remove place
  here := h.here
  same other := by
    by_cases hother : other = []
    · subst hother
      rfl
    · rw [at?_of_ne hother, at?_of_ne hother, FileTree.remove, FileTree.remove,
        Table.get?_filter fun key => !place.isPrefixOf key,
        Table.get?_filter fun key => !place.isPrefixOf key, h.get?]

end Alike

/-! ### Where paths lead -/

theorem linkCount_le (htidy : t.Tidy)
    (h : ∀ place target, t.at? place = some (.link target) → t'.at? place = some (.link target)) :
    t.linkCount ≤ t'.linkCount := by
  rw [linkCount, List.countP_eq_length_filter, ← List.length_map (f := Prod.fst)]
  refine length_le_linkCount (htidy.distinct.sublist (List.filter_sublist.map _)) ?_
  intro place hplace
  obtain ⟨⟨_, entry⟩, hmem, rfl⟩ := List.mem_map.1 hplace
  obtain ⟨hmem, hlink⟩ := List.mem_filter.1 hmem
  cases entry with
  | link target =>
      refine ⟨target, h _ _ ?_⟩
      rw [at?_of_ne (htidy.rooted _ (Table.mem_keys_of_mem hmem)).1]
      exact Table.get?_of_mem htidy.distinct hmem
  | file content => cases hlink
  | directory => cases hlink

theorem linkCount_eq (htidy : t.Tidy) (htidy' : t'.Tidy)
    (h : ∀ place target, t.at? place = some (.link target) ↔ t'.at? place = some (.link target)) :
    t.linkCount = t'.linkCount :=
  Nat.le_antisymm (linkCount_le htidy fun place target => (h place target).1)
    (linkCount_le htidy' fun place target => (h place target).2)

/-- Where components lead depends on the links only. -/
theorem follow_congr
    (h : ∀ place target, t.at? place = some (.link target) ↔ t'.at? place = some (.link target))
    (depth : Nat) (met : Table Location (Option Location)) (place : Location)
    (parts : List String) : t'.follow depth met place parts = t.follow depth met place parts := by
  fun_induction follow t depth met place parts with
  | case1 => rw [follow]
  | case2 depth met place rest ih => rw [follow, if_pos rfl, ih]
  | case3 met place name rest hname next target hlink found depth hfound ih =>
      rw [follow_again hname ((h _ _).1 hlink) hfound, ih]
  | case4 met place name rest hname next target hlink inside hnew inner hinner ih _ ihRest =>
      have hsame : t'.follow inside (met.set next none) (targetStart place target)
          (Path.components target.toList) = ⟨true, inner.place, inner.met⟩ := by rw [ih, ← hinner]
      rw [follow_link hname ((h _ _).1 hlink) hnew hsame, ihRest]
  | case5 met place name rest hname next target hlink inside hnew inner hinner ih =>
      have hlink' : t'.at? (place ++ [name]) = some (.link target) := (h _ _).1 hlink
      have hnew' : met.get? (place ++ [name]) = none := hnew
      have hsame : t'.follow inside (met.set (place ++ [name]) none) (targetStart place target)
          (Path.components target.toList) = inner := ih
      rw [follow, if_neg hname]
      simp only [hlink', hnew', hsame]
      exact if_neg hinner
  | case6 depth met place name rest hname next target hlink hdone hopen =>
      have hlink' : t'.at? (place ++ [name]) = some (.link target) := (h _ _).1 hlink
      rw [follow, if_neg hname]
      simp only [hlink']
      split
      · exact (hdone _ ‹_›).elim
      · exact (hopen _ ‹_› rfl).elim
      · rfl
  | case7 depth met place name rest hname next hplain ih =>
      rw [follow_step hname fun target hlink => hplain target ((h _ _).2 hlink), ih]

/-- With the same links, a path resolves to the same place if walking there does not run into too
many of them. -/
theorem resolve_of_links {p : Path} {place : Location} (htidy : t.Tidy) (htidy' : t'.Tidy)
    (h : ∀ place target, t.at? place = some (.link target) ↔ t'.at? place = some (.link target))
    (hstart : t'.startOf p = t.startOf p) (hp : t.resolve p = .ok place)
    (hlocate : t'.locate true (.ofTop place) ≠ .error .tooManyLinks) :
    t'.resolve p = .ok place := by
  have hnull : holdsNull p = false := by
    by_contra hnull
    rw [resolve, if_pos (by simpa using hnull)] at hp
    cases hp
  refine resolve_of_follow hnull ?_ hlocate
  rw [hstart, ← linkCount_eq htidy htidy' h, follow_congr h, resolve_eq_ok hp]

/-- A place that is reached without links resolves to itself. -/
theorem resolve_of_nameable {t : FileTree} {place : Location}
    (hnull : holdsNull (.ofTop place) = false) (hplain : t.Plain place) (hdotless : Dotless place) :
    t.resolve (.ofTop place) = .ok place := by
  have hleads : t.Leads 0 [] place ([] ++ place) := leads_of_plain hplain hdotless.noDots
  exact hleads.resolve_eq hnull hplain hdotless

/-- The same for a path that is written in another way, once its parts are those of the place. -/
theorem resolve_of_eq_ofTop {t : FileTree} {p : Path} {place : Location} (hp : p = .ofTop place)
    (hnull : holdsNull (.ofTop place) = false) (hplain : t.Plain place) (hdotless : Dotless place) :
    t.resolve p = .ok place := by
  rw [hp]
  exact resolve_of_nameable hnull hplain hdotless

/-- In a grown tree a path resolves as it did before, if walking there does not run into too many
links. -/
theorem Grows.resolve {t s : FileTree} {P : String → Prop} (h : Grows P t s) (ht : t.Tidy)
    (hs : s.Tidy) {p : Path} {place : Location} (hp : t.resolve p = .ok place)
    (hlocate : s.locate true (.ofTop place) ≠ .error .tooManyLinks) : s.resolve p = .ok place := by
  refine resolve_of_links ht hs (fun place target => ((h.becomes place).link_iff target).symm) ?_ hp
    hlocate
  unfold startOf
  rw [h.here]

/-- A walk depends on what stands in each place only. -/
theorem walk_eq_of_same (h : ∀ place, t.at? place = t'.at? place) (follow : Bool) (links : Nat)
    (place : Location) (parts : List String) :
    t'.walk follow links place parts = t.walk follow links place parts := by
  fun_induction walk t follow links place parts with
  | case1 => rw [walk]
  | case2 links place rest ih => rw [walk, if_pos rfl, ih]
  | case3 links place rest hdot ih => rw [walk, if_neg hdot, if_pos rfl, ih]
  | case4 links place name rest hdot hdots hlong => rw [walk_long hdot hdots hlong]
  | case5 links place name rest hdot hdots hshort next hnone hlast =>
      rw [walk_missing hdot hdots hshort ((h _).symm.trans hnone), if_pos hlast]
  | case6 links place name rest hdot hdots hshort next hnone hlast =>
      rw [walk_missing hdot hdots hshort ((h _).symm.trans hnone), if_neg hlast]
  | case7 links place name rest hdot hdots hshort next hdirectory ih =>
      rw [walk_directory hdot hdots hshort ((h _).symm.trans hdirectory), ih]
  | case8 links place name rest hdot hdots hshort next content hfile hlast =>
      rw [walk_file hdot hdots hshort ((h _).symm.trans hfile), if_pos hlast]
  | case9 links place name rest hdot hdots hshort next content hfile hlast =>
      rw [walk_file hdot hdots hshort ((h _).symm.trans hfile), if_neg hlast]
  | case10 links place name rest hdot hdots hshort next target hlink hstop =>
      have hlink' : t'.at? (place ++ [name]) = some (.link target) := (h _).symm.trans hlink
      rw [walk, if_neg hdot, if_neg hdots, if_neg hshort]
      simp only [hlink']
      exact if_pos hstop
  | case11 place name rest hdot hdots hshort next target hlink hgoes =>
      have hlink' : t'.at? (place ++ [name]) = some (.link target) := (h _).symm.trans hlink
      rw [walk, if_neg hdot, if_neg hdots, if_neg hshort]
      simp only [hlink']
      exact if_neg hgoes
  | case12 place name rest hdot hdots hshort next target hlink hgoes links ih =>
      have hfollow : rest ≠ [] ∨ follow = true := by simpa [imp_iff_not_or] using hgoes
      rw [walk_link hdot hdots hshort ((h _).symm.trans hlink) hfollow, ih]

namespace Alike

section

variable (h : Alike t t')
include h

theorem startOf (p : Path) : t.startOf p = t'.startOf p := by
  unfold FileTree.startOf
  rw [h.here]

theorem locate (follow : Bool) (p : Path) : t.locate follow p = t'.locate follow p := by
  unfold FileTree.locate
  rw [h.startOf, walk_eq_of_same h.same]

theorem resolve (p : Path) : t.resolve p = t'.resolve p := by
  have hlinks (place : Location) (target : String) :
      t.at? place = some (.link target) ↔ t'.at? place = some (.link target) := by
    rw [h.same]
  unfold FileTree.resolve
  simp only [h.startOf, linkCount_eq h.tidy h.tidy' hlinks, h.locate, follow_congr hlinks]

theorem lookup (p : Path) : t.lookup p = t'.lookup p := by
  unfold FileTree.lookup status
  rw [h.locate]

theorem holds (p : Path) : t.holds p = t'.holds p := by
  unfold FileTree.holds
  rw [h.lookup]

theorem isDirectory (p : Path) : t.isDirectory p = t'.isDirectory p := by
  unfold FileTree.isDirectory
  rw [h.lookup]

theorem readValue {τ : Type} [DecidableEq τ] [IsText τ] (p : Path) :
    (t.readValue p : Except Fault (Json τ)) = t'.readValue p := by
  unfold FileTree.readValue readText readBytes status
  rw [h.locate]

end

end Alike

end FileTree

/-! ### Computations on trees -/

open FileTree (Alike)

/-- From two trees the computation gives the same and leaves alike trees. -/
def AgreesOn {ε α : Type} (t t' : FileTree) (x : ExceptT ε (StateM FileTree) α) : Prop :=
  (x t).1 = (x t').1 ∧ Alike (x t).2 (x t').2

/-- From alike trees the computation gives the same and leaves alike trees. -/
def Respects {ε α : Type} (x : ExceptT ε (StateM FileTree) α) : Prop :=
  ∀ t t', Alike t t' → AgreesOn t t' x

namespace AgreesOn

variable {ε α β : Type} {t t' : FileTree} {x : ExceptT ε (StateM FileTree) α}

theorem of_ok {t₁ t₁' : FileTree} {a : α} (hx : x t = (.ok a, t₁)) (hx' : x t' = (.ok a, t₁'))
    (h : Alike t₁ t₁') : AgreesOn t t' x := by
  rw [AgreesOn, hx, hx']
  exact ⟨rfl, h⟩

/-- The two results and what is left. -/
theorem exists_eq (hx : AgreesOn t t' x) :
    ∃ result t₁ t₁', x t = (result, t₁) ∧ x t' = (result, t₁') ∧ Alike t₁ t₁' :=
  ⟨(x t).1, (x t).2, (x t').2, rfl, Prod.ext hx.1.symm rfl, hx.2⟩

theorem bind {f : α → ExceptT ε (StateM FileTree) β} (hx : AgreesOn t t' x)
    (hf : ∀ a, Respects (f a)) : AgreesOn t t' (x >>= f) := by
  obtain ⟨result, t₁, t₁', hxt, hxt', hleft⟩ := hx.exists_eq
  cases result with
  | error e =>
      rw [AgreesOn, bind_apply_of_error f hxt, bind_apply_of_error f hxt']
      exact ⟨rfl, hleft⟩
  | ok a =>
      rw [AgreesOn, bind_apply_of_ok f hxt, bind_apply_of_ok f hxt']
      exact hf a t₁ t₁' hleft

theorem tryCatch {f : ε → ExceptT ε (StateM FileTree) α} (hx : AgreesOn t t' x)
    (hf : ∀ e, Respects (f e)) : AgreesOn t t' (tryCatch x f) := by
  obtain ⟨result, t₁, t₁', hxt, hxt', hleft⟩ := hx.exists_eq
  cases result with
  | error e =>
      rw [AgreesOn, tryCatch_apply_of_error f hxt, tryCatch_apply_of_error f hxt']
      exact hf e t₁ t₁' hleft
  | ok a =>
      rw [AgreesOn, tryCatch_apply_of_ok f hxt, tryCatch_apply_of_ok f hxt']
      exact ⟨rfl, hleft⟩

theorem liftFiling {x : Filing α} (hx : AgreesOn t t' x) : AgreesOn t t' (liftM x : Run α) := by
  obtain ⟨result, t₁, t₁', hxt, hxt', hleft⟩ := hx.exists_eq
  cases result with
  | error e =>
      rw [AgreesOn, liftFiling_apply_of_error hxt, liftFiling_apply_of_error hxt']
      exact ⟨rfl, hleft⟩
  | ok a =>
      rw [AgreesOn, liftFiling_apply_of_ok hxt, liftFiling_apply_of_ok hxt']
      exact ⟨rfl, hleft⟩

end AgreesOn

namespace Respects

variable {ε α β : Type}

theorem pure (a : α) : Respects (pure a : ExceptT ε (StateM FileTree) α) :=
  fun _ _ h => ⟨rfl, h⟩

theorem throw (e : ε) : Respects (throw e : ExceptT ε (StateM FileTree) α) :=
  fun _ _ h => ⟨rfl, h⟩

theorem bind {x : ExceptT ε (StateM FileTree) α} {f : α → ExceptT ε (StateM FileTree) β}
    (hx : Respects x) (hf : ∀ a, Respects (f a)) : Respects (x >>= f) :=
  fun t t' h => (hx t t' h).bind hf

theorem tryCatch {x : ExceptT ε (StateM FileTree) α} {f : ε → ExceptT ε (StateM FileTree) α}
    (hx : Respects x) (hf : ∀ e, Respects (f e)) : Respects (tryCatch x f) :=
  fun t t' h => (hx t t' h).tryCatch hf

/-- A computation may ask for the tree if it treats alike trees in the same way. -/
theorem get_bind {f : FileTree → ExceptT ε (StateM FileTree) α}
    (hsame : ∀ t t', Alike t t' → f t = f t') (hf : ∀ t, Respects (f t)) :
    Respects (get >>= f) := by
  intro t t' h
  rw [AgreesOn, bind_apply_of_ok f get_apply, bind_apply_of_ok f get_apply, hsame t t' h]
  exact hf t' t t' h

theorem liftExcept (x : Except ε α) : Respects (liftM x : ExceptT ε (StateM FileTree) α) :=
  fun _ _ h => ⟨rfl, h⟩

theorem liftFault (x : Except Fault α) : Respects (liftM x : Run α) := by
  intro t t' h
  rw [AgreesOn, liftFault_apply, liftFault_apply]
  exact ⟨rfl, h⟩

theorem liftFiling {x : Filing α} (hx : Respects x) : Respects (liftM x : Run α) :=
  fun t t' h => (hx t t' h).liftFiling

/-- What a computation leaves is tidy if what it started from was. -/
theorem tidy {x : ExceptT ε (StateM FileTree) α} (hx : Respects x) {t : FileTree} (h : t.Tidy) :
    (x t).2.Tidy :=
  (hx t t (.refl h)).2.tidy

end Respects

namespace FileTree

theorem respects_makeDirectory (target : Location) : Respects (makeDirectory (.ofTop target)) := by
  intro t t' h
  rw [AgreesOn, makeDirectory_apply, makeDirectory_apply, h.locate]
  split
  · exact ⟨rfl, h⟩
  · split
    · rename_i place hlocate
      obtain ⟨hnone, hfounded⟩ := founded_of_locate h.tidy' hlocate
      rcases locate_eq_ok hlocate with ⟨⟨⟩⟩ | ⟨hplace, -⟩
      refine ⟨rfl, (h.symm.put hplace hfounded ?_).symm⟩
      rw [hnone]
      exact nofun
    · exact ⟨rfl, h⟩
    · exact ⟨rfl, h⟩

theorem respects_writeText (target : Location) (text : String) :
    Respects (writeText (.ofTop target) text) := by
  intro t t' h
  rw [AgreesOn, writeText, writeBytes_apply, writeBytes_apply, h.locate]
  split
  · exact ⟨rfl, h⟩
  · split
    · exact ⟨rfl, h⟩
    · rename_i place entry hdirectory hlocate
      obtain ⟨hat, hfounded⟩ := founded_of_locate h.tidy' hlocate
      rcases locate_eq_ok hlocate with rfl | ⟨hplace, -⟩
      · exact absurd rfl hdirectory
      · refine ⟨rfl, (h.symm.put hplace hfounded fun hthere => ?_).symm⟩
        exact absurd (hat.symm.trans hthere) hdirectory
    · exact ⟨rfl, h⟩

theorem respects_removeDirectory (target : Location) :
    Respects (removeDirectory (.ofTop target)) := by
  intro t t' h
  rw [AgreesOn, removeDirectory_apply, removeDirectory_apply, h.locate]
  split
  · exact ⟨rfl, h⟩
  · split
    · exact ⟨rfl, h⟩
    · exact ⟨rfl, h.remove _⟩
  · exact ⟨rfl, h⟩

theorem respects_deleteTree (target : Location) : Respects (deleteTree (.ofTop target)) := by
  intro t t' h
  rw [AgreesOn, deleteTree_apply, deleteTree_apply, h.locate]
  split
  · exact ⟨rfl, h⟩
  · exact ⟨rfl, h⟩
  · exact ⟨rfl, h⟩
  · exact ⟨rfl, h⟩
  · exact respects_removeDirectory target _ _ (h.clearBelow _)

theorem respects_ensureDirectory (target : Location) :
    Respects (ensureDirectory (.ofTop target)) := by
  refine (respects_makeDirectory target).tryCatch fun fault => ?_
  split
  · exact .throw _
  · refine .get_bind (fun t t' h => by rw [h.isDirectory]) fun t => ?_
    refine (Respects.liftExcept _).bind fun there => ?_
    split
    · exact .pure _
    · exact .throw _
  · exact .throw _

theorem respects_ensureDirectories (target : Location) (count : Nat) :
    Respects (ensureDirectories (.ofTop target) count) := by
  induction count generalizing target with
  | zero => exact respects_ensureDirectory target
  | succ count ih =>
      refine (respects_ensureDirectory target).tryCatch fun fault => ?_
      split
      · exact (ih target.dropLast).bind fun _ => respects_ensureDirectory target
      · exact .throw _

theorem respects_makeDirectories (target : Location) :
    Respects (makeDirectories (.ofTop target)) :=
  respects_ensureDirectories target _

end FileTree

end NatSpec
