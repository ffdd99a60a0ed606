import NatSpec.Proofs.FileTree.Made

/-!
Directories that were made under any path, be it relative or with double dots. Once made, the path
leads to a directory, and it resolves to the place of that directory, as it did before.
-/

namespace NatSpec.FileTree

variable {t t' : FileTree} {follow : Bool} {p : Path} {found root : Location} {entry : Option Entry}

/-- The entries stand in directories, and so does all that paths start from; no dot is in the way.
-/
structure Based (t : FileTree) : Prop where
  tidy : t.Tidy
  here : t.at? t.here = some .directory
  dotless : Dotless t.here

theorem Sound.based (h : t.Sound) : t.Based :=
  ⟨h.tidy, h.here, h.dotless h.here⟩

namespace Based

theorem directory_startOf (h : t.Based) (p : Path) : t.at? (t.startOf p) = some .directory := by
  unfold startOf
  split
  · exact h.here
  · rfl

theorem dotless_startOf (h : t.Based) (p : Path) : Dotless (t.startOf p) := by
  unfold startOf
  split
  · exact h.dotless
  · exact ⟨List.not_mem_nil, List.not_mem_nil⟩

theorem plain_startOf (h : t.Based) (p : Path) : t.Plain (t.startOf p) :=
  h.tidy.plain (h.directory_startOf p) (by simp)

theorem of_grows {P : String → Prop} (h : t.Based) (hgrows : Grows P t t') (htidy : t'.Tidy) :
    t'.Based where
  tidy := htidy
  here := by
    rw [hgrows.here]
    exact hgrows.keeps.directory _ h.here
  dotless := hgrows.here ▸ h.dotless

end Based

theorem walk_of_locate_path (h : t.locate follow p = .ok (found, entry)) :
    t.walk follow maxLinks (t.startOf p) p.parts = .ok (found, entry) := by
  unfold locate at h
  split at h
  · cases h
  · exact h

theorem Based.founded_of_locate (hbased : t.Based) (h : t.locate follow p = .ok (found, entry)) :
    t.at? found = entry ∧ t.Founded found :=
  founded_of_walk hbased.tidy (hbased.directory_startOf p) (walk_of_locate_path h)

/-- Making one directory keeps the tree in order. -/
theorem Based.makeDirectory (hbased : t.Based) (p : Path) : (makeDirectory p t).2.Based := by
  refine hbased.of_grows (makeDirectory_grows (P := fun _ => True) p t) ?_
  rw [makeDirectory_apply]
  split
  · exact hbased.tidy
  · split
    · rename_i place hlocate
      obtain ⟨hnone, hfounded⟩ := hbased.founded_of_locate hlocate
      rcases locate_eq_ok hlocate with ⟨⟨⟩⟩ | ⟨hplace, -⟩
      exact hbased.tidy.put hplace hfounded fun _ => rfl
    · exact hbased.tidy
    · exact hbased.tidy

theorem based_ensureDirectories (p : Path) (count : Nat) (t : FileTree) :
    Keeping Based (Grows fun _ => True) t (ensureDirectories p count t).2 :=
  related_ensureDirectories (P := fun _ => True) (fun _ _ => trivial)
    (fun p t _ hbased => ⟨hbased.makeDirectory p, makeDirectory_grows p t⟩) trivial count t

/-- The path of a directory that was ensured leads to a directory. -/
theorem exists_locate_of_ensureDirectory (hbased : t.Based)
    (h : ensureDirectory p t = (.ok (), t')) :
    holdsNull p = false ∧ ∃ dest, t'.locate true p = .ok (dest, some .directory) := by
  obtain ⟨hnull, ⟨hthere, rfl⟩ | ⟨dest, hlocate, rfl⟩⟩ := ensureDirectory_cases h
  · exact ⟨hnull, (isDirectory_eq_true_iff.1 hthere).2⟩
  · refine ⟨hnull, dest, ?_⟩
    obtain ⟨hnone, hfounded⟩ := hbased.founded_of_locate hlocate
    rcases locate_eq_ok hlocate with ⟨⟨⟩⟩ | ⟨hplace, -⟩
    have hgrows : Grows (fun _ => True) t (t.put dest .directory) := .put_directory hplace hnone
    have hbased' := hbased.of_grows hgrows (hbased.tidy.put hplace hfounded fun _ => rfl)
    have hat : (t.put dest .directory).at? dest = some .directory := by
      rw [at?_put hplace, if_pos rfl]
    have hstart : (t.put dest .directory).startOf p = t.startOf p := rfl
    refine locate_true_of_false ?_ fun _ _ => nofun
    have hwalk := hgrows.keeps.walk hbased'.tidy (hstart ▸ hbased'.directory_startOf p)
      (walk_of_locate_path hlocate) fun _ => nofun
    unfold locate at hlocate ⊢
    split at hlocate
    · cases hlocate
    · -- The walk ends in the same place as before, where the directory now stands.
      rename_i hshort
      rw [if_neg hshort, hstart, hwalk, hat]

theorem exists_locate_of_makeDirectories (hbased : t.Based)
    (h : makeDirectories p t = (.ok (), t')) :
    holdsNull p = false ∧ ∃ dest, t'.locate true p = .ok (dest, some .directory) := by
  rw [makeDirectories] at h
  cases hcount : p.parts.length with
  | zero =>
      rw [hcount] at h
      exact exists_locate_of_ensureDirectory hbased h
  | succ count =>
      rw [hcount, ensureDirectories] at h
      obtain ⟨result, t₁, hfirst⟩ : ∃ result t₁, ensureDirectory p t = (result, t₁) := ⟨_, _, rfl⟩
      cases result with
      | ok a =>
          rw [tryCatch_apply_of_ok _ hfirst] at h
          exact exists_locate_of_ensureDirectory hbased (hfirst.trans h)
      | error fault =>
          rw [tryCatch_apply_of_error _ hfirst] at h
          split at h
          · -- Something above was missing: once that is made, the directory is tried once more.
            obtain ⟨-, rfl⟩ := ensureDirectory_of_notFound hfirst
            obtain ⟨_, t₂, hparents, hlast⟩ := exists_of_bind_apply h
            obtain ⟨hbased', -⟩ := based_ensureDirectories p.parent count t₁ hbased
            rw [hparents] at hbased'
            exact exists_locate_of_ensureDirectory hbased' hlast
          · cases h

/-! ### Where the path resolves to -/

/-- A path resolves to where its components lead, and no link is on the way there. -/
theorem Based.resolve_of_leads (hbased : t.Based) (hdot : "." ∉ p.parts)
    (hnull : holdsNull p = false) {depth : Nat}
    (hleads : t.Leads depth (t.startOf p) p.parts root) :
    t.resolve p = .ok root ∧ t.Plain root := by
  obtain ⟨met, hfollow⟩ := follow_of_leads hleads
  have hnoDot : "." ∉ (t.follow t.linkCount [] (t.startOf p) p.parts).place :=
    (noDot_follow (hbased.dotless_startOf p).noDot hdot (by simp [NoDotIn, Table.get?])).1
  rw [hfollow] at hnoDot
  have hdotless : Dotless root := ⟨hnoDot, hleads.noDots (hbased.dotless_startOf p).noDots⟩
  have hplain := hleads.plain (hbased.plain_startOf p)
  refine ⟨resolve_of_follow hnull ?_ (locate_ne_tooManyLinks hplain hdotless), hplain⟩
  rw [hfollow, Path.normalize_of_noDots [] hdotless.noDots, List.nil_append]

/-- A path that gets to a directory resolves to it, and no link is on the way. -/
theorem Based.resolve_of_locate (hbased : t.Based) (hdot : "." ∉ p.parts)
    (hnull : holdsNull p = false) (h : t.locate true p = .ok (root, some .directory)) :
    t.resolve p = .ok root ∧ t.Plain root := by
  obtain ⟨depth, hleads⟩ := leads_of_walk (walk_of_locate_path h) fun _ => nofun
  have hparts : p.parts.filter (· ≠ ".") = p.parts :=
    List.filter_eq_self.2 fun name hname => by
      simpa using fun heq : name = "." => hdot (heq ▸ hname)
  rw [hparts] at hleads
  exact hbased.resolve_of_leads hdot hnull hleads

/-- With the same links, a path resolves as it did to a place without links on the way. -/
theorem Grows.resolve_iff {P : String → Prop} (hgrows : Grows P t t') (hbased : t.Based)
    (hbased' : t'.Based) (hdot : "." ∉ p.parts) (hplain : t.Plain root) :
    t.resolve p = .ok root ↔ t'.resolve p = .ok root := by
  have hlinks (place : Location) (target : String) :
      t.at? place = some (.link target) ↔ t'.at? place = some (.link target) :=
    ((hgrows.becomes place).link_iff target).symm
  have hstart : t'.startOf p = t.startOf p := by
    unfold startOf
    rw [hgrows.here]
  have hdotless {s : FileTree} (hs : s.Based) (h : s.resolve p = .ok root) : Dotless root :=
    dotless_of_resolve h (hs.dotless_startOf p).noDot hdot
  constructor
  · intro h
    exact resolve_of_links hbased.tidy hbased'.tidy hlinks hstart h
      (locate_ne_tooManyLinks (hgrows.plain hplain) (hdotless hbased h))
  · intro h
    exact resolve_of_links hbased'.tidy hbased.tidy (fun place target => (hlinks place target).symm)
      hstart.symm h (locate_ne_tooManyLinks hplain (hdotless hbased' h))

/-- A directory that was made under a path is where the path resolves to, and resolved to before. -/
theorem Based.resolve_of_makeDirectories (hbased : t.Based) (hdot : "." ∉ p.parts)
    (h : makeDirectories p t = (.ok (), t')) :
    ∃ root, t.resolve p = .ok root ∧ t.Plain root ∧ t'.Based ∧ Grows (fun _ => True) t t' := by
  obtain ⟨hnull, root, hlocate⟩ := exists_locate_of_makeDirectories hbased h
  obtain ⟨hbased', hgrows⟩ := based_ensureDirectories p p.parts.length t hbased
  rw [makeDirectories] at h
  rw [h] at hbased' hgrows
  obtain ⟨hresolve, hplain⟩ := hbased'.resolve_of_locate hdot hnull hlocate
  have hplain' : t.Plain root := fun upper hupper target hlink =>
    hplain upper hupper target (((hgrows.becomes upper).link_iff target).2 hlink)
  exact ⟨root, (hgrows.resolve_iff hbased hbased' hdot hplain').2 hresolve, hplain', hbased',
    hgrows⟩

end NatSpec.FileTree
