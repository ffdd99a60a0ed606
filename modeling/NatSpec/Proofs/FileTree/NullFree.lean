import NatSpec.Proofs.FileTree.Ending

/-!
Names without null characters, which are all that a file system has. What is read from a text
without them has none, and in a tree without loops of links a path without them resolves to a place
whose names have none, as long as the targets of links have none.
-/

namespace NatSpec

/-- Between the separators stands the text without them. -/
theorem Text.flatten_splitOn (separator : Char) (text : List Char) :
    (splitOn separator text).flatten = text.filter (· ≠ separator) := by
  induction text with
  | nil => rfl
  | cons first text ih =>
      rw [splitOn]
      split
      · rename_i hfirst
        rw [List.flatten_cons, List.nil_append, ih, List.filter_cons_of_neg (by simpa using hfirst)]
      · rename_i hfirst
        rw [List.filter_cons_of_pos (by simpa using hfirst), ← ih]
        split
        · rename_i hsplit
          rw [hsplit]
          rfl
        · rename_i head rest hsplit
          rw [hsplit]
          rfl

theorem Text.exists_mem_splitOn_iff {separator c : Char} {text : List Char} :
    (∃ part ∈ splitOn separator text, c ∈ part) ↔ c ∈ text ∧ c ≠ separator := by
  rw [← List.mem_flatten, flatten_splitOn, List.mem_filter, decide_eq_true_iff]

namespace FileTree

/-- Names without null characters. -/
def NullFree (parts : List String) : Prop :=
  ∀ part ∈ parts, '\x00' ∉ part.toList

variable {t : FileTree} {p : Path} {place dest : Location} {parts others : List String}

theorem holdsNull_eq_false_iff : holdsNull p = false ↔ NullFree p.parts := by
  refine ⟨fun h part hpart => ?_, holdsNull_eq_false⟩
  rw [holdsNull, List.any_eq_false] at h
  simpa using h part hpart

theorem NullFree.of_subset (h : NullFree parts) (hsubset : others ⊆ parts) : NullFree others :=
  fun part hpart => h part (hsubset hpart)

theorem NullFree.append (h : NullFree parts) (hothers : NullFree others) :
    NullFree (parts ++ others) :=
  List.forall_mem_append.2 ⟨h, hothers⟩

theorem nullFree_components_iff {text : List Char} :
    NullFree (Path.components text) ↔ '\x00' ∉ text := by
  constructor
  · intro h hnull
    obtain ⟨chars, hchars, hmem⟩ := Text.exists_mem_splitOn_iff.2
      (⟨hnull, by decide⟩ : '\x00' ∈ text ∧ '\x00' ≠ '/')
    have hpart : '\x00' ∈ (String.ofList chars).toList := by rwa [String.toList_ofList]
    have hne (part : String) (hfree : '\x00' ∉ part.toList) : String.ofList chars ≠ part :=
      fun heq => hfree (heq ▸ hpart)
    exact h _ (List.mem_filter.2 ⟨List.mem_map_of_mem hchars,
      decide_eq_true ⟨hne "" (by decide), hne "." (by decide)⟩⟩) hpart
  · intro h part hpart hnull
    obtain ⟨chars, hchars, rfl⟩ := List.mem_map.1 (List.mem_of_mem_filter hpart)
    rw [String.toList_ofList] at hnull
    exact h (Text.exists_mem_splitOn_iff.1 ⟨chars, hchars, hnull⟩).1

theorem NullFree.div_iff (h : NullFree p.parts) {text : String} :
    NullFree (p / text).parts ↔ '\x00' ∉ text.toList := by
  rw [← nullFree_components_iff, Path.div_eq, Path.join]
  split
  · exact ⟨fun hboth => hboth.of_subset (List.subset_append_right _ _), h.append⟩
  · rfl

theorem NullFree.join (h : NullFree p.parts) {other : Path} (hother : NullFree other.parts) :
    NullFree (p.join other).parts := by
  rw [Path.join]
  split
  · exact h.append hother
  · exact hother

theorem NullFree.div (h : NullFree p.parts) {text : String} (htext : '\x00' ∉ text.toList) :
    NullFree (p / text).parts :=
  h.div_iff.2 htext

theorem Sound.nullFree (hsound : t.Sound) {entry : Entry} (h : t.at? place = some entry) :
    NullFree place :=
  fun _ hpart => (hsound.isName_of_mem h hpart).noNull

theorem Sound.nullFree_startOf (hsound : t.Sound) (p : Path) : NullFree (t.startOf p) :=
  hsound.nullFree (hsound.based.directory_startOf p)

/-- Components without null characters lead to a place without them. -/
theorem Leads.nullFree {depth : Nat} (h : t.Leads depth place parts dest)
    (htargets : ∀ place target, t.at? place = some (.link target) → '\x00' ∉ target.toList)
    (hplace : NullFree place) (hparts : NullFree parts) : NullFree dest := by
  induction h with
  | done => exact hplace
  | up _ ih =>
      exact ih (hplace.of_subset (List.dropLast_subset _))
        (hparts.of_subset (List.subset_cons_self _ _))
  | step _ _ _ ih =>
      obtain ⟨hname, hrest⟩ := List.forall_mem_cons.1 hparts
      exact ih (hplace.append (List.forall_mem_singleton.2 hname)) hrest
  | link _ hlink _ _ ihTarget ihRest =>
      refine ihRest (ihTarget ?_ (nullFree_components_iff.2 (htargets _ _ hlink)))
        (hparts.of_subset (List.subset_cons_self _ _))
      unfold targetStart
      split
      · exact hplace
      · exact List.forall_mem_nil _

theorem nullFree_of_resolve (h : t.resolve p = .ok place) : NullFree p.parts := by
  unfold resolve at h
  split at h
  · cases h
  · rename_i hnull
    exact holdsNull_eq_false_iff.1 (Bool.eq_false_iff.2 hnull)

/-- In a tree without loops every path resolves to where its components lead. -/
theorem LoopFree.exists_resolve (hloop : t.LoopFree) (hbased : t.Based) (hdot : "." ∉ p.parts)
    (hnull : NullFree p.parts) :
    ∃ place depth, t.resolve p = .ok place ∧ t.Leads depth (t.startOf p) p.parts place := by
  obtain ⟨depth, dest, hleads⟩ := hloop.exists_leads (t.startOf p) p.parts
  exact ⟨dest, depth, (hbased.resolve_of_leads hdot (holdsNull_eq_false_iff.2 hnull) hleads).1,
    hleads⟩

end FileTree

end NatSpec
