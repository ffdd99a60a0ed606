import NatSpec.FileTree.Path
import NatSpec.Proofs.Text.Search

/-!
Components of paths. No path that is read from a text holds a single dot, and none that is
normalized holds double dots. A text all of whose parts between slashes are proper names is read as
these parts.
-/

namespace NatSpec.Path

theorem noDot_components (text : List Char) : "." ∉ components text := by
  simp [components]

theorem noDot_ofString (text : String) : "." ∉ (ofString text).parts :=
  noDot_components text.toList

theorem noDot_join {base p : Path} (hbase : "." ∉ base.parts) (hp : "." ∉ p.parts) :
    "." ∉ (base.join p).parts := by
  unfold join
  split
  · rw [List.mem_append, not_or]
    exact ⟨hbase, hp⟩
  · exact hp

theorem div_eq (base : Path) (text : String) : base / text = base.join (ofString text) := rfl

theorem noDot_div {base : Path} (hbase : "." ∉ base.parts) (text : String) :
    "." ∉ (base / text).parts :=
  noDot_join hbase (noDot_ofString text)

theorem mem_normalize {base parts : List String} {part : String}
    (h : part ∈ normalize base parts) : part ∈ base ∨ part ∈ parts := by
  induction parts generalizing base with
  | nil => exact .inl h
  | cons first parts ih =>
      rw [normalize] at h
      split at h
      · rcases ih h with hbase | hparts
        · exact .inl (base.dropLast_prefix.subset hbase)
        · exact .inr (List.mem_cons_of_mem _ hparts)
      · rcases ih h with hbase | hparts
        · rcases List.mem_append.1 hbase with hbase | hfirst
          · exact .inl hbase
          · obtain rfl := List.mem_singleton.1 hfirst
            exact .inr (List.mem_cons_self ..)
        · exact .inr (List.mem_cons_of_mem _ hparts)

theorem noDots_normalize {base : List String} (hbase : ".." ∉ base) (parts : List String) :
    ".." ∉ normalize base parts := by
  induction parts generalizing base with
  | nil => exact hbase
  | cons first parts ih =>
      rw [normalize]
      split
      · exact ih fun hmem => hbase (base.dropLast_prefix.subset hmem)
      · rename_i hfirst
        refine ih ?_
        rw [List.mem_append, List.mem_singleton, not_or]
        exact ⟨hbase, Ne.symm hfirst⟩

/-- Components without double dots are normal already. -/
theorem normalize_of_noDots (base : List String) {parts : List String} (h : ".." ∉ parts) :
    normalize base parts = base ++ parts := by
  induction parts generalizing base with
  | nil => rw [normalize, List.append_nil]
  | cons first parts ih =>
      rw [List.mem_cons, not_or] at h
      rw [normalize, if_neg (Ne.symm h.1), ih _ h.2, List.append_assoc, List.singleton_append]

/-! ### Parts between slashes -/

def slashParts (text : String) : List String :=
  (Text.splitOn '/' text.toList).map String.ofList

/-- Parts without slashes come back when they are joined with slashes. -/
theorem slashParts_intercalate {parts : List String} (hne : parts ≠ [])
    (hslash : ∀ part ∈ parts, '/' ∉ part.toList) : slashParts ("/".intercalate parts) = parts := by
  have hjoin : ("/".intercalate parts).toList = ['/'].intercalate (parts.map String.toList) :=
    String.toList_intercalate
  rw [slashParts, Text.splitOn_eq, hjoin, List.splitOn_intercalate]
  · simp
  · simpa using hslash
  · simpa using hne

theorem intercalate_slashParts (text : String) : "/".intercalate (slashParts text) = text := by
  have hparts : (slashParts text).map String.toList = text.toList.splitOn '/' := by
    simp [slashParts, Text.splitOn_eq]
  rw [← String.toList_inj, String.toList_intercalate, hparts]
  exact List.intercalate_splitOn '/'

theorem ofString_eq {text : String} (h : ∀ part ∈ slashParts text, part ≠ "" ∧ part ≠ ".") :
    ofString text = ⟨.here, slashParts text⟩ := by
  have hparts : components text.toList = slashParts text :=
    List.filter_eq_self.2 fun part hpart => decide_eq_true (h part hpart)
  have hstart : startOf text.toList = .here := by
    cases hlist : text.toList with
    | nil => rfl
    | cons c rest =>
        by_cases hslash : c = '/'
        · have hempty : "" ∈ slashParts text := by
            rw [slashParts, hlist, Text.splitOn, if_pos hslash]
            exact List.mem_cons_self ..
          exact absurd rfl (h "" hempty).1
        · rw [startOf]
          all_goals simp_all
  rw [ofString, hparts, hstart]

theorem ofString_intercalate {parts : List String} (hne : parts ≠ [])
    (h : ∀ part ∈ parts, '/' ∉ part.toList ∧ part ≠ "" ∧ part ≠ ".") :
    ofString ("/".intercalate parts) = ⟨.here, parts⟩ := by
  have hparts := slashParts_intercalate hne fun part hpart => (h part hpart).1
  rw [ofString_eq, hparts]
  rw [hparts]
  exact fun part hpart => (h part hpart).2

/-- A path is not longer than one that goes on from it. -/
theorem size_ofTop_le (upper rest : List String) :
    (ofTop upper).toString.utf8ByteSize ≤ (ofTop (upper ++ rest)).toString.utf8ByteSize := by
  simp only [toString, ofTop, reduceCtorEq, false_and, if_false, String.utf8ByteSize_append]
  refine Nat.add_le_add_left ?_ _
  by_cases hnil : upper = []
  · simp [hnil]
  · by_cases hrest : rest = []
    · simp [hrest]
    · rw [String.intercalate_append_of_ne_nil hnil hrest]
      simp only [String.utf8ByteSize_append]
      omega

end NatSpec.Path
