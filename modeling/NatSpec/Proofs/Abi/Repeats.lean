import NatSpec.Proofs.Abi.Index

/-!
What the index of an ABI makes of its entries. Each signature stands where it first occurs and holds
the last entry that has it; each occurrence behind the first is reported. So no entry is lost without
being counted: as many are held or reported as there are.
-/

namespace NatSpec.Abi

open Table (eraseDups_concat)

/-- The values of a list that stand before in it already, in their order. -/
def repeats (values : List String) : List String :=
  (values.zipIdx.filter fun entry => entry.1 ∈ values.take entry.2).map Prod.fst

theorem repeats_concat (values : List String) (s : String) :
    repeats (values ++ [s]) = if s ∈ values then repeats values ++ [s] else repeats values := by
  have hbefore : values.zipIdx.filter (fun entry => entry.1 ∈ (values ++ [s]).take entry.2) =
      values.zipIdx.filter fun entry => entry.1 ∈ values.take entry.2 := by
    refine List.filter_congr fun entry hentry => ?_
    have hlt : entry.2 < values.length := by simpa using List.snd_lt_of_mem_zipIdx hentry
    rw [List.take_append_of_le_length (Nat.le_of_lt hlt)]
  rw [repeats, List.zipIdx_append, List.filter_append, List.map_append, hbefore]
  by_cases h : s ∈ values <;> simp [repeats, h]

/-- All occurrences of a value are repeats but the first. -/
theorem count_repeats (values : List String) (s : String) :
    (repeats values).count s = values.count s - 1 := by
  induction values using List.reverseRecOn with
  | nil => rfl
  | append_singleton values a ih =>
      rw [repeats_concat, List.count_append]
      by_cases hs : a = s
      · subst hs
        split
        · rename_i hmem
          have hpos : 0 < values.count a := List.count_pos_iff.2 hmem
          rw [List.count_append, ih, List.count_singleton_self]
          omega
        · rename_i hnew
          rw [ih, List.count_eq_zero.2 hnew, List.count_singleton_self]
      · split <;> simp [ih, hs]

theorem length_repeats (values : List String) :
    (repeats values).length + values.eraseDups.length = values.length := by
  induction values using List.reverseRecOn with
  | nil => rfl
  | append_singleton values a ih =>
      rw [repeats_concat, eraseDups_concat, List.length_append]
      by_cases hmem : a ∈ values
      · simp [hmem]
        omega
      · simp [hmem]
        omega

theorem repeats_eq_nil_iff {values : List String} : repeats values = [] ↔ values.Nodup := by
  rw [List.nodup_iff_count_le_one, List.eq_nil_iff_forall_not_mem]
  refine forall_congr' fun s => ?_
  rw [← List.count_eq_zero, count_repeats]
  omega

variable {entries : List Json} {index : Index}

theorem indexEntries_of_index {abi : Json} (h : Abi.index abi = .ok index) :
    ∃ entries, abi.elements? = some entries ∧ indexEntries entries = .ok index := by
  unfold Abi.index at h
  split at h
  · cases h
  · exact ⟨_, ‹_›, h⟩

/-- An index has the signatures of its entries where they first occur, and reports the others. -/
theorem exists_signatures (h : indexEntries entries = .ok index) :
    ∃ signatures, entries.mapM signatureOf = .ok signatures ∧
      index.members.keys = signatures.eraseDups ∧ index.duplicates = repeats signatures := by
  simp only [mapM_eq_ok_iff]
  refine foldlM_keeps_behind (I := fun done index => ∃ signatures,
    List.Forall₂ (fun entry s => signatureOf entry = .ok s) done signatures ∧
      index.members.keys = signatures.eraseDups ∧ index.duplicates = repeats signatures) ?_ h
    ⟨[], .nil, rfl, rfl⟩
  rintro done entry - - index next ⟨signatures, hsignatures, hkeys, hduplicates⟩ hnext
  obtain ⟨fields, s, rfl, hs, hmembers, hreported⟩ := Index.exists_add hnext
  have hmem : index.members.contains s = true ↔ s ∈ signatures := by
    rw [Table.contains_iff, hkeys, List.mem_eraseDups]
  refine ⟨signatures ++ [s], List.rel_append hsignatures (.cons hs .nil), ?_, ?_⟩
  · rw [hmembers, Table.keys_set, hkeys, eraseDups_concat]
    simp only [hmem, List.elem_iff]
  · rw [hreported, hduplicates, repeats_concat]
    simp only [hmem]

/-- An index has the signatures of its entries and no other keys. -/
theorem mem_keys_index_iff (h : indexEntries entries = .ok index) {s : String} :
    s ∈ index.members.keys ↔ ∃ entry ∈ entries, signatureOf entry = .ok s := by
  obtain ⟨signatures, hsignatures, hkeys, -⟩ := exists_signatures h
  rw [mapM_eq_ok_iff] at hsignatures
  rw [hkeys, List.mem_eraseDups]
  constructor
  · exact exists_left_of_forall₂ hsignatures
  · rintro ⟨entry, hentry, hs⟩
    obtain ⟨s', hmem, hs'⟩ := exists_right_of_forall₂ hsignatures hentry
    obtain rfl := Except.ok.inj (hs.symm.trans hs')
    exact hmem

theorem exists_signatureOf (h : indexEntries entries = .ok index) {entry : Json}
    (hentry : entry ∈ entries) : ∃ s, signatureOf entry = .ok s := by
  obtain ⟨signatures, hsignatures, -⟩ := exists_signatures h
  obtain ⟨s, -, hs⟩ := exists_right_of_forall₂ (mapM_eq_ok_iff.1 hsignatures) hentry
  exact ⟨s, hs⟩

/-- What an index holds under a signature is an entry that has it. -/
theorem of_get?_index (h : indexEntries entries = .ok index) {s : String} {entry : Json}
    (hget : index.members.get? s = some entry) : entry ∈ entries ∧ signatureOf entry = .ok s := by
  refine foldlM_keeps_behind (I := fun done index => ∀ s entry,
    Table.get? index.members s = some entry → entry ∈ done ∧ signatureOf entry = .ok s) ?_ h
    (fun _ _ hnone => by cases hnone) s entry hget
  intro done entry _ _ index next hindex hnext s' held hheld
  obtain ⟨fields, s, rfl, hs, hmembers, -⟩ := Index.exists_add hnext
  rw [hmembers, Table.get?_set] at hheld
  split at hheld
  · rename_i hkey
    obtain rfl := eq_of_beq hkey
    obtain rfl := Option.some.inj hheld
    exact ⟨List.mem_append_right _ List.mem_cons_self, hs⟩
  · obtain ⟨hmem, hsame⟩ := hindex s' held hheld
    exact ⟨List.mem_append_left _ hmem, hsame⟩

theorem exists_add_of_indexEntries {before after : List Json} {entry : Json}
    (h : indexEntries (before ++ entry :: after) = .ok index) :
    ∃ earlier next : Index, indexEntries before = .ok earlier ∧ earlier.add entry = .ok next ∧
      after.foldlM Index.add next = .ok index := by
  rw [indexEntries, List.foldlM_append, bind_eq_ok_iff] at h
  obtain ⟨earlier, hearlier, h⟩ := h
  rw [List.foldlM_cons, bind_eq_ok_iff] at h
  obtain ⟨next, hnext, hafter⟩ := h
  exact ⟨earlier, next, hearlier, hnext, hafter⟩

/-- Of the entries with one signature an index holds the last. -/
theorem get?_index_of_last {before after : List Json} {entry : Json} {s : String}
    (h : indexEntries (before ++ entry :: after) = .ok index) (hs : signatureOf entry = .ok s)
    (hlast : ∀ later ∈ after, signatureOf later ≠ .ok s) : index.members.get? s = some entry := by
  obtain ⟨earlier, next, -, hnext, hafter⟩ := exists_add_of_indexEntries h
  refine foldlM_keeps_of_mem (I := fun index => Table.get? index.members s = some entry) ?_ hafter ?_
  · intro index later hlater next hget hnext
    obtain ⟨fields, other, rfl, hother, hmembers, -⟩ := Index.exists_add hnext
    have hne : other ≠ s := by
      rintro rfl
      exact hlast _ hlater hother
    rw [hmembers, Table.get?_set, if_neg (by simpa using hne), hget]
  · obtain ⟨fields, other, rfl, hother, hmembers, -⟩ := Index.exists_add hnext
    obtain rfl := Except.ok.inj (hs.symm.trans hother)
    rw [hmembers, Table.get?_set_self]

end NatSpec.Abi
