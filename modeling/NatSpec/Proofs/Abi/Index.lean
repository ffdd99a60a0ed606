import NatSpec.Abi.Index
import NatSpec.Proofs.Except
import NatSpec.Proofs.Members.Records

/-!
What holds of every index of an ABI: its records are objects, its keys are distinct, and each of
them has an opening bracket, as signatures do.
-/

namespace NatSpec.Abi

theorem exists_fieldsOf {member : Json} {fields : Fields} (h : fieldsOf member = .ok fields) :
    member = .obj fields := by
  cases member with
  | obj fields' => exact congrArg Json.obj (Except.ok.inj h)
  | _ => cases h

theorem texts_map_str (parts : List String) : texts (parts.map Json.str) = .ok parts := by
  induction parts with
  | nil => rfl
  | cons s parts ih => simp [texts, ih, bind, Except.bind]

theorem texts_eq_ok_iff {types : List Json} {parts : List String} :
    texts types = .ok parts ↔ types = parts.map .str := by
  constructor
  · intro h
    induction types generalizing parts with
    | nil =>
        obtain rfl := Except.ok.inj h
        rfl
    | cons v types ih =>
        cases v with
        | str s =>
            obtain ⟨rest, hrest, h⟩ := bind_eq_ok_iff.1 h
            obtain rfl := Except.ok.inj h
            rw [List.map_cons, ih hrest]
        | _ => cases h
  · rintro rfl
    exact texts_map_str parts

/-- A signature is the name of its member, then the inputs in brackets. -/
theorem exists_signature {member : Fields} {s : String} (h : signature member = .ok s) :
    ∃ inputs, s = (nameOf member).display ++ parenthesized inputs := by
  unfold signature at h
  obtain ⟨types, -, h⟩ := bind_eq_ok_iff.1 h
  obtain ⟨inputs, -, h⟩ := bind_eq_ok_iff.1 h
  exact ⟨inputs, (Except.ok.inj h).symm⟩

theorem bracket_mem_signature {member : Fields} {s : String} (h : signature member = .ok s) :
    '(' ∈ s.toList := by
  obtain ⟨inputs, rfl⟩ := exists_signature h
  simp [parenthesized]

namespace Index

/-- The records of an index are objects under distinct signatures. -/
structure Sound (index : Index) : Prop where
  records : ∃ records, index.members = Members.ofRecords records
  distinct : (Table.keys index.members).Nodup
  bracket : ∀ key ∈ Table.keys index.members, '(' ∈ key.toList

theorem sound_empty : Sound ⟨[], []⟩ :=
  ⟨⟨[], rfl⟩, List.nodup_nil, fun _ h => absurd h List.not_mem_nil⟩

/-- What a further entry does to an index. -/
theorem exists_add {index next : Index} {entry : Json} (h : index.add entry = .ok next) :
    ∃ fields s, entry = .obj fields ∧ signature fields = .ok s ∧
      next.members = index.members.set s entry ∧
      next.duplicates =
        if index.members.contains s then index.duplicates ++ [s] else index.duplicates := by
  unfold add at h
  obtain ⟨s, hs, h⟩ := bind_eq_ok_iff.1 h
  unfold signatureOf at hs
  obtain ⟨fields, hfields, hs⟩ := bind_eq_ok_iff.1 hs
  obtain rfl := Except.ok.inj h
  exact ⟨fields, s, exists_fieldsOf hfields, hs, rfl, rfl⟩

theorem Sound.add {index next : Index} {entry : Json} (hi : index.Sound)
    (h : index.add entry = .ok next) : next.Sound := by
  obtain ⟨fields, s, rfl, hs, hmembers, -⟩ := exists_add h
  obtain ⟨records, hrecords⟩ := hi.records
  refine ⟨⟨records.set s fields, ?_⟩, ?_, ?_⟩
  · rw [hmembers, hrecords, Members.set_ofRecords]
  · rw [hmembers]
    exact Table.nodup_keys_set _ _ hi.distinct
  · intro key hkey
    rw [hmembers, Table.keys_set] at hkey
    split at hkey
    · exact hi.bracket key hkey
    · rcases List.mem_append.1 hkey with hkey | hkey
      · exact hi.bracket key hkey
      · obtain rfl := List.mem_singleton.1 hkey
        exact bracket_mem_signature hs

end Index

theorem sound_index {abi : Json} {index : Index} (h : Abi.index abi = .ok index) :
    index.Sound := by
  unfold Abi.index at h
  split at h
  · cases h
  · exact foldlM_keeps (fun _ _ _ hi => hi.add) h Index.sound_empty

end NatSpec.Abi
