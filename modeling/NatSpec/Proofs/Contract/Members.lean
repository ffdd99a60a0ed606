import NatSpec.Proofs.Abi.Repeats
import NatSpec.Proofs.Contract.Faults
import NatSpec.Proofs.Members.Merged

/-!
The members of a contract that was resolved. The record under a key is the entry of the ABI that the
index holds there, or one without fields, with the notes of both trees laid over it. Its kind is
that of the entry unless a note sets another, and a note on a state variable always does.
-/

namespace NatSpec

namespace Resolution

variable {contract : String} {fields : Fields} {strict : Bool} {doc : ContractDoc}

def notedVariables (r : Resolution contract fields strict doc) : List (String × Json) :=
  Members.notesIn r.trees.devdoc "stateVariables"

/-- What the notes of both trees set under a key. -/
def laid (r : Resolution contract fields strict doc) (key : String) : Fields :=
  Members.fieldsLaid r.trees.devdoc r.trees.userdoc r.index.members r.members key

/-- What is set under a key behind the notes on state variables. -/
def laidLater (r : Resolution contract fields strict doc) (key : String) : Fields :=
  Members.laterFields r.trees.devdoc r.trees.userdoc r.members key

theorem laid_eq (r : Resolution contract fields strict doc) (key : String) :
    r.laid key = (if key ∈ r.index.members.keys then
        Members.noteFields (Members.notesIn r.trees.devdoc "events") key else []) ++
      Members.variableFields r.notedVariables key ++ r.laidLater key := rfl

theorem merged (r : Resolution contract fields strict doc) :
    Members.Merged r.trees.devdoc r.trees.userdoc r.index.members r.members :=
  Members.merged_of_merge (Abi.sound_index r.indexed) (Abi.Index.annotated_eq_ok_iff.1 r.annotated)

theorem trees_eq (r : Resolution contract fields strict doc) {trees : Trees}
    (htrees : Trees.ofOutput contract fields = .ok trees) : r.trees = trees :=
  Except.ok.inj (r.placed.symm.trans htrees)

/-- What the passes gave is known once they are run. -/
theorem members_eq (r : Resolution contract fields strict doc) {trees : Trees} {index : Abi.Index}
    {members : Members} (htrees : Trees.ofOutput contract fields = .ok trees)
    (hindex : Abi.index (Json.field fields "abi") = .ok index)
    (hmembers : index.annotated trees = .ok members) : r.members = members := by
  obtain rfl := r.trees_eq htrees
  obtain rfl := Except.ok.inj (hindex.symm.trans r.indexed)
  exact Except.ok.inj (r.annotated.symm.trans hmembers)

theorem exists_record (r : Resolution contract fields strict doc) {key : String}
    (hkey : key ∈ r.members.keys) : ∃ base, (r.index.members.get? key).getD (.obj []) = .obj base ∧
      r.members.get? key = some (.obj (Table.overlay base (r.laid key))) :=
  r.merged.record key hkey

/-- What is under a key that is not in the ABI is the record of a state variable. -/
theorem exists_variable (r : Resolution contract fields strict doc) {key : String}
    (hkey : key ∈ r.members.keys) (hnew : key ∉ r.index.members.keys) :
    ∃ note ∈ r.notedVariables, Members.getter note.1 = key :=
  (r.merged.mem_keys_iff.1 hkey).resolve_left hnew

end Resolution

/-! ### The kind of a record -/

namespace Members

/-- The notes on a state variable end with its kind. -/
theorem exists_variableFields {notes : List (String × Json)} {note : String × Json}
    (h : note ∈ notes) : ∃ earlier, variableFields notes (getter note.1) =
      earlier ++ [(.text "type", .str stateVariableKind)] := by
  have hmem : note ∈ notes.filter fun other => getter other.1 = getter note.1 :=
    List.mem_filter.2 ⟨h, by simp⟩
  rcases List.eq_nil_or_concat (notes.filter fun other => getter other.1 = getter note.1) with
    hnone | ⟨earlier, last, hlast⟩
  · rw [hnone] at hmem
    cases hmem
  · rw [variableFields, hlast, List.concat_eq_append, List.flatMap_append, List.flatMap_singleton,
      ← List.append_assoc]
    exact ⟨_, rfl⟩

theorem mem_variableFields {notes : List (String × Json)} {note : String × Json}
    (h : note ∈ notes) {change : Json.Key × Json} (hchange : change ∈ note.2.changes) :
    change ∈ variableFields notes (getter note.1) :=
  List.mem_flatMap.2 ⟨note, List.mem_filter.2 ⟨h, by simp⟩, List.mem_append_left _ hchange⟩

end Members

theorem Abi.kindOf_congr {member other : Fields}
    (h : Json.field member "type" = Json.field other "type") : kindOf member = kindOf other := by
  rw [kindOf, kindOf, h]

namespace Resolution

variable {contract : String} {fields : Fields} {strict : Bool} {doc : ContractDoc}

/-- The record of a state variable has its kind if no later note sets another one. -/
theorem kindOf_variable (r : Resolution contract fields strict doc) {note : String × Json}
    (hnote : note ∈ r.notedVariables)
    (hlater : ¬Members.Sets (r.laidLater (Members.getter note.1)) "type") (base : Fields) :
    Abi.kindOf (Table.overlay base (r.laid (Members.getter note.1))) =
      .str Members.stateVariableKind := by
  obtain ⟨earlier, hearlier⟩ := Members.exists_variableFields hnote
  have htype : Json.field (Table.overlay base (r.laid (Members.getter note.1))) "type" =
      .str Members.stateVariableKind := by
    rw [r.laid_eq, hearlier, Table.overlay_append, Members.field_overlay_of_not_sets hlater,
      ← List.append_assoc, Table.overlay_append, Json.field]
    change ((Table.set _ _ _).get? _).getD _ = _
    rw [Table.get?_set_self, Option.getD_some]
  rw [Abi.kindOf, htype]
  rfl

end Resolution

end NatSpec
