import NatSpec.Proofs.Members.Layers
import NatSpec.Proofs.Members.Pass

/-!
Merging the same trees again. The second merge finds the records that the notes on state variables
made, so notes on events that were lost the first time may now hit. The main statement says when the
second merge changes anything: just when such a note sets a field that its record lacks. After the
second merge no further one changes anything.
-/

namespace NatSpec.Members

/-! ### Running edits again -/

/-- All keys for which edits make a record are there after the edits. -/
theorem keys_run_run (edits : List Edit) (records : Records) :
    (run edits (run edits records)).keys = (run edits records).keys :=
  keys_run_of_mem fun _ hedit hmakes => mem_keys_run hedit hmakes records

/-- A record that is there takes the same edits once only. -/
theorem edited_edited_some (edits : List Edit) (fields : Fields) :
    edited edits (edited edits (some fields)) = edited edits (some fields) := by
  rw [edited_some, edited_some, Table.overlay_overlay]

theorem get?_run_run_of_mem (edits : List Edit) {records : Records} {key : String}
    (h : key ∈ records.keys) :
    (run edits (run edits records)).get? key = (run edits records).get? key := by
  obtain ⟨fields, hfields⟩ := Table.exists_get?_of_mem_keys h
  rw [get?_run, get?_run, hfields, edited_edited_some]

/-- Behind the second run all records are there, so a third run changes nothing. -/
theorem run_run_run (edits : List Edit) {records : Records} (h : records.keys.Nodup) :
    run edits (run edits (run edits records)) = run edits (run edits records) := by
  have hkeys := keys_run_run edits records
  refine Table.eq_of_get? (keys_run_run edits _)
    (nodup_keys_run edits (nodup_keys_run edits (nodup_keys_run edits h))) fun key hkey => ?_
  rw [keys_run_run, hkeys] at hkey
  exact get?_run_run_of_mem edits hkey

namespace Pass

variable {pass : Pass} {devdoc userdoc : Json} {members : Members}

theorem Of.makes_devEvents (h : pass.Of devdoc userdoc members) (key : String) :
    ∀ edit ∈ editsOf pass.devEvents key, edit.makes = false :=
  fun edit hedit => makes_of_sectionEdits h.devEvents edit (List.mem_of_mem_filter hedit)

theorem Of.makes_devVariables (h : pass.Of devdoc userdoc members) :
    ∀ edit ∈ pass.devVariables, edit.makes = true := by
  intro edit hedit
  obtain ⟨note, -, hnote⟩ := exists_left_of_forall₂ (forall₂_of_sectionEdits h.devVariables) hedit
  exact makes_of_variableEdit hnote

/-- The edits of a key behind the notes on events. -/
def madeBy (pass : Pass) (key : String) : List Edit :=
  editsOf (pass.devVariables ++ pass.closing) key

theorem editsOf_edits (pass : Pass) (key : String) :
    editsOf pass.edits key = editsOf pass.devEvents key ++ pass.madeBy key := by
  rw [edits, opening, madeBy, List.append_assoc, editsOf_append]

/-- A record that the merge makes is made by a note on a state variable, so it holds what is set
from there on. -/
theorem Of.get?_new (h : pass.Of devdoc userdoc members) {records : Records} {key : String}
    {fields : Fields} (hnew : key ∉ records.keys)
    (hget : (run pass.edits records).get? key = some fields) :
    fields = Table.ofList (fieldsSet (pass.madeBy key)) := by
  rw [get?_run, Table.get?_eq_none_iff.2 hnew, editsOf_edits, edited_append,
    edited_none (h.makes_devEvents key), madeBy, editsOf_append] at hget
  cases hvariables : editsOf pass.devVariables key with
  | nil =>
      -- Without a note on a state variable nothing makes the record.
      rw [hvariables, List.nil_append, edited_none] at hget
      · cases hget
      · exact fun edit hedit => h.makes_closing edit (List.mem_of_mem_filter hedit)
  | cons edit rest =>
      have hmem : edit ∈ pass.devVariables :=
        List.mem_of_mem_filter (hvariables ▸ List.mem_cons_self)
      rw [hvariables, List.cons_append, edited_cons_of_makes _ (h.makes_devVariables edit hmem)]
        at hget
      rw [madeBy, editsOf_append, hvariables, List.cons_append, Option.some.inj hget]

/-- The edits are those of a merge into its own result as well. -/
theorem Of.again {records : Records}
    (h : pass.Of devdoc userdoc (ofRecords (run pass.opening records))) :
    pass.Of devdoc userdoc (ofRecords (run pass.opening (run pass.edits records))) := by
  refine h.congr ?_
  have hsame : (run pass.opening (run pass.edits records)).keys = (run pass.edits records).keys :=
    keys_run_of_mem fun edit hedit hmakes =>
      mem_keys_run (List.mem_append_left _ hedit) hmakes records
  rw [keys_ofRecords, keys_ofRecords, hsame, h.keys_run_edits]

/-- A new record is the same after a second run just when the notes on events that were lost on it
name fields of it only. -/
theorem Of.get?_run_run_iff (h : pass.Of devdoc userdoc members) {records : Records} {key : String}
    {fields : Fields} (hnew : key ∉ records.keys)
    (hget : (run pass.edits records).get? key = some fields) :
    (run pass.edits (run pass.edits records)).get? key = some fields ↔
      ∀ note ∈ notesIn devdoc "events", note.1 = key →
        ∀ change ∈ note.2.changes, fields.contains change.1 = true := by
  rw [get?_run, hget, edited_some, editsOf_edits, fieldsSet_append, Option.some.injEq,
    h.get?_new hnew hget, Table.overlay_below_iff,
    fieldsSet_noteEdits (forall₂_of_sectionEdits h.devEvents), noteFields, id]
  constructor
  · intro hall note hnote hkey change hchange
    exact hall change (List.mem_flatMap.2
      ⟨note, List.mem_filter.2 ⟨hnote, by simpa using hkey⟩, hchange⟩)
  · intro hall change hchange
    obtain ⟨note, hnote, hchange⟩ := List.mem_flatMap.1 hchange
    obtain ⟨hnote, hkey⟩ := List.mem_filter.1 hnote
    exact hall note hnote (by simpa using hkey) change hchange

theorem Of.run_run_eq_iff (h : pass.Of devdoc userdoc members) {records : Records}
    (hnodup : records.keys.Nodup) :
    run pass.edits (run pass.edits records) = run pass.edits records ↔
      ∀ note ∈ notesIn devdoc "events", note.1 ∉ records.keys →
        ∀ fields, (run pass.edits records).get? note.1 = some fields →
          ∀ change ∈ note.2.changes, fields.contains change.1 = true := by
  constructor
  · intro hsame note hnote hnew fields hget
    exact (h.get?_run_run_iff hnew hget).1 (by rw [hsame, hget]) note hnote rfl
  · intro hall
    refine Table.eq_of_get? (keys_run_run _ _)
      (nodup_keys_run _ (nodup_keys_run _ hnodup)) fun key hkey => ?_
    by_cases hold : key ∈ records.keys
    · exact get?_run_run_of_mem _ hold
    · rw [keys_run_run] at hkey
      obtain ⟨fields, hget⟩ := Table.exists_get?_of_mem_keys hkey
      rw [hget, h.get?_run_run_iff hold hget]
      rintro note hnote rfl
      exact hall note hnote hold fields hget

end Pass

theorem ofRecords_injective : Function.Injective ofRecords := by
  refine List.map_injective_iff.2 fun a b h => ?_
  obtain ⟨hkey, hfields⟩ := Prod.mk.inj h
  exact Prod.ext hkey (Json.obj.inj hfields)

/-- Merging the trees of a completed merge once more. It completes again and leaves the keys and the
records of the ABI's own members. It changes nothing at all just when no note on events that was
lost on a record made by the first merge names a field that this record lacks; a third merge changes
nothing in any case. -/
theorem merge_again {abi devdoc userdoc : Json} {index : Abi.Index} {merged : Members}
    (hindex : Abi.index abi = .ok index)
    (hmerge : merge devdoc userdoc index.members = (merged, none)) :
    ∃ again, merge devdoc userdoc merged = (again, none) ∧
      again.keys = merged.keys ∧
      (∀ key ∈ index.members.keys, Table.get? again key = Table.get? merged key) ∧
      (again = merged ↔
        ∀ note ∈ notesIn devdoc "events", note.1 ∉ index.members.keys →
          ∀ fields, Table.get? merged note.1 = some (.obj fields) →
            ∀ change ∈ note.2.changes, Table.contains fields change.1 = true) ∧
      merge devdoc userdoc again = (again, none) := by
  have hsound := Abi.sound_index hindex
  obtain ⟨records, hrecords⟩ := hsound.records
  have hnodup := hsound.distinct
  rw [hrecords] at hmerge hnodup ⊢
  rw [keys_ofRecords] at hnodup
  obtain ⟨pass, h, rfl⟩ := merge_iff.1 hmerge
  refine ⟨_, merge_iff.2 ⟨pass, h.again, rfl⟩, ?_, ?_, ?_, ?_⟩
  · rw [keys_ofRecords, keys_ofRecords, keys_run_run]
  · intro key hkey
    rw [keys_ofRecords] at hkey
    rw [get?_ofRecords, get?_ofRecords, get?_run_run_of_mem _ hkey]
  · rw [ofRecords_injective.eq_iff, h.run_run_eq_iff hnodup]
    simp only [keys_ofRecords, get?_ofRecords, Option.map_eq_some_iff, Json.obj.injEq,
      exists_eq_right]
  · exact merge_iff.2 ⟨pass, h.again.again, by rw [run_run_run _ hnodup]⟩

/-- Developer notes with one note on an event, whose key belongs to a state variable only. -/
def lostDevdoc (note : Fields) : Json :=
  .obj [("events", .obj [("owner()", .obj [("details", .str "lost")])]),
    ("stateVariables", .obj [("owner", .obj note)])]

/-- The note on the state variable sets what the lost note would. -/
theorem merge_again_sample :
    Abi.index (.arr (sampleAbi.map .obj)) = .ok sampleIndex ∧
      ∃ merged : Members,
        merge (lostDevdoc [("details", .str "kept")]) .null sampleIndex.members = (merged, none) ∧
        Table.get? merged "owner()" = some (.obj [("details", .str "kept"),
          ("type", .str "stateVariable")]) ∧
        merge (lostDevdoc [("details", .str "kept")]) .null merged = (merged, none) := by
  have hindex : Abi.index (.arr (sampleAbi.map .obj)) = .ok sampleIndex := by rfl
  have hmerge : merge (lostDevdoc [("details", .str "kept")]) .null sampleIndex.members =
      (sampleIndex.members ++ [("owner()", .obj [("details", .str "kept"),
        ("type", .str "stateVariable")])], none) := by rfl
  refine ⟨hindex, _, hmerge, rfl, ?_⟩
  obtain ⟨again, hagain, -, -, hsame, -⟩ := merge_again hindex hmerge
  rw [hagain, hsame.2]
  intro note hnote _ fields hfields change hchange
  obtain rfl := List.mem_singleton.1 hnote
  obtain rfl := List.mem_singleton.1 hchange
  obtain rfl := Json.obj.inj (Option.some.inj hfields)
  rfl

/-- A note on an event is lost by the first merge and counts in the second. -/
theorem merge_again_changes :
    ∃ once twice : Members,
      Abi.index (.arr []) = .ok ⟨[], []⟩ ∧
      merge (lostDevdoc []) (.obj []) [] = (once, none) ∧
      merge (lostDevdoc []) (.obj []) once = (twice, none) ∧
      Table.get? once "owner()" = some (.obj [("type", .str "stateVariable")]) ∧
      Table.get? twice "owner()" =
        some (.obj [("type", .str "stateVariable"), ("details", .str "lost")]) ∧
      once ≠ twice := by
  refine ⟨_, _, rfl, rfl, rfl, rfl, rfl, fun hsame => ?_⟩
  have hread := congrArg (Table.get? · "owner()") hsame
  have hfields := congrArg List.length (Json.obj.inj (Option.some.inj hread))
  exact absurd hfields (by decide)

end NatSpec.Members
