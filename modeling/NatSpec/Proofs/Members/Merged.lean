import NatSpec.Proofs.Members.Again
import NatSpec.Proofs.Members.Annotated

/-!
What a completed merge leaves. Its keys are those of the index and then the getters of the state
variables that have notes, each where it first occurs. Under each key is the record of the index, or
one without fields, with all notes that reach the key laid over it in the order of the sections.
-/

namespace NatSpec.Members

def madeKeys (edits : List Edit) : List String :=
  (edits.filter Edit.makes).map Edit.key

theorem madeKeys_append (edits later : List Edit) :
    madeKeys (edits ++ later) = madeKeys edits ++ madeKeys later := by
  rw [madeKeys, List.filter_append, List.map_append]
  rfl

theorem madeKeys_eq_nil {edits : List Edit} (h : ∀ edit ∈ edits, edit.makes = false) :
    madeKeys edits = [] := by
  rw [madeKeys, List.filter_eq_nil_iff.2 (by simpa using h)]
  rfl

theorem madeKeys_eq_map {edits : List Edit} (h : ∀ edit ∈ edits, edit.makes = true) :
    madeKeys edits = edits.map Edit.key := by
  rw [madeKeys, List.filter_eq_self.2 h]

/-- Edits bring in the keys under which they make records, where these first occur. -/
theorem keys_run (edits : List Edit) {records : Records} (h : records.keys.Nodup) :
    (run edits records).keys = (records.keys ++ madeKeys edits).eraseDups := by
  -- From the end, since the keys so far decide whether the last edit brings in its own.
  induction edits using List.reverseRecOn with
  | nil =>
      rw [madeKeys, List.filter_nil, List.map_nil, List.append_nil, Table.eraseDups_of_nodup h]
      rfl
  | append_singleton edits edit ih =>
      have hstep : run [edit] (run edits records) = edit.apply (run edits records) := rfl
      have hlast : madeKeys [edit] = if edit.makes = true then [edit.key] else [] := by
        cases hmakes : edit.makes <;> simp [madeKeys, hmakes]
      rw [run_append, hstep, Edit.keys_apply, ih, madeKeys_append, ← List.append_assoc, hlast]
      cases edit.makes with
      | false => simp
      | true =>
          rw [if_pos rfl, Table.eraseDups_concat]
          by_cases hmem : edit.key ∈ records.keys ++ madeKeys edits <;> simp [hmem]

/-- What the notes behind those on state variables set under a key. -/
def laterFields (devdoc userdoc : Json) (members : Members) (key : String) : Fields :=
  noteFields (nameConstructor members (notesIn devdoc "methods")) key ++
    noteFields (notesIn userdoc "events") key ++
    noteFields (nameConstructor members (notesIn userdoc "methods")) key

/-- All that the notes of both trees set under a key. Notes on events reach what was there before
the merge. -/
def fieldsLaid (devdoc userdoc : Json) (old members : Members) (key : String) : Fields :=
  (if key ∈ old.keys then noteFields (notesIn devdoc "events") key else []) ++
    variableFields (notesIn devdoc "stateVariables") key ++
    laterFields devdoc userdoc members key

/-- The members that a merge into old ones leaves. -/
structure Merged (devdoc userdoc : Json) (old members : Members) : Prop where
  keys : members.keys =
    (old.keys ++ (notesIn devdoc "stateVariables").map fun note => getter note.1).eraseDups
  record : ∀ key ∈ members.keys, ∃ base, (old.get? key).getD (.obj []) = .obj base ∧
    members.get? key =
      some (.obj (Table.overlay base (fieldsLaid devdoc userdoc old members key)))

namespace Pass

variable {pass : Pass} {devdoc userdoc : Json} {members : Members}

theorem Of.madeKeys_edits (h : pass.Of devdoc userdoc members) :
    madeKeys pass.edits = (notesIn devdoc "stateVariables").map fun note => getter note.1 := by
  rw [edits, opening, madeKeys_append, madeKeys_append, madeKeys_eq_nil h.makes_closing,
    madeKeys_eq_nil (makes_of_sectionEdits h.devEvents), madeKeys_eq_map h.makes_devVariables,
    keys_variableEdits (forall₂_of_sectionEdits h.devVariables), List.nil_append, List.append_nil, id]

theorem Of.fieldsSet_madeBy (h : pass.Of devdoc userdoc members) (key : String) :
    fieldsSet (pass.madeBy key) = variableFields (notesIn devdoc "stateVariables") key ++
      laterFields devdoc userdoc members key := by
  simp only [madeBy, closing, editsOf_append, fieldsSet_append, laterFields]
  rw [fieldsSet_variableEdits (forall₂_of_sectionEdits h.devVariables),
    fieldsSet_noteEdits (forall₂_of_sectionEdits h.devMethods),
    fieldsSet_noteEdits (forall₂_of_sectionEdits h.userEvents),
    fieldsSet_noteEdits (forall₂_of_sectionEdits h.userMethods)]
  rfl

theorem Of.get?_run_edits (h : pass.Of devdoc userdoc members) {records : Records} {key : String}
    (hkey : key ∈ (run pass.edits records).keys) :
    (run pass.edits records).get? key = some (Table.overlay ((records.get? key).getD [])
      (fieldsLaid devdoc userdoc (ofRecords records) members key)) := by
  rw [fieldsLaid, keys_ofRecords, List.append_assoc, ← h.fieldsSet_madeBy]
  by_cases hold : key ∈ records.keys
  · obtain ⟨base, hbase⟩ := Table.exists_get?_of_mem_keys hold
    rw [if_pos hold, get?_run, hbase, edited_some, editsOf_edits, fieldsSet_append,
      fieldsSet_noteEdits (forall₂_of_sectionEdits h.devEvents)]
    rfl
  · -- Notes on events are lost on a record that is made behind them.
    obtain ⟨fields, hfields⟩ := Table.exists_get?_of_mem_keys hkey
    rw [if_neg hold, hfields, h.get?_new hold hfields, Table.get?_eq_none_iff.2 hold]
    rfl

end Pass

/-- Every completed merge into an index leaves members like that. -/
theorem merged_of_merge {devdoc userdoc : Json} {index : Abi.Index} {members : Members}
    (hindex : index.Sound) (hmerge : merge devdoc userdoc index.members = (members, none)) :
    Merged devdoc userdoc index.members members := by
  obtain ⟨records, hrecords⟩ := hindex.records
  have hnodup := hindex.distinct
  rw [hrecords] at hmerge hnodup ⊢
  rw [keys_ofRecords] at hnodup
  obtain ⟨pass, hpass, rfl⟩ := merge_iff.1 hmerge
  have hpass : pass.Of devdoc userdoc (ofRecords (run pass.edits records)) := by
    refine hpass.congr ?_
    rw [keys_ofRecords, keys_ofRecords, hpass.keys_run_edits]
  constructor
  · rw [keys_ofRecords, keys_ofRecords, keys_run _ hnodup, hpass.madeKeys_edits]
  · intro key hkey
    rw [keys_ofRecords] at hkey
    refine ⟨(records.get? key).getD [], ?_, ?_⟩
    · rw [get?_ofRecords]
      cases records.get? key <;> rfl
    · rw [get?_ofRecords, hpass.get?_run_edits hkey]
      rfl

namespace Merged

variable {devdoc userdoc : Json} {old members : Members}

theorem nodup_keys (h : Merged devdoc userdoc old members) : members.keys.Nodup := by
  rw [h.keys]
  exact Table.nodup_eraseDups _

theorem mem_keys_iff (h : Merged devdoc userdoc old members) {key : String} :
    key ∈ members.keys ↔
      key ∈ old.keys ∨ ∃ note ∈ notesIn devdoc "stateVariables", getter note.1 = key := by
  rw [h.keys, List.mem_eraseDups, List.mem_append, List.mem_map]

end Merged

/-! ### Reading the fields of a record -/

/-- A field of a record is the one that was laid over it last, if any was. -/
theorem field_overlay (base laid : Fields) (key : Json.Key) :
    Json.field (Table.overlay base laid) key =
      ((Table.ofList laid).get? key).getD (Json.field base key) := by
  rw [Json.field, Table.get?_overlay]
  cases (Table.ofList laid).get? key <;> rfl

/-- Whether one of some fields has a name. -/
def Sets (laid : Fields) (key : Json.Key) : Prop :=
  ∃ change ∈ laid, (change.1 == key) = true

theorem field_overlay_of_not_sets {laid : Fields} {key : Json.Key} (h : ¬Sets laid key)
    (base : Fields) : Json.field (Table.overlay base laid) key = Json.field base key := by
  have hnone : (Table.ofList laid).get? key = none :=
    Table.get?_ofList_eq_none_iff.2 fun change hchange => by
      by_contra hkey
      exact h ⟨change, hchange, by simpa using hkey⟩
  rw [field_overlay, hnone, Option.getD_none]

end NatSpec.Members
