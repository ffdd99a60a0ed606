import NatSpec.Proofs.Json.Overlay
import NatSpec.Proofs.Members.Records
import NatSpec.Proofs.Table.Overlay

/-!
Notes as edits of records. An edit lays fields over the record under a key, and what becomes of a
record depends on the edits of its key only. A step of a merge completes just when its note is made
of pairs, and then it does what the edit of the note does; so does a list of steps.
-/

namespace NatSpec.Members

/-- A note for the record under a key. -/
structure Edit where
  key : String
  fields : Fields
  /-- Whether a record is made if there is none. -/
  makes : Bool

namespace Edit

/-- What becomes of the fields under the key of the edit. -/
def on (edit : Edit) : Option Fields → Option Fields
  | some fields => some (Table.overlay fields edit.fields)
  | none => if edit.makes then some (Table.ofList edit.fields) else none

def apply (edit : Edit) (records : Records) : Records :=
  match edit.on (records.get? edit.key) with
  | some fields => records.set edit.key fields
  | none => records

theorem get?_apply (edit : Edit) (records : Records) (key : String) :
    (edit.apply records).get? key =
      if edit.key = key then edit.on (records.get? key) else records.get? key := by
  by_cases hkey : edit.key = key
  · subst hkey
    rw [if_pos rfl, apply]
    split
    · rename_i fields h
      rw [Table.get?_set, if_pos BEq.rfl, h]
    · rename_i h
      -- Nothing comes of the edit only where there is no record.
      cases hfields : records.get? edit.key with
      | none => rw [← hfields, h, hfields]
      | some fields => simp [hfields, on] at h
  · rw [if_neg hkey, apply]
    split
    · rw [Table.get?_set, if_neg (by simpa using hkey)]
    · rfl

theorem keys_apply (edit : Edit) (records : Records) :
    (edit.apply records).keys =
      if edit.makes = true ∧ edit.key ∉ records.keys then records.keys ++ [edit.key]
      else records.keys := by
  rw [apply]
  by_cases hmem : edit.key ∈ records.keys
  · obtain ⟨fields, hfields⟩ := Table.exists_get?_of_mem_keys hmem
    rw [hfields, if_neg (by simp [hmem])]
    exact Table.keys_set_of_mem _ hmem
  · rw [Table.get?_eq_none_iff.2 hmem, on]
    cases edit.makes with
    | false => simp
    | true => simp [hmem, Table.keys_set_of_not_mem]

end Edit

/-- The records after edits, one after another. -/
def run (edits : List Edit) (records : Records) : Records :=
  edits.foldl (fun records edit => edit.apply records) records

theorem run_append (edits later : List Edit) (records : Records) :
    run (edits ++ later) records = run later (run edits records) :=
  List.foldl_append

def editsOf (edits : List Edit) (key : String) : List Edit :=
  edits.filter fun edit => edit.key = key

theorem editsOf_append (edits later : List Edit) (key : String) :
    editsOf (edits ++ later) key = editsOf edits key ++ editsOf later key :=
  List.filter_append ..

/-- All that a list of edits sets, in their order. -/
def fieldsSet (edits : List Edit) : Fields :=
  edits.flatMap Edit.fields

theorem fieldsSet_append (edits later : List Edit) :
    fieldsSet (edits ++ later) = fieldsSet edits ++ fieldsSet later :=
  List.flatMap_append ..

/-- The fields under one key after its edits. -/
def edited (edits : List Edit) (fields? : Option Fields) : Option Fields :=
  edits.foldl (fun fields? edit => edit.on fields?) fields?

theorem edited_append (edits later : List Edit) (fields? : Option Fields) :
    edited (edits ++ later) fields? = edited later (edited edits fields?) :=
  List.foldl_append

theorem get?_run (edits : List Edit) (records : Records) (key : String) :
    (run edits records).get? key = edited (editsOf edits key) (records.get? key) := by
  induction edits generalizing records with
  | nil => rfl
  | cons edit edits ih =>
      rw [show run (edit :: edits) records = run edits (edit.apply records) from rfl, ih,
        Edit.get?_apply]
      by_cases hkey : edit.key = key
      · rw [if_pos hkey, editsOf, editsOf, List.filter_cons_of_pos (by simpa using hkey)]
        rfl
      · rw [if_neg hkey, editsOf, editsOf, List.filter_cons_of_neg (by simpa using hkey)]

theorem edited_some (edits : List Edit) (fields : Fields) :
    edited edits (some fields) = some (Table.overlay fields (fieldsSet edits)) := by
  induction edits generalizing fields with
  | nil => rfl
  | cons edit edits ih =>
      rw [fieldsSet, List.flatMap_cons, Table.overlay_append]
      exact ih _

theorem edited_none {edits : List Edit} (h : ∀ edit ∈ edits, edit.makes = false) :
    edited edits none = none := by
  induction edits with
  | nil => rfl
  | cons edit edits ih =>
      obtain ⟨hedit, hrest⟩ := List.forall_mem_cons.1 h
      have hnone : edit.on none = none := if_neg (by simp [hedit])
      rw [edited, List.foldl_cons, hnone]
      exact ih hrest

theorem edited_cons_of_makes {edit : Edit} (edits : List Edit) (h : edit.makes = true) :
    edited (edit :: edits) none = some (Table.ofList (fieldsSet (edit :: edits))) := by
  have hmade : edit.on none = some (Table.ofList edit.fields) := if_pos h
  calc
    edited (edit :: edits) none = edited edits (some (Table.ofList edit.fields)) := by
      rw [edited, List.foldl_cons, hmade, edited]
    _ = some (Table.overlay (Table.ofList edit.fields) (fieldsSet edits)) := edited_some ..
    _ = some (Table.ofList (edit.fields ++ fieldsSet edits)) := by
      rw [Table.ofList, Table.ofList, Table.overlay_append]

/-- Edits only add keys, at the end. -/
theorem keys_prefix_run (edits : List Edit) (records : Records) :
    records.keys <+: (run edits records).keys := by
  induction edits generalizing records with
  | nil => exact List.prefix_rfl
  | cons edit edits ih =>
      refine List.IsPrefix.trans ?_ (ih (edit.apply records))
      rw [Edit.keys_apply]
      split
      · exact List.prefix_append ..
      · exact List.prefix_rfl

theorem nodup_keys_run (edits : List Edit) {records : Records} (h : records.keys.Nodup) :
    (run edits records).keys.Nodup := by
  induction edits generalizing records with
  | nil => exact h
  | cons edit edits ih =>
      have hedit : (edit.apply records).keys.Nodup := by
        rw [Edit.apply]
        split
        · exact Table.nodup_keys_set _ _ h
        · exact h
      exact ih hedit

/-- Edits that make no record but under keys that are there leave the keys. -/
theorem keys_run_of_mem {edits : List Edit} {records : Records}
    (h : ∀ edit ∈ edits, edit.makes = true → edit.key ∈ records.keys) :
    (run edits records).keys = records.keys := by
  induction edits generalizing records with
  | nil => rfl
  | cons edit edits ih =>
      obtain ⟨hedit, hrest⟩ := List.forall_mem_cons.1 h
      have hkeys : (edit.apply records).keys = records.keys := by
        rw [Edit.keys_apply, if_neg fun hmakes => hmakes.2 (hedit hmakes.1)]
      rw [← hkeys] at hrest
      exact (ih hrest).trans hkeys

theorem mem_keys_run {edits : List Edit} {edit : Edit} (h : edit ∈ edits)
    (hmakes : edit.makes = true) (records : Records) : edit.key ∈ (run edits records).keys := by
  obtain ⟨before, after, rfl⟩ := List.append_of_mem h
  rw [run_append]
  refine (keys_prefix_run after _).subset ?_
  rw [Edit.keys_apply]
  split
  · simp
  · rename_i hnot
    by_contra hmem
    exact hnot ⟨hmakes, hmem⟩

/-! ### Steps as edits -/

/-- A step completes on records just when there is an edit, and does what the edit does. -/
def Follows (step : Step) (edit? : Option Edit) : Prop :=
  ∀ records members, step (ofRecords records) = (members, none) ↔
    ∃ edit, edit? = some edit ∧ members = ofRecords (edit.apply records)

def noteEdit (note : String × Json) : Option Edit :=
  note.2.changes?.map fun changes => ⟨note.1, changes, false⟩

/-- The edit of a note on a state variable, which ends with the kind of the record. -/
def variableEdit (note : String × Json) : Option Edit :=
  note.2.changes?.map fun changes =>
    ⟨getter note.1, changes ++ [(.text "type", .str stateVariableKind)], true⟩

theorem follows_of_some {step : Step} {edit : Edit}
    (h : ∀ records, step (ofRecords records) = (ofRecords (edit.apply records), none)) :
    Follows step (some edit) := by
  intro records members
  rw [h, Prod.mk.injEq, and_iff_left rfl]
  constructor
  · rintro rfl
    exact ⟨edit, rfl, rfl⟩
  · rintro ⟨_, hedit, rfl⟩
    obtain rfl := Option.some.inj hedit
    rfl

theorem follows_none {step : Step}
    (h : ∀ records, ∃ fault, (step (ofRecords records)).2 = some fault) : Follows step none := by
  intro records members
  constructor
  · intro hstep
    obtain ⟨fault, hfault⟩ := h records
    rw [hstep] at hfault
    cases hfault
  · rintro ⟨_, hedit, -⟩
    cases hedit

theorem follows_annotate (note : String × Json) :
    Follows (annotate note.1 note.2) (noteEdit note) := by
  unfold noteEdit
  cases hchanges : note.2.changes? with
  | none =>
      refine follows_none fun records => ?_
      cases hfields : records.get? note.1 with
      | none =>
          obtain ⟨noPair, h⟩ := Json.exists_noPair_of_changes? hchanges []
          exact ⟨noPairFault noPair, by simp [annotate, hfields, h]⟩
      | some fields =>
          obtain ⟨noPair, h⟩ := Json.exists_noPair_of_changes? hchanges fields
          exact ⟨noPairFault noPair, by simp [annotate, hfields, h]⟩
  | some changes =>
      refine follows_of_some fun records => ?_
      cases hfields : records.get? note.1 with
      | none =>
          simp [annotate, hfields, Json.overlay_of_changes? hchanges, Edit.apply, Edit.on]
      | some fields =>
          simp [annotate, hfields, Json.overlay_of_changes? hchanges, Edit.apply, Edit.on]

theorem follows_annotateVariable (note : String × Json) :
    Follows (annotateVariable note.1 note.2) (variableEdit note) := by
  have hkey : note.1 ++ "()" = getter note.1 := rfl
  -- A missing record counts as one without fields.
  have hbase (records : Records) : (Table.get? (ofRecords records) (getter note.1)).getD (.obj []) =
      .obj ((records.get? (getter note.1)).getD []) := by
    rw [get?_ofRecords]
    cases records.get? (getter note.1) <;> rfl
  unfold variableEdit
  cases hchanges : note.2.changes? with
  | none =>
      refine follows_none fun records => ?_
      obtain ⟨noPair, h⟩ := Json.exists_noPair_of_changes? hchanges
        ((records.get? (getter note.1)).getD [])
      refine ⟨noPairFault noPair, ?_⟩
      simp only [annotateVariable, hkey, hbase]
      split
      · simp_all
      · simp_all
  | some changes =>
      refine follows_of_some fun records => ?_
      simp only [annotateVariable, hkey, hbase, Json.overlay_of_changes? hchanges, set_ofRecords]
      cases hfields : records.get? (getter note.1) with
      | none => simp [Edit.apply, Edit.on, hfields, Table.ofList, Table.overlay]
      | some fields => simp [Edit.apply, Edit.on, hfields, Table.overlay]

theorem inTurn_cons_iff {step : Step} {rest : List Step} {members later : Members} :
    inTurn (step :: rest) members = (later, none) ↔
      ∃ changed, step members = (changed, none) ∧ inTurn rest changed = (later, none) := by
  rw [inTurn]
  obtain ⟨changed, fault?⟩ := step members
  cases fault? with
  | none => simp
  | some fault => simp

theorem inTurn_iff {α : Type} {step : α → Step} {edit? : α → Option Edit}
    (h : ∀ a, Follows (step a) (edit? a)) (items : List α) (records : Records)
    (members : Members) :
    inTurn (items.map step) (ofRecords records) = (members, none) ↔
      ∃ edits, items.mapM edit? = some edits ∧ members = ofRecords (run edits records) := by
  induction items generalizing records with
  | nil =>
      constructor
      · intro hstep
        exact ⟨[], rfl, (congrArg Prod.fst hstep).symm⟩
      · rintro ⟨edits, hedits, rfl⟩
        obtain rfl := Option.some.inj hedits
        rfl
  | cons a items ih =>
      rw [List.map_cons, inTurn_cons_iff]
      constructor
      · rintro ⟨changed, hstep, hrest⟩
        obtain ⟨edit, hedit, rfl⟩ := (h a records changed).1 hstep
        obtain ⟨edits, hedits, rfl⟩ := (ih (edit.apply records)).1 hrest
        exact ⟨edit :: edits, by simp [hedit, hedits], rfl⟩
      · rintro ⟨edits, hedits, rfl⟩
        rw [List.mapM_cons] at hedits
        obtain ⟨edit, hedit, hedits⟩ := Option.bind_eq_some_iff.1 hedits
        obtain ⟨rest, hrest, hcons⟩ := Option.bind_eq_some_iff.1 hedits
        obtain rfl := Option.some.inj hcons
        exact ⟨_, (h a records _).2 ⟨edit, hedit, rfl⟩,
          (ih (edit.apply records)).2 ⟨rest, hrest, rfl⟩⟩

end NatSpec.Members
